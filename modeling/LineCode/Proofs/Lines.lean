import LineCode.Proofs.Truncation

/-!
# Lines

A text whose every line is ended by a newline is read back line by line, from its characters
(`Text.lines?_unlines`) and from its bytes in UTF-8 (`Text.linesOfBytes?_toUTF8`). What is
written for planes one after the other has the lines of the planes one after the other, if
each plane is written in lines (`Format.linesOfBytes?_full`).
-/

namespace LineCode

namespace Text

variable {cs : List Char} {ls : List (List Char)}

/-- Lines one after the other, a newline after each. -/
def unlines (ls : List (List Char)) : List Char := ls.flatMap (· ++ ['\n'])

/-- The lines of a text, if a newline ends each of them. -/
def lines? (cs : List Char) : Option (List (List Char)) :=
  let pieces := cs.splitOn '\n'
  if pieces.getLast? = some [] then some pieces.dropLast else none

/-- The lines of a text that is given in UTF-8. -/
def linesOfBytes? (bytes : ByteArray) : Option (List (List Char)) :=
  (String.fromUTF8? bytes).bind fun s => lines? s.toList

/-- Cut at the newlines, lines come back, and nothing after the last one. -/
theorem splitOn_unlines (h : ∀ l ∈ ls, '\n' ∉ l) : (unlines ls).splitOn '\n' = ls ++ [[]] := by
  induction ls with
  | nil => rfl
  | cons l ls ih =>
    have hcut : unlines (l :: ls) = l ++ '\n' :: unlines ls := by
      rw [unlines, List.flatMap_cons, List.append_assoc]
      rfl
    rw [hcut, List.splitOn_append_cons_self_of_not_mem (h l List.mem_cons_self),
      ih fun l' hl' => h l' (List.mem_cons_of_mem l hl'), List.cons_append]

theorem lines?_unlines (h : ∀ l ∈ ls, '\n' ∉ l) : lines? (unlines ls) = some ls := by
  rw [lines?, splitOn_unlines h]
  simp

theorem fromUTF8?_toUTF8 (s : String) : String.fromUTF8? s.toUTF8 = some s :=
  dif_pos s.isValidUTF8

theorem linesOfBytes?_toUTF8 {s : String} (hs : s.toList = unlines ls) (h : ∀ l ∈ ls, '\n' ∉ l) :
    linesOfBytes? s.toUTF8 = some ls := by
  rw [linesOfBytes?, fromUTF8?_toUTF8, Option.bind_some, hs, lines?_unlines h]

end Text

/-- A list is read when each of its items is. -/
theorem mapM_eq_some {α β γ : Type} {f : β → Option γ} {g : α → β} {k : α → γ} {xs : List α}
    (h : ∀ x ∈ xs, f (g x) = some (k x)) : (xs.map g).mapM f = some (xs.map k) := by
  induction xs with
  | nil => rfl
  | cons x xs ih =>
    rw [List.map_cons, List.mapM_cons, h x List.mem_cons_self,
      ih fun y hy => h y (List.mem_cons_of_mem x hy)]
    rfl

/-! ### Lines of planes -/

/-- Planes that are written in lines are read back as their lines. -/
theorem Format.linesOfBytes?_full {f : Format} {ps : List BitPlane}
    {lines : BitPlane → List (List Char)}
    (hlines : ∀ p, (f.planeText p).toList = Text.unlines (lines p))
    (h : ∀ p ∈ ps, ∀ l ∈ lines p, '\n' ∉ l) :
    Text.linesOfBytes? (f.writePlanes ps).full = some (ps.flatMap lines) := by
  have hall : (String.join (ps.map f.planeText)).toList = Text.unlines (ps.flatMap lines) := by
    rw [String.toList_join, List.flatMap_map, Text.unlines, List.flatMap_assoc]
    exact List.flatMap_congr fun p _ => hlines p
  have hclear : ∀ l ∈ ps.flatMap lines, '\n' ∉ l := by
    intro l hl
    obtain ⟨p, hp, hlp⟩ := List.mem_flatMap.1 hl
    exact h p hp l hlp
  rw [full_writePlanes]
  exact Text.linesOfBytes?_toUTF8 hall hclear

/-- Planes that are written in a line each are read back as these lines. -/
theorem Format.linesOfBytes?_map {f : Format} {ps : List BitPlane} {line : BitPlane → List Char}
    (hline : ∀ p, (f.planeText p).toList = line p ++ ['\n']) (h : ∀ p ∈ ps, '\n' ∉ line p) :
    Text.linesOfBytes? (f.writePlanes ps).full = some (ps.map line) := by
  have hlines : ∀ p, (f.planeText p).toList = Text.unlines [line p] := by
    intro p
    rw [hline p, Text.unlines, List.flatMap_singleton]
  have hclear : ∀ p ∈ ps, ∀ l ∈ [line p], '\n' ∉ l := by
    intro p hp l hl
    rw [List.mem_singleton.1 hl]
    exact h p hp
  rw [linesOfBytes?_full hlines hclear, ← List.map_eq_flatMap]

end LineCode
