import LineCode.Proofs.Writing
import Mathlib.Data.List.Basic

/-!
# Planes from their text

In every format a plane can be told from the text that stands for it, when its name and
the number of its cells are known, and so can the place where the text ends
(`Format.eq_of_planeText`). A text has the cells themselves, among blanks and line ends
that are no cells. The other two formats have the addresses that are on and those that are
don't-care, as numbers between commas up to a bracket; the two sets decide every cell
(`BitPlane.cells_eq_of_sets`). So planes of known names and lengths can be told from what
is written for them one after the other (`Format.planes_eq_of_text`).
-/

namespace LineCode

/-! ### Cells from sets of addresses -/

namespace BitPlane

variable {p p' : BitPlane}

theorem mem_indices {c : Cell} {i : Nat} : i ∈ p.indices c ↔ p.cells[i]? = some c := by
  unfold indices
  rw [List.mem_map]
  constructor
  · rintro ⟨⟨d, j⟩, hmem, rfl⟩
    obtain ⟨hd, hc⟩ := List.mem_filter.1 hmem
    rw [List.mem_zipIdx_iff_getElem?.1 hd, of_decide_eq_true hc]
  · intro h
    refine ⟨(c, i), List.mem_filter.2 ⟨List.mem_zipIdx_iff_getElem?.2 h, ?_⟩, rfl⟩
    exact decide_eq_true rfl

/-- A cell is what the two sets say of its address. -/
theorem cells_eq_of_sets (hlen : p.cells.length = p'.cells.length) (hon : p.onSet = p'.onSet)
    (hdc : p.dontCareSet = p'.dontCareSet) : p.cells = p'.cells := by
  have hset : ∀ {c : Cell} {i : Nat}, p.indices c = p'.indices c →
      (p.cells[i]? = some c ↔ p'.cells[i]? = some c) := by
    intro c i h
    rw [← mem_indices, ← mem_indices, h]
  refine List.ext_getElem hlen fun i hi hi' => ?_
  have hon' := hset (i := i) hon
  have hdc' := hset (i := i) hdc
  rw [List.getElem?_eq_getElem hi, List.getElem?_eq_getElem hi', Option.some_inj,
    Option.some_inj] at hon' hdc'
  generalize p.cells[i] = c at hon' hdc'
  generalize p'.cells[i] = c' at hon' hdc'
  cases c <;> cases c' <;> simp_all

end BitPlane

/-! ### Numbers between commas -/

theorem toList_commaSeparated (ns : List Nat) : (commaSeparated ns).toList =
    [','].intercalate (ns.map fun n => Nat.toDigits 10 n) := by
  unfold commaSeparated
  rw [String.toList_intercalate, List.map_map]
  refine congrArg _ (List.map_congr_left fun n _ => ?_)
  exact Nat.toList_repr

/-- A numeral has digits only. -/
theorem not_mem_toDigits {c : Char} (hc : c.isDigit = false) (n : Nat) :
    c ∉ Nat.toDigits 10 n := by
  intro h
  rw [Nat.isDigit_of_mem_toDigits (by decide) (by decide) h] at hc
  cases hc

/-- Numbers between commas have digits and commas only. -/
theorem not_mem_commaSeparated {c : Char} (hc : c.isDigit = false) (hcomma : c ≠ ',')
    (ns : List Nat) : c ∉ (commaSeparated ns).toList := by
  rw [toList_commaSeparated]
  induction ns with
  | nil => simp
  | cons n ns ih =>
    cases ns with
    | nil => simpa using not_mem_toDigits hc n
    | cons m ns =>
      rw [List.map_cons, List.map_cons, List.intercalate_cons_cons, List.mem_append,
        List.mem_append, List.mem_singleton]
      rintro ((h | h) | h)
      · exact not_mem_toDigits hc n h
      · exact hcomma h
      · exact ih h

/-- Cut at the commas, they are the numerals of the numbers. -/
theorem splitOn_commaSeparated {ns : List Nat} (h : ns ≠ []) :
    (commaSeparated ns).toList.splitOn ',' = ns.map fun n => Nat.toDigits 10 n := by
  rw [toList_commaSeparated]
  refine List.splitOn_intercalate ',' (fun l hl => ?_) (by simpa using h)
  obtain ⟨n, -, rfl⟩ := List.mem_map.1 hl
  exact not_mem_toDigits (by decide) n

theorem commaSeparated_cons_ne (n : Nat) (ns : List Nat) :
    commaSeparated (n :: ns) ≠ commaSeparated [] := by
  intro h
  have hcut := splitOn_commaSeparated (List.cons_ne_nil n ns)
  rw [h, List.map_cons] at hcut
  exact Nat.toDigits_ne_nil (List.cons.inj hcut).1.symm

/-- Numbers can be told from what they are between commas. -/
theorem commaSeparated_inj {ns ms : List Nat} : commaSeparated ns = commaSeparated ms ↔ ns = ms := by
  refine ⟨fun h => ?_, fun h => h ▸ rfl⟩
  have hdigits : Function.Injective fun n => Nat.toDigits 10 n :=
    Function.LeftInverse.injective fun _ => Nat.ofDigitChars_toDigits (by decide) (by decide)
  cases ns with
  | nil =>
    cases ms with
    | nil => rfl
    | cons m ms => exact absurd h.symm (commaSeparated_cons_ne m ms)
  | cons n ns =>
    cases ms with
    | nil => exact absurd h (commaSeparated_cons_ne n ns)
    | cons m ms =>
      have hcut := splitOn_commaSeparated (List.cons_ne_nil n ns)
      rw [h, splitOn_commaSeparated (List.cons_ne_nil m ms)] at hcut
      exact (List.map_injective_iff.2 hdigits hcut).symm

/-- What comes before the first bracket can be told, and so can what follows it. -/
theorem eq_of_append_cons {α : Type} {a : α} {xs xs' ys ys' : List α} (h : a ∉ xs) (h' : a ∉ xs')
    (heq : xs ++ a :: ys = xs' ++ a :: ys') : xs = xs' ∧ ys = ys' := by
  induction xs generalizing xs' with
  | nil =>
    cases xs' with
    | nil => exact ⟨rfl, (List.cons.inj heq).2⟩
    | cons x xs' => exact absurd (List.cons.inj heq).1 (List.ne_of_not_mem_cons h')
  | cons x xs ih =>
    cases xs' with
    | nil => exact absurd (List.cons.inj heq).1.symm (List.ne_of_not_mem_cons h)
    | cons x' xs' =>
      obtain ⟨rfl, htail⟩ := List.cons.inj heq
      obtain ⟨rfl, hys⟩ := ih (List.not_mem_of_not_mem_cons h) (List.not_mem_of_not_mem_cons h') htail
      exact ⟨rfl, hys⟩

/-- Numbers up to a bracket can be told, and so can what follows it. -/
theorem eq_of_commaSeparated_append {ns ms : List Nat} {rest rest' : List Char}
    (h : (commaSeparated ns).toList ++ ']' :: rest = (commaSeparated ms).toList ++ ']' :: rest') :
    ns = ms ∧ rest = rest' := by
  have hno : ∀ ks, ']' ∉ (commaSeparated ks).toList :=
    not_mem_commaSeparated (by decide) (by decide)
  obtain ⟨hnumbers, hrest⟩ := eq_of_append_cons (hno ns) (hno ms) h
  exact ⟨commaSeparated_inj.1 (String.toList_inj.1 hnumbers), hrest⟩

/-! ### Chunks -/

/-- The pieces of a list put together are the list. -/
theorem flatten_chunks {α : Type} (n : Nat) (xs : List α) : (chunks n xs).flatten = xs := by
  induction xs using chunks.induct n with
  | case1 => rw [chunks, List.flatten_nil]
  | case2 x xs ih => rw [chunks, List.flatten_cons, ih, List.cons_append, List.take_append_drop]

/-- Cells are read among characters that are no cells. -/
theorem filterMap_ofChar? (cells : List Cell) :
    (cells.map Cell.char).filterMap Cell.ofChar? = cells := by
  rw [List.filterMap_map]
  exact (List.filterMap_congr fun c _ => Cell.ofChar?_char c).trans List.filterMap_some

/-! ### The three formats -/

namespace BitPlane

variable {p p' : BitPlane} {rest rest' : List Char}

/-- The cells are what is left of their lines without blanks and line ends. -/
theorem filterMap_textLines (chunk : Nat) (p : BitPlane) :
    ((p.textLines chunk).tail.flatMap String.toList).filterMap Cell.ofChar? = p.cells := by
  have hline : ∀ cells : List Cell,
      ("    " ++ String.ofList (cells.map Cell.char) ++ "\n").toList.filterMap Cell.ofChar? =
        cells := by
    intro cells
    have htext : (String.ofList (cells.map Cell.char)).toList = cells.map Cell.char :=
      String.toList_ofList
    rw [String.toList_append, String.toList_append, htext, List.filterMap_append,
      List.filterMap_append, filterMap_ofChar?]
    exact List.append_nil cells
  unfold textLines
  rw [List.tail_cons, List.flatMap_map, List.filterMap_flatMap, List.flatMap_congr fun cells _ =>
    hline cells, List.flatMap_id', flatten_chunks]

theorem cells_eq_of_textLines {chunk : Nat} (hname : p.name = p'.name)
    (hlen : p.cells.length = p'.cells.length)
    (h : (p.textLines chunk).flatMap String.toList ++ rest =
      (p'.textLines chunk).flatMap String.toList ++ rest') : p.cells = p'.cells := by
  have hcut : ∀ (q : BitPlane) (r : List Char), (q.textLines chunk).flatMap String.toList ++ r =
      (q.name ++ ":\n").toList ++ ((q.textLines chunk).tail.flatMap String.toList ++ r) :=
    fun q r => List.append_assoc ..
  rw [hcut, hcut, hname] at h
  have hcells := congrArg (fun cs => (cs.filterMap Cell.ofChar?).take p.cells.length)
    (List.append_cancel_left h)
  simpa [List.filterMap_append, filterMap_textLines, hlen] using hcells

/-- The width of the addresses is known with the number of cells. -/
theorem inputs_eq (hlen : p.cells.length = p'.cells.length) : p.inputs = p'.inputs := by
  unfold inputs
  rw [hlen]

/-- The two sets, each up to its bracket, with `mid` between them and `tail` after them. -/
def setsText (p : BitPlane) (mid tail : List Char) : List Char :=
  (commaSeparated p.onSet).toList ++
    ']' :: (mid ++ ((commaSeparated p.dontCareSet).toList ++ ']' :: tail))

/-- The sets can be told, and with them the cells. -/
theorem cells_eq_of_setsText {front mid tail tail' : List Char}
    (hlen : p.cells.length = p'.cells.length)
    (h : front ++ p.setsText mid tail = front ++ p'.setsText mid tail') : p.cells = p'.cells := by
  obtain ⟨hon, hrest⟩ := eq_of_commaSeparated_append (List.append_cancel_left h)
  obtain ⟨hdc, -⟩ := eq_of_commaSeparated_append (List.append_cancel_left hrest)
  exact cells_eq_of_sets hlen hon hdc

/-- Before the sets stand the name and the width of the addresses. -/
theorem cells_eq_of_mintermLine (hname : p.name = p'.name)
    (hlen : p.cells.length = p'.cells.length)
    (h : p.mintermLine.toList ++ rest = p'.mintermLine.toList ++ rest') : p.cells = p'.cells := by
  have hcut : ∀ (q : BitPlane) (r : List Char), q.mintermLine.toList ++ r =
      (q.name ++ " inputs=" ++ toString q.inputs ++ " on=[").toList ++
        q.setsText " dc=[".toList ("\n".toList ++ r) := by
    intro q r
    have hdc : "] dc=[".toList = ']' :: " dc=[".toList := rfl
    have hend : "]\n".toList = ']' :: "\n".toList := rfl
    unfold mintermLine setsText
    simp only [String.toList_append, List.append_assoc, hdc, hend, List.cons_append]
  rw [hcut, hcut, hname, inputs_eq hlen] at h
  exact cells_eq_of_setsText hlen h

/-- The cells that follow the sets are not needed. -/
theorem cells_eq_of_jsonRecord (hname : p.name = p'.name)
    (hlen : p.cells.length = p'.cells.length)
    (h : p.jsonRecord.toList ++ rest = p'.jsonRecord.toList ++ rest') : p.cells = p'.cells := by
  have hcut : ∀ (q : BitPlane) (r : List Char), q.jsonRecord.toList ++ r =
      ("\x7b\"name\":" ++ Text.jsonString q.name ++ ",\"inputs\":" ++ toString q.inputs ++
          ",\"on\":[").toList ++
        q.setsText ",\"dc\":[".toList
          (",\"lut\":".toList ++ ((Text.jsonString q.render).toList ++ ("\x7d".toList ++ r))) := by
    intro q r
    have hdc : "],\"dc\":[".toList = ']' :: ",\"dc\":[".toList := rfl
    have hlut : "],\"lut\":".toList = ']' :: ",\"lut\":".toList := rfl
    unfold jsonRecord setsText
    simp only [String.toList_append, List.append_assoc, hdc, hlut, List.cons_append]
  rw [hcut, hcut, hname, inputs_eq hlen] at h
  exact cells_eq_of_setsText hlen h

end BitPlane

/-! ### One plane, several planes -/

namespace Format

variable {f : Format}

/-- A plane of a known name and length can be told from its text, and so can what follows. -/
theorem eq_of_planeText {p p' : BitPlane} (hname : p.name = p'.name)
    (hlen : p.cells.length = p'.cells.length) {rest rest' : List Char}
    (h : (f.planeText p).toList ++ rest = (f.planeText p').toList ++ rest') :
    p = p' ∧ rest = rest' := by
  have hcells : p.cells = p'.cells := by
    have htext := h
    unfold planeText at htext
    rw [String.toList_join, String.toList_join] at htext
    cases f with
    | text chunk => exact BitPlane.cells_eq_of_textLines hname hlen htext
    | minterms =>
      refine BitPlane.cells_eq_of_mintermLine hname hlen (?_ : _ ++ rest = _ ++ rest')
      simpa [pieces] using htext
    | json =>
      refine BitPlane.cells_eq_of_jsonRecord hname hlen (?_ : _ ++ ('\n' :: rest) = _ ++ ('\n' :: rest'))
      simpa [pieces] using htext
  have hplane : p = p' := by
    cases p
    cases p'
    exact BitPlane.mk.injEq .. ▸ ⟨hname, hcells⟩
  subst hplane
  exact ⟨rfl, List.append_cancel_left h⟩

/-- Planes of known names and lengths can be told from what is written for them. -/
theorem planes_eq_of_text {ps ps' : List BitPlane}
    (hshape : (ps.map fun p => (p.name, p.cells.length)) =
      ps'.map fun p => (p.name, p.cells.length))
    (h : String.join (ps.map f.planeText) = String.join (ps'.map f.planeText)) : ps = ps' := by
  induction ps generalizing ps' with
  | nil =>
    cases ps' with
    | nil => rfl
    | cons p' ps' => cases hshape
  | cons p ps ih =>
    cases ps' with
    | nil => cases hshape
    | cons p' ps' =>
      obtain ⟨hhead, htail⟩ := List.cons.inj hshape
      obtain ⟨hname, hlen⟩ := Prod.mk.inj hhead
      rw [← String.toList_inj, List.map_cons, List.map_cons, String.join_cons, String.join_cons,
        String.toList_append, String.toList_append] at h
      obtain ⟨rfl, hrest⟩ := eq_of_planeText hname hlen h
      rw [ih htail (String.toList_inj.1 hrest)]

end Format

end LineCode
