import LineCode.Proofs.Lines
import Mathlib.Algebra.Order.Floor.Div

/-!
# Planes read back from text

Planes that are written as text are read back from the bytes, by a reader that is not told how
many cells stand in a line (`planesOfText?_full`). A line that ends in a colon begins a plane,
whatever the name looks like, since a line of cells has at least one cell in it and so ends in
one. The cells are in lines of the given length, but for the last line of a plane, which may be
shorter and is never empty (`CellRows`).
-/

namespace LineCode

/-! ### Pieces of a list -/

section

variable {α : Type} {n : Nat} {piece xs : List α}

/-- A piece has an element, and no more than the given number. -/
theorem length_of_mem_chunks (h : piece ∈ chunks n xs) :
    1 ≤ piece.length ∧ piece.length ≤ max n 1 := by
  induction xs using chunks.induct n with
  | case1 =>
    rw [chunks] at h
    cases h
  | case2 x xs ih =>
    rw [chunks] at h
    obtain rfl | h := List.mem_cons.1 h
    · rw [List.length_cons, List.length_take]
      omega
    · exact ih h

/-- Where another piece follows, a piece has the given number of elements. -/
theorem length_of_mem_dropLast_chunks (h : piece ∈ (chunks n xs).dropLast) :
    piece.length = max n 1 := by
  induction xs using chunks.induct n with
  | case1 =>
    rw [chunks] at h
    cases h
  | case2 x xs ih =>
    rw [chunks] at h
    cases hrest : xs.drop (n - 1) with
    | nil =>
      rw [hrest, chunks] at h
      cases h
    | cons y ys =>
      have hmore : n - 1 < xs.length := by
        refine Nat.lt_of_not_le fun hle => ?_
        rw [List.drop_eq_nil_of_le hle] at hrest
        cases hrest
      have hne : chunks n (xs.drop (n - 1)) ≠ [] := by
        rw [hrest, chunks]
        exact List.cons_ne_nil _ _
      rw [List.dropLast_cons_of_ne_nil hne] at h
      obtain rfl | h := List.mem_cons.1 h
      · rw [List.length_cons, List.length_take]
        omega
      · exact ih h

/-- There are as many pieces as the elements need. -/
theorem length_chunks (n : Nat) (xs : List α) :
    (chunks n xs).length = xs.length ⌈/⌉ max n 1 := by
  have hpos : 0 < max n 1 := by omega
  induction xs using chunks.induct n with
  | case1 => rw [chunks, List.length_nil, List.length_nil, zero_ceilDiv]
  | case2 x xs ih =>
    rw [chunks, List.length_cons, ih, List.length_drop, List.length_cons,
      Nat.ceilDiv_eq_add_pred_div, Nat.ceilDiv_eq_add_pred_div]
    generalize hw : max n 1 = w at hpos
    obtain hle | hlt := Nat.lt_or_ge xs.length w
    · have hfirst : (xs.length - (n - 1) + w - 1) / w = 0 := Nat.div_eq_of_lt (by omega)
      have hone : (xs.length + 1 + w - 1) / w = 1 := by
        rw [show xs.length + 1 + w - 1 = xs.length + w by omega, Nat.add_div_right _ hpos,
          Nat.div_eq_of_lt hle]
      rw [hfirst, hone]
    · rw [show xs.length - (n - 1) + w - 1 = xs.length by omega,
        show xs.length + 1 + w - 1 = xs.length + w by omega, Nat.add_div_right _ hpos]

end

/-! ### The reader -/

/-- What a line says. -/
inductive PlaneLine
  /-- A plane begins. -/
  | header (name : String)
  /-- The plane goes on. -/
  | cells (row : List Cell)

namespace PlaneLine

/-- A line that ends in a colon is a header, with the name before the colon. Any other is four
spaces and cells. -/
def ofChars? (line : List Char) : Option PlaneLine :=
  if line.getLast? = some ':' then some (.header (String.ofList line.dropLast))
  else
    match line with
    | ' ' :: ' ' :: ' ' :: ' ' :: cs => (cs.mapM Cell.ofChar?).map .cells
    | _ => none

/-- The cells before the first header, and the planes from there on. -/
def planes : List PlaneLine → List Cell × List BitPlane
  | [] => ([], [])
  | .header name :: lines => ([], ⟨name, (planes lines).1⟩ :: (planes lines).2)
  | .cells row :: lines => (row ++ (planes lines).1, (planes lines).2)

end PlaneLine

/-- The planes that bytes are the text of. Cells that no header stands before belong to none. -/
def planesOfText? (bytes : ByteArray) : Option (List BitPlane) := do
  let lines ← (← Text.linesOfBytes? bytes).mapM PlaneLine.ofChars?
  match PlaneLine.planes lines with
  | ([], ps) => some ps
  | _ => none

/-! ### Lines of planes -/

theorem mapM_ofChar?_char (cells : List Cell) :
    (cells.map Cell.char).mapM Cell.ofChar? = some cells := by
  have h : (cells.map Cell.char).mapM Cell.ofChar? = some (cells.map id) :=
    mapM_eq_some fun c _ => c.ofChar?_char
  rwa [List.map_id] at h

namespace PlaneLine

theorem ofChars?_header (name : String) :
    ofChars? (name.toList ++ [':']) = some (.header name) := by
  unfold ofChars?
  rw [if_pos List.getLast?_concat, List.dropLast_concat, String.ofList_toList]

/-- A line of cells does not end in a colon, since there is a cell at its end. -/
theorem ofChars?_cells {row : List Cell} (h : row ≠ []) :
    ofChars? ("    ".toList ++ row.map Cell.char) = some (.cells row) := by
  have hend : ("    ".toList ++ row.map Cell.char).getLast? ≠ some ':' := by
    rw [List.getLast?_append_of_ne_nil _ (by simpa using h), List.getLast?_map]
    cases row.getLast? with
    | none => simp
    | some c => cases c <;> decide
  unfold ofChars?
  rw [if_neg hend]
  change ((row.map Cell.char).mapM Cell.ofChar?).map PlaneLine.cells = _
  rw [mapM_ofChar?_char]
  rfl

/-- The lines of a plane, its cells divided into `rows`, before other lines. -/
theorem planes_append (name : String) (rows : List (List Cell)) (lines : List PlaneLine) :
    planes (.header name :: rows.map .cells ++ lines) =
      ([], ⟨name, rows.flatten ++ (planes lines).1⟩ :: (planes lines).2) := by
  have hrows : planes (rows.map .cells ++ lines) =
      (rows.flatten ++ (planes lines).1, (planes lines).2) := by
    induction rows with
    | nil => rfl
    | cons row rows ih =>
      rw [List.map_cons, List.cons_append, planes, ih, List.flatten_cons, List.append_assoc]
  rw [List.cons_append, planes, hrows]

end PlaneLine

namespace BitPlane

variable {chunk : Nat} {p : BitPlane} {ps : List BitPlane}

/-- The printed cells, divided into lines. -/
def rows (chunk : Nat) (p : BitPlane) : List (List Char) :=
  (chunks chunk p.cells).map fun row => row.map Cell.char

/-- The lines that a plane is written in. -/
def lines (chunk : Nat) (p : BitPlane) : List (List Char) :=
  (p.name.toList ++ [':']) :: (p.rows chunk).map ("    ".toList ++ ·)

theorem toList_planeText (chunk : Nat) (p : BitPlane) :
    ((Format.text chunk).planeText p).toList = Text.unlines (p.lines chunk) := by
  have hcolon : ":\n".toList = [':', '\n'] := rfl
  have hend : "\n".toList = ['\n'] := rfl
  simp only [Format.planeText, Format.pieces, textLines, String.toList_join, lines, rows,
    Text.unlines, List.flatMap_cons, List.flatMap_map, String.toList_append, String.toList_ofList,
    hcolon, hend, List.append_assoc, List.cons_append, List.nil_append]

/-- Neither cells nor the blanks before them are newlines. -/
theorem not_mem_lines (h : '\n' ∉ p.name.toList) : ∀ l ∈ p.lines chunk, '\n' ∉ l := by
  have hchar : ∀ c : Cell, c.char ≠ '\n' := by
    intro c
    cases c <;> decide
  unfold lines rows
  simp only [List.forall_mem_cons, List.forall_mem_map]
  refine ⟨by simpa using h, fun row _ hmem => ?_⟩
  obtain hblank | hcell := List.mem_append.1 hmem
  · exact absurd hblank (by decide)
  · obtain ⟨c, -, hc⟩ := List.mem_map.1 hcell
    exact hchar c hc

/-- Line by line a plane is read as its name and pieces of its cells. -/
theorem mapM_lines (chunk : Nat) (p : BitPlane) : (p.lines chunk).mapM PlaneLine.ofChars? =
    some (.header p.name :: (chunks chunk p.cells).map .cells) := by
  have hrows : ((p.rows chunk).map ("    ".toList ++ ·)).mapM PlaneLine.ofChars? =
      some ((chunks chunk p.cells).map .cells) := by
    rw [rows, List.map_map]
    refine mapM_eq_some fun row hrow => PlaneLine.ofChars?_cells ?_
    exact List.length_pos_iff.1 (length_of_mem_chunks hrow).1
  rw [lines, List.mapM_cons, PlaneLine.ofChars?_header, hrows]
  rfl

/-- The lines of planes are read as the planes. -/
theorem planes_of_mapM_lines (chunk : Nat) (ps : List BitPlane) :
    ∃ ls, (ps.flatMap (lines chunk)).mapM PlaneLine.ofChars? = some ls ∧
      PlaneLine.planes ls = ([], ps) := by
  induction ps with
  | nil => exact ⟨[], rfl, rfl⟩
  | cons p ps ih =>
    obtain ⟨ls, hls, hplanes⟩ := ih
    refine ⟨.header p.name :: (chunks chunk p.cells).map .cells ++ ls, ?_, ?_⟩
    · rw [List.flatMap_cons, List.mapM_append, mapM_lines, hls]
      rfl
    · rw [PlaneLine.planes_append, hplanes, flatten_chunks, List.append_nil]

end BitPlane

/-! ### Reading back -/

/-- Planes are read from the text of them, without being told the number of cells in a line. -/
theorem planesOfText?_full {chunk : Nat} {ps : List BitPlane}
    (h : ∀ p ∈ ps, '\n' ∉ p.name.toList) :
    planesOfText? ((Format.text chunk).writePlanes ps).full = some ps := by
  have hlines : Text.linesOfBytes? ((Format.text chunk).writePlanes ps).full =
      some (ps.flatMap (BitPlane.lines chunk)) :=
    Format.linesOfBytes?_full (BitPlane.toList_planeText chunk) fun p hp =>
      BitPlane.not_mem_lines (h p hp)
  obtain ⟨ls, hls, hplanes⟩ := BitPlane.planes_of_mapM_lines chunk ps
  unfold planesOfText?
  rw [hlines]
  change ((ps.flatMap (BitPlane.lines chunk)).mapM PlaneLine.ofChars?).bind _ = _
  rw [hls, Option.bind_some, hplanes]

/-- `rows` are the printed cells of `p`, in lines of `chunk`; a chunk of zero counts as one. -/
structure CellRows (chunk : Nat) (p : BitPlane) (rows : List (List Char)) : Prop where
  /-- Put together they are the cells in one line. -/
  flatten : String.ofList rows.flatten = p.render
  /-- There are as many as the cells need. -/
  length : rows.length = p.cells.length ⌈/⌉ max chunk 1
  /-- All but the last one are full, -/
  full : ∀ row ∈ rows.dropLast, row.length = max chunk 1
  /-- and the last one is neither empty nor more than full. -/
  last : ∀ row ∈ rows.getLast?, 1 ≤ row.length ∧ row.length ≤ max chunk 1

theorem BitPlane.cellRows_rows (chunk : Nat) (p : BitPlane) : CellRows chunk p (p.rows chunk) where
  flatten := by rw [rows, ← List.map_flatten, flatten_chunks, render]
  length := by rw [rows, List.length_map, length_chunks]
  full := by
    intro row hrow
    rw [rows, ← List.map_dropLast] at hrow
    obtain ⟨piece, hpiece, rfl⟩ := List.mem_map.1 hrow
    rw [List.length_map, length_of_mem_dropLast_chunks hpiece]
  last := by
    intro row hrow
    obtain ⟨piece, hpiece, rfl⟩ := List.mem_map.1 (List.mem_of_getLast? hrow)
    rw [List.length_map]
    exact length_of_mem_chunks hpiece

/-- What becomes of planes that are written as text, with `chunk` cells in a line. -/
structure ReadsText (chunk : Nat) (ps : List BitPlane) : Prop where
  /-- They are all written. -/
  written : (((Format.text chunk).writePlanes ps).collect none).1 = .ok ps.length
  /-- The lines are, for each plane, its name with a colon and its cells in lines of `chunk`, after
  four blanks each. -/
  lines : ∃ rows : BitPlane → List (List Char), (∀ p, CellRows chunk p (rows p)) ∧
    Text.linesOfBytes? ((Format.text chunk).writePlanes ps).full =
      some (ps.flatMap fun p => (p.name.toList ++ [':']) :: (rows p).map ("    ".toList ++ ·))
  /-- The planes are read back. -/
  read : planesOfText? ((Format.text chunk).writePlanes ps).full = some ps
  /-- No other planes are written as these bytes, with any number of cells in a line. -/
  eq_of_full : ∀ chunk' ps', (∀ p ∈ ps', '\n' ∉ p.name.toList) →
    ((Format.text chunk').writePlanes ps').full = ((Format.text chunk).writePlanes ps).full →
      ps' = ps

/-- **Text**: planes of any names without newlines, and of any cells, are read back from the text
of them by one reader, however many cells stand in a line. -/
theorem textExport_readable {ps : List BitPlane} (h : ∀ p ∈ ps, '\n' ∉ p.name.toList)
    (chunk : Nat) : ReadsText chunk ps where
  written := by rw [((Format.text chunk).appends_writePlanes ps).collect]
  lines := ⟨BitPlane.rows chunk, fun p => p.cellRows_rows chunk,
    Format.linesOfBytes?_full (BitPlane.toList_planeText chunk)
      fun p hp => BitPlane.not_mem_lines (h p hp)⟩
  read := planesOfText?_full h
  eq_of_full := by
    intro chunk' ps' h' heq
    have hread : planesOfText? ((Format.text chunk').writePlanes ps').full = some ps' :=
      planesOfText?_full h'
    rw [heq, planesOfText?_full h] at hread
    exact (Option.some.inj hread).symm

/-- A name may look like a line of cells, have a colon at its end, or be empty. -/
theorem textExport_readable_names :
    let ps : List BitPlane := [⟨"    01", [.on, .off, .dontCare]⟩, ⟨":", []⟩, ⟨"", [.on]⟩]
    (∀ p ∈ ps, '\n' ∉ p.name.toList) ∧ ReadsText 2 ps ∧
      planesOfText? ((Format.text 0).writePlanes ps).full = some ps := by
  intro ps
  have h : ∀ p ∈ ps, '\n' ∉ p.name.toList := by decide
  exact ⟨h, textExport_readable h 2, (textExport_readable h 0).read⟩

end LineCode
