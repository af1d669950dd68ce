import LineCode.Proofs.Lines
import LineCode.Proofs.PlaneText
import Mathlib.Algebra.Ring.Nat

/-!
# Planes read back from minterms

The addresses that are on and those that are don't-care are listed in ascending order, and with
the number of cells they say every cell (`BitPlane.setsTell`).

A plane's line ends in three words: the width of the addresses and the two sets. No word has a
blank in it, so whatever stands before the three is the name, blanks, brackets and all, and a
reader that is told the number of cells gets the plane back (`BitPlane.ofMintermLine?_words`).
Lines are told apart by their ends, so among several planes no name may have a newline
(`readsMinterms`).

The width of a plane with `2 ^ n` cells is `n` (`BitPlane.inputs_of_length`), so such a plane is
read from its line alone. The planes of a codec are all of this kind, with ten inputs, and a
codec's minterms are read back from the bytes alone (`Codec.planesOfMinterms?_writeTables`).
-/

namespace LineCode

/-! ### The width of the addresses -/

/-- A number can be halved as often as a power of two divides it, up to the bound. -/
theorem le_halvings_iff {most n k : Nat} : k ≤ halvings most n ↔ k ≤ most ∧ 2 ^ k ∣ n := by
  induction most generalizing n k with
  | zero =>
    rw [halvings]
    refine ⟨fun h => ⟨h, ?_⟩, fun h => h.1⟩
    rw [Nat.le_zero.1 h]
    exact Nat.one_dvd n
  | succ most ih =>
    cases k with
    | zero => exact iff_of_true (Nat.zero_le _) ⟨Nat.zero_le _, Nat.one_dvd n⟩
    | succ k =>
      have htwo : 2 ^ (k + 1) ∣ n → n % 2 = 0 := fun h =>
        Nat.mod_eq_zero_of_dvd (Nat.dvd_trans (Nat.pow_dvd_pow 2 (Nat.le_add_left 1 k)) h)
      rw [halvings]
      split
      · rename_i heven
        have hhalf : 2 ^ k ∣ n / 2 ↔ 2 ^ (k + 1) ∣ n := by
          rw [Nat.dvd_div_iff_mul_dvd (Nat.dvd_of_mod_eq_zero heven), Nat.pow_succ']
        rw [Nat.add_le_add_iff_right, ih, hhalf, Nat.add_le_add_iff_right]
      · rename_i hodd
        exact iff_of_false (Nat.not_succ_le_zero k) fun h => hodd (htwo h.2)

theorem halvings_two_pow {most n : Nat} (h : n ≤ most) : halvings most (2 ^ n) = n := by
  refine Nat.le_antisymm ?_ (le_halvings_iff.2 ⟨h, Nat.dvd_refl _⟩)
  have hdvd : 2 ^ halvings most (2 ^ n) ∣ 2 ^ n := (le_halvings_iff.1 (Nat.le_refl _)).2
  exact (Nat.pow_dvd_pow_iff_le_right (by decide)).1 hdvd

/-- Addresses of `n` bits are the addresses of `2 ^ n` cells. -/
theorem BitPlane.inputs_of_length {p : BitPlane} {n : Nat} (h : p.cells.length = 2 ^ n)
    (hn : n ≤ 64) : p.inputs = n := by
  rw [inputs, h, halvings_two_pow hn]

/-! ### The sets of a plane -/

/-- The cells of so many addresses, from those that are on and those that are don't-care. -/
def cellsOfSets (len : Nat) (on dc : List Nat) : List Cell :=
  (List.range len).map fun i => if i ∈ on then .on else if i ∈ dc then .dontCare else .off

/-- What the two sets of a plane say of it. -/
structure SetsTell (p : BitPlane) : Prop where
  /-- The addresses that are on are in order, each listed once, -/
  on_ascending : p.onSet.Pairwise (· < ·)
  /-- as are those that are don't-care. -/
  dc_ascending : p.dontCareSet.Pairwise (· < ·)
  /-- None is both. -/
  disjoint : p.onSet.Disjoint p.dontCareSet
  /-- All of them are addresses of the plane. -/
  lt_length : ∀ i, i ∈ p.onSet ∨ i ∈ p.dontCareSet → i < p.cells.length
  /-- A cell is on, don't-care or off as its address is in the one set, the other or neither. -/
  cells : cellsOfSets p.cells.length p.onSet p.dontCareSet = p.cells

namespace BitPlane

variable {p : BitPlane} {c : Cell} {i : Nat}

/-- Addresses are listed as they are numbered. -/
theorem pairwise_indices (p : BitPlane) (c : Cell) : (p.indices c).Pairwise (· < ·) := by
  have hsub : (p.indices c).Sublist (p.cells.zipIdx.map Prod.snd) := List.filter_sublist.map _
  rw [List.zipIdx_map_snd] at hsub
  exact List.Pairwise.sublist hsub List.pairwise_lt_range'

theorem lt_length_of_mem_indices (h : i ∈ p.indices c) : i < p.cells.length :=
  (List.getElem?_eq_some_iff.1 (mem_indices.1 h)).1

theorem cellsOfSets_sets (p : BitPlane) :
    cellsOfSets p.cells.length p.onSet p.dontCareSet = p.cells := by
  refine List.ext_getElem (by simp [cellsOfSets]) fun i _ hi => ?_
  have hcell : p.cells[i]? = some p.cells[i] := List.getElem?_eq_getElem hi
  simp only [cellsOfSets, List.getElem_map, List.getElem_range, onSet, dontCareSet, mem_indices,
    hcell, Option.some.injEq]
  cases p.cells[i] <;> rfl

theorem setsTell (p : BitPlane) : SetsTell p where
  on_ascending := p.pairwise_indices .on
  dc_ascending := p.pairwise_indices .dontCare
  disjoint := by
    intro i hon hdc
    have hsame := (mem_indices.1 hon).symm.trans (mem_indices.1 hdc)
    cases hsame
  lt_length := by
    rintro i (h | h)
    · exact lt_length_of_mem_indices h
    · exact lt_length_of_mem_indices h
  cells := p.cellsOfSets_sets

end BitPlane

/-! ### The reader -/

/-- What stands before the last such character, and what stands after it. -/
def cutLast? (c : Char) : List Char → Option (List Char × List Char)
  | [] => none
  | x :: xs =>
    match cutLast? c xs with
    | some (before, after) => some (x :: before, after)
    | none => if x = c then some ([], xs) else none

/-- The numbers that stand between commas. -/
def numbersOf (cs : List Char) : List Nat :=
  if cs = [] then [] else (cs.splitOn ',').map fun digits => Nat.ofDigitChars 10 digits 0

/-- The addresses that a word lists, in brackets after a name of two letters. -/
def addressesOf (word : List Char) : List Nat := numbersOf (word.drop "on=[".length).dropLast

/-- The width that a word says, as a number after a name of six letters. -/
def widthOf (word : List Char) : Nat := Nat.ofDigitChars 10 (word.drop "inputs=".length) 0

namespace BitPlane

/-- A plane of so many cells, from its line: the last two words are the sets, the one before them
is the width of the addresses, and the rest is the name. -/
def ofMintermLine? (len : Nat) (line : List Char) : Option BitPlane := do
  let (line, dc) ← cutLast? ' ' line
  let (line, on) ← cutLast? ' ' line
  let (name, _) ← cutLast? ' ' line
  return ⟨String.ofList name, cellsOfSets len (addressesOf on) (addressesOf dc)⟩

/-- The width of the addresses, from a plane's line. -/
def inputsOfLine? (line : List Char) : Option Nat := do
  let (line, _) ← cutLast? ' ' line
  let (line, _) ← cutLast? ' ' line
  let (_, width) ← cutLast? ' ' line
  return widthOf width

/-- A plane with a cell for every address, from its line alone. -/
def ofFullLine? (line : List Char) : Option BitPlane := do
  let width ← inputsOfLine? line
  ofMintermLine? (2 ^ width) line

/-- Planes with a cell for every address, from the bytes that they are written as. -/
def planesOfMinterms? (bytes : ByteArray) : Option (List BitPlane) :=
  (Text.linesOfBytes? bytes).bind fun lines => lines.mapM ofFullLine?

end BitPlane

/-! ### Words -/

theorem cutLast?_of_not_mem {c : Char} {xs : List Char} (h : c ∉ xs) : cutLast? c xs = none := by
  induction xs with
  | nil => rfl
  | cons x xs ih =>
    rw [cutLast?, ih (List.not_mem_of_not_mem_cons h)]
    exact if_neg (List.ne_of_not_mem_cons h).symm

theorem cutLast?_append_cons {c : Char} {ys : List Char} (h : c ∉ ys) (xs : List Char) :
    cutLast? c (xs ++ c :: ys) = some (xs, ys) := by
  induction xs with
  | nil =>
    rw [List.nil_append, cutLast?, cutLast?_of_not_mem h]
    exact if_pos rfl
  | cons x xs ih => rw [List.cons_append, cutLast?, ih]

theorem numbersOf_commaSeparated (ns : List Nat) : numbersOf (commaSeparated ns).toList = ns := by
  cases ns with
  | nil => rfl
  | cons n ns =>
    have hne : (commaSeparated (n :: ns)).toList ≠ [] := fun h =>
      commaSeparated_cons_ne n ns (String.toList_inj.1 h)
    have hread : (fun digits => Nat.ofDigitChars 10 digits 0) ∘ (fun n => Nat.toDigits 10 n) = id :=
      funext fun _ => Nat.ofDigitChars_toDigits (by decide) (by decide)
    rw [numbersOf, if_neg hne, splitOn_commaSeparated (List.cons_ne_nil n ns), List.map_map, hread,
      List.map_id]

/-- The width of the addresses as it is written. -/
def widthWord (label : String) (n : Nat) : List Char := label.toList ++ Nat.toDigits 10 n

theorem widthOf_widthWord {label : String} {n : Nat}
    (h : label.toList.length = "inputs=".length) : widthOf (widthWord label n) = n := by
  rw [widthOf, widthWord, ← h, List.drop_left]
  exact Nat.ofDigitChars_toDigits (by decide) (by decide)

/-- The width has digits, and what is before them. -/
theorem not_mem_widthWord {c : Char} {label : String} (hlabel : c ∉ label.toList)
    (hdigit : c.isDigit = false) (n : Nat) : c ∉ widthWord label n := by
  rw [widthWord, List.mem_append, not_or]
  exact ⟨hlabel, not_mem_toDigits hdigit n⟩

/-- A set as it is written. -/
def setWord (label : String) (ns : List Nat) : List Char :=
  label.toList ++ (commaSeparated ns).toList ++ [']']

theorem addressesOf_setWord {label : String} {ns : List Nat}
    (h : label.toList.length = "on=[".length) : addressesOf (setWord label ns) = ns := by
  rw [addressesOf, setWord, ← h, List.append_assoc, List.drop_left, List.dropLast_concat,
    numbersOf_commaSeparated]

/-- A set has digits, commas and its brackets, and what is before them. -/
theorem not_mem_setWord {c : Char} {label : String} (hlabel : c ∉ label.toList)
    (hdigit : c.isDigit = false) (hcomma : c ≠ ',') (hbracket : c ≠ ']') (ns : List Nat) :
    c ∉ setWord label ns := by
  rw [setWord, List.mem_append, List.mem_append, List.mem_singleton]
  rintro ((h | h) | h)
  · exact hlabel h
  · exact not_mem_commaSeparated hdigit hcomma ns h
  · exact hbracket h

namespace BitPlane

variable {p : BitPlane}

/-- The name and the width of the addresses. -/
def mintermHead (p : BitPlane) : List Char :=
  p.name.toList ++ ' ' :: widthWord "inputs=" p.inputs

/-- The line of a plane, without its end. -/
def mintermWords (p : BitPlane) : List Char :=
  (p.mintermHead ++ ' ' :: setWord "on=[" p.onSet) ++ ' ' :: setWord "dc=[" p.dontCareSet

theorem toList_mintermLine (p : BitPlane) : p.mintermLine.toList = p.mintermWords ++ ['\n'] := by
  have hwidth : (toString p.inputs).toList = Nat.toDigits 10 p.inputs := Nat.toList_repr
  have hinputs : " inputs=".toList = ' ' :: "inputs=".toList := rfl
  have hon : " on=[".toList = ' ' :: "on=[".toList := rfl
  have hdc : "] dc=[".toList = ']' :: ' ' :: "dc=[".toList := rfl
  have hend : "]\n".toList = [']', '\n'] := rfl
  simp only [mintermLine, mintermWords, mintermHead, widthWord, setWord, String.toList_append,
    hwidth, hinputs, hon, hdc, hend, List.append_assoc, List.cons_append, List.nil_append]

theorem not_mem_mintermWords (h : '\n' ∉ p.name.toList) : '\n' ∉ p.mintermWords := by
  have hset : ∀ label : String, '\n' ∉ label.toList → ∀ ns, '\n' ∉ setWord label ns :=
    fun _ hlabel => not_mem_setWord hlabel (by decide) (by decide) (by decide)
  have hwidth : '\n' ∉ widthWord "inputs=" p.inputs :=
    not_mem_widthWord (by decide) (by decide) _
  simp only [mintermWords, mintermHead, List.mem_append, List.mem_cons, not_or]
  exact ⟨⟨⟨h, by decide, hwidth⟩, by decide, hset _ (by decide) _⟩, by decide, hset _ (by decide) _⟩

/-- The line of a plane is cut into its name and its three words. -/
theorem cutLast?_mintermWords (p : BitPlane) :
    cutLast? ' ' p.mintermWords =
        some (p.mintermHead ++ ' ' :: setWord "on=[" p.onSet, setWord "dc=[" p.dontCareSet) ∧
      cutLast? ' ' (p.mintermHead ++ ' ' :: setWord "on=[" p.onSet) =
        some (p.mintermHead, setWord "on=[" p.onSet) ∧
      cutLast? ' ' p.mintermHead = some (p.name.toList, widthWord "inputs=" p.inputs) := by
  have hset : ∀ label : String, ' ' ∉ label.toList → ∀ ns, ' ' ∉ setWord label ns :=
    fun _ hlabel => not_mem_setWord hlabel (by decide) (by decide) (by decide)
  refine ⟨cutLast?_append_cons (hset _ (by decide) _) _,
    cutLast?_append_cons (hset _ (by decide) _) _, cutLast?_append_cons ?_ _⟩
  exact not_mem_widthWord (by decide) (by decide) _

/-- A plane is read from its line, whatever its name, -/
theorem ofMintermLine?_words (p : BitPlane) :
    ofMintermLine? p.cells.length p.mintermWords = some p := by
  obtain ⟨hdcCut, honCut, hnameCut⟩ := p.cutLast?_mintermWords
  have hon : addressesOf (setWord "on=[" p.onSet) = p.onSet := addressesOf_setWord rfl
  have hdc : addressesOf (setWord "dc=[" p.dontCareSet) = p.dontCareSet := addressesOf_setWord rfl
  simp only [ofMintermLine?, hdcCut, honCut, hnameCut, Option.bind_eq_bind, Option.bind_some, hon,
    hdc, cellsOfSets_sets, String.ofList_toList]
  rfl

/-- and so is the width of its addresses. -/
theorem inputsOfLine?_words (p : BitPlane) : inputsOfLine? p.mintermWords = some p.inputs := by
  obtain ⟨hdcCut, honCut, hnameCut⟩ := p.cutLast?_mintermWords
  have hread : widthOf (widthWord "inputs=" p.inputs) = p.inputs := widthOf_widthWord rfl
  simp only [inputsOfLine?, hdcCut, honCut, hnameCut, Option.bind_eq_bind, Option.bind_some, hread]
  rfl

/-- Where the width says how many cells there are, the line is enough. -/
theorem ofFullLine?_words (h : p.cells.length = 2 ^ p.inputs) :
    ofFullLine? p.mintermWords = some p := by
  rw [ofFullLine?, inputsOfLine?_words, Option.bind_eq_bind, Option.bind_some, ← h,
    ofMintermLine?_words]

end BitPlane

/-! ### Reading back -/

/-- What a line says of a plane. -/
structure SaysPlane (p : BitPlane) (line : List Char) : Prop where
  /-- With its number of cells the plane is read from the line. -/
  plane : BitPlane.ofMintermLine? p.cells.length line = some p
  /-- The line says the width of the addresses. -/
  inputs : BitPlane.inputsOfLine? line = some p.inputs
  /-- Where there are `2 ^ n` cells, the width is `n` and the line is enough. -/
  full : ∀ n ≤ 64, p.cells.length = 2 ^ n →
    p.inputs = n ∧ BitPlane.ofFullLine? line = some p

theorem BitPlane.saysPlane_words (p : BitPlane) : SaysPlane p p.mintermWords where
  plane := p.ofMintermLine?_words
  inputs := p.inputsOfLine?_words
  full n hn h := by
    have hinputs : p.inputs = n := inputs_of_length h hn
    exact ⟨hinputs, ofFullLine?_words (by rw [hinputs, h])⟩

/-- What becomes of planes that are written as minterms. -/
structure ReadsMinterms (ps : List BitPlane) : Prop where
  /-- They are all written. -/
  written : ((Format.minterms.writePlanes ps).collect none).1 = .ok ps.length
  /-- There is one line for each plane, which says it. -/
  lines : ∃ lines, Text.linesOfBytes? (Format.minterms.writePlanes ps).full = some lines ∧
    List.Forall₂ SaysPlane ps lines
  /-- No other planes of so many cells are written as these bytes. -/
  eq_of_full : ∀ ps', (∀ p ∈ ps', '\n' ∉ p.name.toList) →
    (ps'.map fun p => p.cells.length) = ps.map (fun p => p.cells.length) →
      (Format.minterms.writePlanes ps').full = (Format.minterms.writePlanes ps).full → ps' = ps

namespace Format

variable {ps : List BitPlane}

theorem linesOfBytes?_minterms (h : ∀ p ∈ ps, '\n' ∉ p.name.toList) :
    Text.linesOfBytes? (minterms.writePlanes ps).full = some (ps.map BitPlane.mintermWords) := by
  refine linesOfBytes?_map (fun p => ?_) fun p hp => BitPlane.not_mem_mintermWords (h p hp)
  rw [planeText, pieces, String.toList_join, List.flatMap_singleton, p.toList_mintermLine]

/-- Lines and numbers of cells are enough. -/
theorem planes_eq_of_mintermWords {ps ps' : List BitPlane}
    (hlen : (ps'.map fun p => p.cells.length) = ps.map fun p => p.cells.length)
    (h : ps'.map BitPlane.mintermWords = ps.map BitPlane.mintermWords) : ps' = ps := by
  induction ps generalizing ps' with
  | nil => exact List.map_eq_nil_iff.1 h
  | cons p ps ih =>
    cases ps' with
    | nil => cases h
    | cons p' ps' =>
      obtain ⟨hcount, hcounts⟩ : p'.cells.length = p.cells.length ∧
          (ps'.map fun p => p.cells.length) = ps.map fun p => p.cells.length := List.cons.inj hlen
      obtain ⟨hline, hlines⟩ := List.cons.inj h
      have hplane : some p' = some p := by
        rw [← p'.ofMintermLine?_words, ← p.ofMintermLine?_words, hcount, hline]
      rw [Option.some.inj hplane, ih hcounts hlines]

end Format

/-- **Minterms**: planes of any names without newlines are read back from their lines. -/
theorem readsMinterms {ps : List BitPlane} (h : ∀ p ∈ ps, '\n' ∉ p.name.toList) :
    ReadsMinterms ps where
  written := by rw [(Format.minterms.appends_writePlanes ps).collect]
  lines := by
    refine ⟨_, Format.linesOfBytes?_minterms h, ?_⟩
    rw [List.forall₂_map_right_iff, List.forall₂_same]
    exact fun p _ => p.saysPlane_words
  eq_of_full := by
    intro ps' h' hlen heq
    have hlines := Format.linesOfBytes?_minterms h'
    rw [heq, Format.linesOfBytes?_minterms h] at hlines
    exact Format.planes_eq_of_mintermWords hlen (Option.some.inj hlines).symm

/-! ### The planes of a codec -/

namespace Codec

variable {c : Codec} {p : BitPlane}

/-- A plane of a codec is an output of its encode table or of its decode table. -/
theorem mem_planes_iff : p ∈ c.planes ↔
    (∃ i, c.encodeTable.plane i = p) ∨ ∃ i, c.decodeTable.plane i = p := by
  rw [planes, List.mem_append, LookupTable.planes, LookupTable.planes]
  simp [List.mem_finRange]

theorem length_cells_of_mem_planes (h : p ∈ c.planes) : p.cells.length = 1024 := by
  obtain ⟨i, rfl⟩ | ⟨i, rfl⟩ := mem_planes_iff.1 h
  · exact c.encodeTable.length_cells_plane i
  · exact c.decodeTable.length_cells_plane i

/-- The addresses of a codec's tables have ten bits. -/
theorem inputs_of_mem_planes (h : p ∈ c.planes) : p.inputs = 10 := by
  have hten : 1024 = 2 ^ 10 := by decide
  exact BitPlane.inputs_of_length ((length_cells_of_mem_planes h).trans hten) (by decide)

/-- A plane of a codec is read from its line alone. -/
theorem ofFullLine?_of_mem_planes (h : p ∈ c.planes) :
    BitPlane.ofFullLine? p.mintermWords = some p := by
  refine BitPlane.ofFullLine?_words ?_
  rw [inputs_of_mem_planes h, length_cells_of_mem_planes h]
  decide

/-- No output has a name with a newline. -/
theorem not_mem_name_of_mem_planes (h : p ∈ c.planes) : '\n' ∉ p.name.toList := by
  have hencode : ∀ i, '\n' ∉ (c.encodeTable.plane i).name.toList := by
    dsimp only [encodeTable, LookupTable.plane]
    decide +kernel
  have hdecode : ∀ i, '\n' ∉ (c.decodeTable.plane i).name.toList := by
    dsimp only [decodeTable, LookupTable.plane]
    decide +kernel
  obtain ⟨i, rfl⟩ | ⟨i, rfl⟩ := mem_planes_iff.1 h
  · exact hencode i
  · exact hdecode i

/-- **A codec's minterms** are read back as its planes, without being told how many cells they
have. -/
theorem planesOfMinterms?_writeTables (c : Codec) :
    BitPlane.planesOfMinterms? (c.writeTables .minterms).full = some c.planes := by
  have hlines : Text.linesOfBytes? (c.writeTables .minterms).full =
      some (c.planes.map BitPlane.mintermWords) :=
    Format.linesOfBytes?_minterms fun p hp => not_mem_name_of_mem_planes hp
  have hread : (c.planes.map BitPlane.mintermWords).mapM BitPlane.ofFullLine? =
      some (c.planes.map id) := mapM_eq_some fun p hp => ofFullLine?_of_mem_planes hp
  rw [BitPlane.planesOfMinterms?, hlines, Option.bind_some, hread, List.map_id]

end Codec

end LineCode
