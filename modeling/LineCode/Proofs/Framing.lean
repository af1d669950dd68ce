import LineCode.Export.Format
import LineCode.Proofs.CommaSearch

/-!
# Framing

Nothing on a line says where its words start. A receiver that knows it of one word knows it
of all the later ones, since a word has ten bits: it reads bit `i` of word `k` at place
`10 * k + i` (`getElem?_serialize`), and the words are what is left of the line when it is
cut every ten bits (`cutWords_serialize`).

A receiver that does not know it looks for a comma. The search goes through the windows of
seven bits and stops at the first that is one of the two commas, whatever the bits are
(`commaWindow_iff` says so of the places that `findComma_eq_some_iff` is about). Where a word
starts, the window is a comma when the word carries one (`commaWindow_serialize_iff`), so the
search ends at the first such word at the latest. It may end before, at a comma that two words
make up across their seam. That they never do is a matter of the code table, not of the line.
-/

namespace LineCode

variable {bits : List Bool} {ws : List Codeword} {w : Codeword} {i k : Nat}

/-! ### Windows -/

/-- The seven bits from bit `i` on are all there, and are `0011111` or `1100000`. -/
def CommaWindow (bits : List Bool) (i : Nat) : Prop :=
  i + 7 ≤ bits.length ∧
    ((bits.drop i).take 7 = [false, false, true, true, true, true, true] ∨
      (bits.drop i).take 7 = [true, true, false, false, false, false, false])

/-- A comma starts at a bit when the window there is one. -/
theorem commaWindow_iff : CommaWindow bits i ↔ CommaAt bits i := by
  have hwindow : ∀ b, comma b <+: bits.drop i ↔ (bits.drop i).take 7 = comma b := fun b => by
    rw [List.prefix_iff_eq_take, length_comma, eq_comm]
    rfl
  constructor
  · rintro ⟨-, h | h⟩
    · exact ⟨true, (hwindow true).2 h⟩
    · exact ⟨false, (hwindow false).2 h⟩
  · intro h
    refine ⟨h.add_le_length, ?_⟩
    obtain ⟨b, hb⟩ := h
    cases b with
    | true => exact .inl ((hwindow true).1 hb)
    | false => exact .inr ((hwindow false).1 hb)

/-- Whether a pattern is a comma is seen from its seven low bits. -/
theorem isComma_congr {p q : BitVec 16} (h : ∀ i < commaLength, p.getLsbD i = q.getLsbD i) :
    Codeword.isComma p = Codeword.isComma q := by
  have hlow : p &&& 0b1111111 = q &&& 0b1111111 := by
    have hmask : (0b1111111 : BitVec 16) = (BitVec.allOnes 7).setWidth 16 := by decide
    refine BitVec.eq_of_getLsbD_eq fun i _ => ?_
    rw [hmask, BitVec.getLsbD_and, BitVec.getLsbD_and, BitVec.getLsbD_setWidth,
      BitVec.getLsbD_allOnes]
    by_cases hi : i < 7
    · rw [h i hi]
    · simp [hi]
  unfold Codeword.isComma Masked.accepts
  exact congrArg₂ _ (congrArg (· == _) hlow) (congrArg (· == _) hlow)

/-! ### Words -/

/-- A word carries a comma when its line does from the first bit on. -/
theorem Codeword.hasComma_iff : w.hasComma = true ↔ CommaAt w.lineBits 0 := by
  have hpattern : isComma w.wide = isComma (pattern (w.lineBits.take commaLength)) := by
    refine isComma_congr fun i hi => ?_
    have hi' : i < 10 := Nat.lt_trans hi (by decide)
    rw [getLsbD_pattern, w.getLsbD_wide hi', List.getD_eq_getElem?_getD,
      List.getElem?_take_of_lt hi, w.getElem?_lineBits hi']
    simp [show i < 16 by omega]
  have hlength : (w.lineBits.take commaLength).length = commaLength := by simp [commaLength]
  rw [← startsWithComma_iff, hasComma, hpattern]
  simp only [startsWithComma, hlength, decide_true, Bool.true_and]

/-- The word whose bits in line order are given. -/
def Codeword.ofLineBits (bits : List Bool) : Codeword :=
  ⟨(BitVec.ofBoolListLE bits).setWidth 10⟩

theorem Codeword.ofLineBits_lineBits (w : Codeword) : ofLineBits w.lineBits = w := by
  obtain ⟨b⟩ := w
  refine congrArg mk (BitVec.eq_of_getLsbD_eq fun i hi => ?_)
  rw [BitVec.getLsbD_setWidth, BitVec.getLsbD_ofBoolListLE, List.getD_eq_getElem?_getD,
    getElem?_lineBits _ hi]
  simp [hi, bit]

/-! ### Lines -/

/-- Pieces of one length, put together and cut to that length, come back. -/
theorem chunks_flatten {α : Type} {n : Nat} {pieces : List (List α)} (hn : 0 < n)
    (h : ∀ piece ∈ pieces, piece.length = n) : chunks n pieces.flatten = pieces := by
  induction pieces with
  | nil => rw [List.flatten_nil, chunks]
  | cons piece pieces ih =>
    have hlength := h piece List.mem_cons_self
    have hrest := ih fun p hp => h p (List.mem_cons_of_mem piece hp)
    cases piece with
    | nil => simp at hlength; omega
    | cons x xs =>
      obtain rfl : n = xs.length + 1 := hlength.symm
      rw [List.flatten_cons, List.cons_append, chunks, Nat.add_sub_cancel, List.take_left,
        List.drop_left, hrest]

/-- The words of a line that is cut every ten bits. -/
def cutWords (bits : List Bool) : List Codeword := (chunks 10 bits).map Codeword.ofLineBits

/-- A line that starts at a boundary is cut into the words it carries. -/
theorem cutWords_serialize (ws : List Codeword) : cutWords (serialize ws) = ws := by
  have hpieces : ∀ piece ∈ ws.map Codeword.lineBits, piece.length = 10 := by simp
  rw [cutWords, serialize, List.flatMap_def, chunks_flatten (by decide) hpieces,
    List.map_map]
  exact List.map_id'' Codeword.ofLineBits_lineBits ws

/-- The window at a boundary is a comma when the word that starts there carries one. -/
theorem commaWindow_serialize_iff (hw : ws[k]? = some w) :
    CommaWindow (serialize ws) (10 * k) ↔ w.hasComma = true := by
  rw [commaWindow_iff, commaAt_serialize_mul_iff hw, Codeword.hasComma_iff]

/-! ### Words and commas on a line -/

/-- What a search for a comma finds on the line `bits`. -/
structure FindsFirstComma (bits : List Bool) : Prop where
  /-- It finds the first window that is a comma. -/
  some_iff : ∀ i, findComma bits = some i ↔ IsLeast {j | CommaWindow bits j} i
  /-- It finds nothing when there is no such window. -/
  none_iff : findComma bits = none ↔ ∀ j, ¬ CommaWindow bits j

/-- How the words `ws` stand on their line. -/
structure Framed (ws : List Codeword) : Prop where
  /-- A word has ten bits. -/
  length_eq : (serialize ws).length = 10 * ws.length
  /-- They are the stored ones, the first of the line in bit 0. -/
  getElem?_eq : ∀ k i, i < 10 → (serialize ws)[10 * k + i]? = ws[k]?.map (·.bit i)
  /-- Cut every ten bits, the line gives the words back. -/
  cutWords_eq : cutWords (serialize ws) = ws
  /-- More words come after those before. -/
  append_eq : ∀ vs, serialize (ws ++ vs) = serialize ws ++ serialize vs
  /-- The window at a boundary is a comma when the word that starts there carries one. -/
  commaWindow_iff : ∀ k w, ws[k]? = some w →
    (CommaWindow (serialize ws) (10 * k) ↔ w.hasComma = true)
  /-- A search ends at the first word that carries a comma, if not before. -/
  findComma_le : ∀ k, ws.findIdx? Codeword.hasComma = some k →
    ∃ j ≤ 10 * k, findComma (serialize ws) = some j

/-- **Framing**: on the line of any words each has its ten places, and a search for a comma, on
any bits at all, finds the first. -/
theorem framing_exact (bits : List Bool) (ws : List Codeword) :
    FindsFirstComma bits ∧ Framed ws := by
  refine ⟨⟨fun i => ?_, ?_⟩, length_serialize ws, fun k _ => getElem?_serialize ws k,
    cutWords_serialize ws, serialize_append ws, fun k w hw => commaWindow_serialize_iff hw,
    fun k hk => ?_⟩
  · simp only [commaWindow_iff]
    exact findComma_eq_some_iff
  · simp only [commaWindow_iff]
    exact findComma_eq_none_iff
  · obtain ⟨hlt, hcomma, -⟩ := List.findIdx?_eq_some_iff_getElem.1 hk
    have hwindow := (commaWindow_serialize_iff (List.getElem?_eq_getElem hlt)).2 hcomma
    exact exists_findComma_le (commaWindow_iff.1 hwindow)

/-- The last bits of a word and the first of the next can be a comma, which the search finds before
that of the third word. -/
example : findComma (serialize [⟨0x300⟩, ⟨0x000⟩, ⟨0x17C⟩]) = some 8 := by decide

end LineCode
