import LineCode.Proofs.JsonText
import LineCode.Proofs.Productions
import LineCode.StoredWord
import Mathlib.Data.List.TakeWhile
import Mathlib.Tactic.IntervalCases

/-!
# Stored words

A decoder answers for a stored word if the word has no more than ten bits, and then it answers
what it answers for the code word in these bits (`Codec.decodeStored?_eq`). For any other there
is no row.

Words that are made from bits, from what a table writes or from a text have no more than ten
bits, since each way of making one gives the code word that the ten-bit way gives
(`StoredWord.MadeBy.inRange`). From JSON every word is made, whatever its bits
(`StoredWord.ofJson?_storedWordText`).
-/

namespace LineCode

/-! ### Numbers in JSON -/

namespace Json

/-- A stored word is a number of sixteen bits, and every such number is one. -/
theorem storedWord?_eq_some_iff {v : Value} {w : BitVec 16} :
    storedWord? v = some w ↔ v = .number (some w.toNat) := by
  constructor
  · intro h
    unfold storedWord? at h
    split at h
    · split at h
      · rename_i n hn
        cases h
        rw [BitVec.toNat_ofNat, Nat.mod_eq_of_lt hn]
      · cases h
    · cases h
  · rintro rfl
    rw [storedWord?, if_pos w.isLt, BitVec.ofNat_toNat, BitVec.setWidth_eq]

end Json

/-! ### Making stored words -/

namespace StoredWord

theorem toNat_ofCodeword (w : Codeword) : (ofCodeword w).bits.toNat = w.toNat := by
  have h : w.bits.toNat < 2 ^ 16 := Nat.lt_of_lt_of_le w.toNat_lt (by decide)
  exact (BitVec.toNat_setWidth ..).trans (Nat.mod_eq_of_lt h)

theorem inRange_ofCodeword (w : Codeword) : (ofCodeword w).InRange := by
  rw [InRange, toNat_ofCodeword]
  exact w.toNat_lt

/-- A word in range is a code word, stored. -/
theorem InRange.ofCodeword_low {w : StoredWord} (h : w.InRange) : ofCodeword w.low = w := by
  rw [StoredWord.mk.injEq, ← BitVec.toNat_inj, toNat_ofCodeword, low, Codeword.toNat,
    BitVec.toNat_setWidth]
  exact Nat.mod_eq_of_lt h

/-- Bits that are the number of a code word make that word, stored, and no others make one. -/
theorem ofBits?_eq (bits : BitVec 16) :
    ofBits? bits = (Codeword.ofNat? bits.toNat).map ofCodeword := by
  have hmask : mask < bits ↔ ¬ bits.toNat < Codeword.count := by
    rw [BitVec.lt_def, show mask.toNat = 1023 from rfl, show Codeword.count = 1024 from rfl]
    omega
  rw [ofBits?]
  cases hw : Codeword.ofNat? bits.toNat with
  | none => exact if_pos (hmask.2 (Nat.not_lt.2 (Codeword.ofNat?_eq_none_iff.1 hw)))
  | some w =>
    have hbits : bits.toNat = w.toNat := Codeword.ofNat?_eq_some_iff.1 hw
    have hlt : bits.toNat < Codeword.count := hbits ▸ w.toNat_lt
    rw [if_neg fun hm => hmask.1 hm hlt, Option.map_some, Option.some_inj, StoredWord.mk.injEq,
      ← BitVec.toNat_inj, toNat_ofCodeword, hbits]

/-- The low ten bits are those of a code word. -/
theorem ofLowBits_eq (bits : BitVec 16) : ofLowBits bits = ofCodeword (.ofNat bits.toNat) := by
  rw [ofLowBits, StoredWord.mk.injEq, ← BitVec.toNat_inj, toNat_ofCodeword, Codeword.toNat_ofNat,
    BitVec.toNat_and]
  exact Nat.and_two_pow_sub_one_eq_mod _ 10

theorem getLsbD_place {written stored : BitVec 16} {n : Nat} (hn : n < 16) (i : Nat) :
    (place written stored n).getLsbD i =
      (stored.getLsbD i || decide (n = i) && written.getLsbD (9 - n)) := by
  rw [place]
  split
  · rename_i hbit
    rw [BitVec.getLsbD_or, BitVec.getLsbD_twoPow, hbit, decide_eq_true hn, Bool.true_and,
      Bool.and_true]
  · rename_i hbit
    rw [Bool.not_eq_true] at hbit
    rw [hbit, Bool.and_false, Bool.or_false]

/-- After `n` steps, the first `n` bits of the line are where they are stored, and nothing else is
set. -/
theorem getLsbD_foldl_place {written : BitVec 16} {n : Nat} (hn : n ≤ 10) (i : Nat) :
    ((List.range n).foldl (place written) 0).getLsbD i =
      (decide (i < n) && written.getLsbD (9 - i)) := by
  induction n with
  | zero => simp
  | succ n ih =>
    rw [List.range_succ, List.foldl_append, List.foldl_cons, List.foldl_nil,
      getLsbD_place (by omega), ih (by omega)]
    rcases Nat.lt_trichotomy i n with h | rfl | h
    · simp [h, Nat.lt_succ_of_lt h, Nat.ne_of_gt h]
    · simp
    · simp [Nat.not_lt_of_gt h, Nat.not_lt_of_ge h, Nat.ne_of_lt h]

/-- A word in line order is turned round into the code word's stored bits. -/
theorem ofWritten_eq (written : BitVec 16) : ofWritten written = ofCodeword (.ofWritten written) := by
  rw [ofWritten, ofCodeword, StoredWord.mk.injEq]
  refine BitVec.eq_of_getLsbD_eq fun i hi => ?_
  rw [getLsbD_foldl_place (Nat.le_refl _), Codeword.wide, BitVec.getLsbD_setWidth,
    decide_eq_true hi, Bool.true_and]
  by_cases h : i < 10
  · rw [decide_eq_true h, Bool.true_and]
    exact (Codeword.bit_ofWritten written h).symm
  · rw [decide_eq_false h, Bool.false_and, BitVec.getLsbD_of_ge _ _ (Nat.le_of_not_lt h)]

/-- A text spells a stored word when it spells the code word. -/
theorem ofText_eq (text : String) : ofText text = (Codeword.ofText text).map ofCodeword := by
  have hbits : ∀ n, (bits? n).bind ofBits? = (Codeword.ofNat? n).map ofCodeword := by
    intro n
    rw [bits?]
    split
    · rename_i h
      rw [Option.bind_some, ofBits?_eq, BitVec.toNat_ofNat, Nat.mod_eq_of_lt h]
    · rename_i h
      have hn : Codeword.count ≤ n := Nat.le_trans (by decide) (Nat.le_of_not_lt h)
      rw [Codeword.ofNat?_eq_none_iff.2 hn]
      rfl
  rw [ofText, Codeword.ofText]
  obtain ⟨base, digits⟩ := wordForm (Text.normalize text)
  dsimp only
  cases Text.readNumeral base spellingBound digits with
  | error f => rfl
  | ok n =>
    dsimp only
    rw [hbits]
    cases Codeword.ofNat? n <;> rfl

/-! ### JSON -/

/-- A JSON text makes a word when it is the number of its bits, however many they are. -/
theorem ofJson?_eq_some_iff {text : String} {w : StoredWord} :
    ofJson? text = some w ↔ Json.Value.ofText? text = some (.number (some w.bits.toNat)) := by
  rw [ofJson?, Option.map_eq_some_iff]
  constructor
  · rintro ⟨bits, h, rfl⟩
    obtain ⟨v, hv, hbits⟩ := Option.bind_eq_some_iff.1 h
    rw [hv, Json.storedWord?_eq_some_iff.1 hbits]
  · intro h
    refine ⟨w.bits, ?_, rfl⟩
    rw [h]
    exact Json.storedWord?_eq_some_iff.2 rfl

/-- Every word is read as it is written. -/
theorem ofJson?_storedWordText (w : StoredWord) :
    ofJson? (Json.storedWordText w.bits) = some w :=
  ofJson?_eq_some_iff.2 (Json.Value.ofText?_toString _)

/-! ### The ways to a stored word -/

/-- The ways in which stored words are made. -/
inductive Way
  | bits
  | lowBits
  | written
  | text
  | table
  | json

/-- A stored word is made in a way. -/
inductive MadeBy : Way → StoredWord → Prop
  /-- From bits, if there are no more than ten, -/
  | bits {bits : BitVec 16} {w : StoredWord} (h : ofBits? bits = some w) : MadeBy .bits w
  /-- from the low ten of some bits, -/
  | lowBits (bits : BitVec 16) : MadeBy .lowBits (ofLowBits bits)
  /-- from a word in line order, -/
  | written (written : BitVec 16) : MadeBy .written (ofWritten written)
  /-- from a text that a user wrote, -/
  | text {text : String} {w : StoredWord} (h : ofText text = .ok w) : MadeBy .text w
  /-- from a row of a table, -/
  | table {rows : List Row} {t : Table} {r : Row} (ht : Table.ofRows rows = .ok t) (hr : r ∈ rows)
    (d : Disparity) : MadeBy .table (ofWritten (r.written d))
  /-- and from JSON. -/
  | json {text : String} {w : StoredWord} (h : ofJson? text = some w) : MadeBy .json w

/-- Made in any way but the last, a word is in range. -/
theorem MadeBy.inRange {way : Way} {w : StoredWord} (h : MadeBy way w) (hway : way ≠ .json) :
    w.InRange := by
  cases h with
  | @bits bits _ h =>
    rw [ofBits?_eq] at h
    obtain ⟨v, -, rfl⟩ := Option.map_eq_some_iff.1 h
    exact inRange_ofCodeword v
  | lowBits bits => exact ofLowBits_eq bits ▸ inRange_ofCodeword _
  | written written => exact ofWritten_eq written ▸ inRange_ofCodeword _
  | @text text _ h =>
    rw [ofText_eq] at h
    cases hv : Codeword.ofText text with
    | error f =>
      rw [hv] at h
      cases h
    | ok v =>
      rw [hv] at h
      cases h
      exact inRange_ofCodeword v
  | table ht hr d => exact ofWritten_eq _ ▸ inRange_ofCodeword _
  | json h => exact absurd rfl hway

/-- The words of a table are, in order, the ones that its rows write. -/
theorem words_of_ofRows {rows : List Row} {t : Table} (h : Table.ofRows rows = .ok t) :
    t.productions.map (fun p => ofCodeword p.word) =
      rows.flatMap fun r => [ofWritten r.minus, ofWritten r.plus] := by
  calc t.productions.map (fun p => ofCodeword p.word)
      = (t.productions.map Production.claim).map fun claim => ofCodeword claim.1 := by
        rw [List.map_map]
        rfl
    _ = (rows.flatMap Row.claims).map fun claim => ofCodeword claim.1 := by
        rw [Table.claims_of_ofRows h]
    _ = rows.flatMap fun r => [ofWritten r.minus, ofWritten r.plus] := by
        simp only [List.map_flatMap, Row.claims, ofWritten_eq]
        rfl

end StoredWord

/-! ### Decoding stored words -/

namespace Codec

variable {c : Codec} {w : StoredWord}

/-- There is a row for a word in range, the one of the code word in its low bits. -/
theorem row?_eq : c.row? w =
    if w.InRange then some fun rd => c.maps.reverse.get (decodeAddress w.low rd) else none := by
  have hlow : Codeword.ofNat w.bits.toNat = w.low := congrArg Codeword.mk (BitVec.ofNat_toNat ..)
  rw [row?, rows, Array.getElem?_ofFn]
  by_cases h : w.InRange
  · rw [if_pos h, ← hlow]
    exact dif_pos h
  · rw [if_neg h]
    exact dif_neg h

/-- A word in range is decoded as the code word in its low bits, and no other word is. -/
theorem decodeStored?_eq (rd : Disparity) :
    c.decodeStored? w rd = if w.InRange then some (c.decode w.low rd) else none := by
  rw [decodeStored?, row?_eq, apply_ite (Option.map _)]
  rfl

theorem decodeEachStored?_eq (rd : Option Disparity) :
    c.decodeEachStored? w rd = if w.InRange then some (c.decodeEach w.low rd) else none := by
  rw [decodeEachStored?, decodeEach]
  simp only [decodeStored?_eq]
  cases rd with
  | none => by_cases h : w.InRange <;> simp [h, Disparity.all]
  | some rd => by_cases h : w.InRange <;> simp [h]

theorem isValidStored?_eq (rd : Disparity) :
    c.isValidStored? w rd = if w.InRange then some (c.isValid w.low rd) else none := by
  rw [isValidStored?, row?_eq, apply_ite (Option.map _)]
  rfl

end Codec

/-- What is made of words and what the codec `c` makes of them. -/
structure StoredWords (c : Codec) : Prop where
  /-- Made in any way but from JSON, a word is in range, -/
  inRange : ∀ way w, StoredWord.MadeBy way w → way ≠ .json → w.InRange
  /-- and those of a table are, in order, the ones that its rows write. -/
  table : ∀ rows t, Table.ofRows rows = .ok t →
    t.productions.map (fun p => StoredWord.ofCodeword p.word) =
      rows.flatMap fun r => [StoredWord.ofWritten r.minus, StoredWord.ofWritten r.plus]
  /-- A JSON text makes the word whose bits are the number that it is, -/
  json_iff : ∀ text w, StoredWord.ofJson? text = some w ↔
    Json.Value.ofText? text = some (.number (some w.bits.toNat))
  /-- so from JSON every word is made. -/
  json : ∀ w, StoredWord.MadeBy .json w
  /-- A word in range is decoded as the code word in its low bits, and there is no row for any
  other. -/
  decode_eq : ∀ w rd,
    c.decodeStored? w rd = if w.InRange then some (c.decode w.low rd) else none
  decodeEach_eq : ∀ w rd,
    c.decodeEachStored? w rd = if w.InRange then some (c.decodeEach w.low rd) else none
  isValid_eq : ∀ w rd,
    c.isValidStored? w rd = if w.InRange then some (c.isValid w.low rd) else none

/-- **Stored words**: a decoder answers for the stored words of ten bits and for no others. All that
is made of bits, tables and texts is such a word, but all words are made of JSON. -/
theorem storedWords_answered (c : Codec) : StoredWords c where
  inRange _ _ h hway := h.inRange hway
  table _ _ h := StoredWord.words_of_ofRows h
  json_iff _ _ := StoredWord.ofJson?_eq_some_iff
  json w := .json w.ofJson?_storedWordText
  decode_eq _ _ := c.decodeStored?_eq _
  decodeEach_eq _ _ := c.decodeEachStored?_eq _
  isValid_eq _ _ := c.isValidStored?_eq _

/-- The JSON text `1024` makes a word that is out of range, and no decoder has a row for it. -/
theorem StoredWord.exists_ofJson?_not_inRange :
    ∃ w, StoredWord.ofJson? "1024" = some w ∧ ¬ w.InRange ∧
      ∀ (c : Codec) (rd : Disparity), c.decodeStored? w rd = none ∧
        c.decodeEachStored? w (some rd) = none ∧ c.isValidStored? w rd = none := by
  have hwide : ¬ StoredWord.InRange ⟨1024⟩ := by decide
  refine ⟨⟨1024⟩, StoredWord.ofJson?_storedWordText ⟨1024⟩, hwide, fun c rd => ?_⟩
  rw [c.decodeStored?_eq, c.decodeEachStored?_eq, c.isValidStored?_eq]
  simp only [if_neg hwide]
  trivial

end LineCode
