import LineCode.LookupTable.Decode
import LineCode.Proofs.Lookup
import LineCode.Proofs.MaskedFields

/-!
# The rows of the decode table

A row serves both entering disparities. Its error bits are for each of them; of the
decodings it holds one only, the one for a positive disparity if there is one
(`Codec.held`). Every bit of a row is written once, so a row is known bit by bit
(`bit_errorRow`, `bit_addDecoded`).

The swap bit is right for both disparities all the same: a word that may follow both
changes neither (`rowExit?_decodeRow`). What the row may have wrong is the symbol
for a negative disparity, and only if the word names another symbol there.
-/

namespace LineCode

variable {c : Codec} {w : Codeword} {d e : Disparity}

/-! ### Decodings of one word -/

/-- The swap of a decoding takes its entering disparity to its exit. -/
theorem Codec.exit_of_decode {r : Decoded} (h : c.decode w d = .ok r) :
    (if r.changed then d.flip else d) = r.rd := by
  rw [(decode_eq_ok_iff.1 h).2]
  dsimp only
  by_cases hrd : r.rd = d
  · simp [hrd]
  · simp [hrd, ← Disparity.eq_flip_of_ne hrd]

/-- A word that is read from both disparities changes neither. -/
theorem Codec.rd_eq_of_decode {r r' : Decoded} (h : c.decode w d = .ok r)
    (h' : c.decode w e = .ok r') (hde : d ≠ e) : r.rd = d :=
  Table.rdOut_eq_rdIn (decode_eq_ok_iff.1 h).1 (decode_eq_ok_iff.1 h').1 rfl hde

/-- Two decodings of one word agree on whether it changes the disparity. -/
theorem Codec.changed_eq_of_decode {r r' : Decoded} (h : c.decode w d = .ok r)
    (h' : c.decode w e = .ok r') : r.changed = r'.changed := by
  by_cases hde : d = e
  · subst hde
    rw [h] at h'
    cases h'
    rfl
  · have hrd : r.rd = d := rd_eq_of_decode h h' hde
    have hrd' : r'.rd = e := rd_eq_of_decode h' h (Ne.symm hde)
    rw [(decode_eq_ok_iff.1 h).2, (decode_eq_ok_iff.1 h').2]
    simp [hrd, hrd']

/-- The decoding that the row of a word holds, if the word has one. -/
def Codec.held (c : Codec) (w : Codeword) : Option Decoded :=
  (c.decode w .positive).toOption.or (c.decode w .negative).toOption

theorem Codec.held_of_positive {r : Decoded} (h : c.decode w .positive = .ok r) :
    c.held w = some r := by
  unfold held
  rw [h]
  rfl

theorem Codec.held_of_negative {q : Rejected} {r : Decoded} (hp : c.decode w .positive = .error q)
    (hn : c.decode w .negative = .ok r) : c.held w = some r := by
  unfold held
  rw [hp, hn]
  rfl

theorem Codec.held_of_error (h : ∀ d, ∃ q, c.decode w d = .error q) : c.held w = none := by
  obtain ⟨q, hq⟩ := h .negative
  obtain ⟨q', hq'⟩ := h .positive
  unfold held
  rw [hq, hq']
  rfl

/-- A decoding is held when there is any. -/
theorem Codec.exists_held {r : Decoded} (h : c.decode w d = .ok r) :
    ∃ h, c.held w = some h ∧ ∃ e, c.decode w e = .ok h := by
  cases hp : c.decode w .positive with
  | ok r' => exact ⟨r', held_of_positive hp, _, hp⟩
  | error q =>
    cases d with
    | positive => rw [hp] at h; cases h
    | negative => exact ⟨r, held_of_negative hp h, _, h⟩

/-! ### Rows bit by bit -/

theorem bit_errorRow (c : Codec) (w : Codeword) (i : Nat) : (errorRow c w).bit i =
    if errorBit .positive = i then some (!c.isValid w .positive)
    else if errorBit .negative = i then some (!c.isValid w .negative)
    else if disparityErrorBit .positive = i then some (Detector.strict.flags .positive w)
    else if disparityErrorBit .negative = i then some (Detector.strict.flags .negative w)
    else none := by
  unfold errorRow
  rw [Masked.bit_setBit (by decide), Masked.bit_setBit (by decide), Masked.bit_setBit (by decide),
    Masked.bit_setBit (by decide), Masked.bit_dontCare]

theorem bit_addDecoded (row : Masked .u16) (r : Decoded) (i : Nat) : (addDecoded row r).bit i =
    if swapBit = i then some r.changed
    else if controlBit = i then some r.symbol.control
    else if i < 8 then some (r.symbol.value.getLsbD i)
    else row.bit i := by
  have hfit : 0 + 8 ≤ IntFormat.width .u16 := by decide
  have hvalue := Masked.bit_setField (m := row) hfit (r.symbol.value.setWidth 16) i
  unfold addDecoded
  rw [Masked.bit_setBit (by decide), Masked.bit_setBit (by decide), hvalue]
  simp only [Nat.zero_le, true_and, Nat.zero_add, Nat.sub_zero]
  by_cases hi : i < 8
  · have hwide : (r.symbol.value.setWidth 16).getLsbD i = r.symbol.value.getLsbD i := by
      rw [BitVec.getLsbD_setWidth, decide_eq_true (show i < 16 by omega), Bool.true_and]
    rw [if_pos hi, if_pos hi, ← hwide]
    rfl
  · rw [if_neg hi, if_neg hi]

theorem decodeRow_eq (c : Codec) (w : Codeword) :
    decodeRow c w = (c.held w).elim (errorRow c w) (addDecoded (errorRow c w)) := by
  unfold decodeRow Codec.held
  cases c.decode w .positive <;> cases c.decode w .negative <;> rfl

theorem row_decodeTable (c : Codec) (w : Codeword) :
    c.decodeTable.rows.get w.index = decodeRow c w := by
  have hget : ∀ (f : Fin 1024 → Masked .u16) (a : Fin 1024), (Vector.ofFn f).get a = f a :=
    fun f a => Vector.getElem_ofFn a.isLt
  exact hget _ w.index

/-- What a row says of errors does not depend on what its word stands for. -/
theorem bit_decodeRow_of_le {i : Nat} (h₉ : 9 ≤ i) (h₁₂ : i ≤ 12) :
    (decodeRow c w).bit i = (errorRow c w).bit i := by
  rw [decodeRow_eq]
  cases c.held w with
  | none => rfl
  | some r =>
    rw [Option.elim_some, bit_addDecoded, if_neg (by unfold swapBit; omega),
      if_neg (by unfold controlBit; omega), if_neg (by omega)]

theorem bit_decodeRow_errorBit (c : Codec) (w : Codeword) (d : Disparity) :
    (decodeRow c w).bit (errorBit d) = some (!c.isValid w d) := by
  have hbit : 9 ≤ errorBit d ∧ errorBit d ≤ 12 := by cases d <;> decide
  rw [bit_decodeRow_of_le hbit.1 hbit.2, bit_errorRow]
  cases d <;> rfl

theorem bit_decodeRow_disparityErrorBit (c : Codec) (w : Codeword) (d : Disparity) :
    (decodeRow c w).bit (disparityErrorBit d) = some (Detector.strict.flags d w) := by
  have hbit : 9 ≤ disparityErrorBit d ∧ disparityErrorBit d ≤ 12 := by cases d <;> decide
  rw [bit_decodeRow_of_le hbit.1 hbit.2, bit_errorRow]
  cases d <;> rfl

theorem bit_decodeRow_of_held {r : Decoded} (h : c.held w = some r) (i : Nat) :
    (decodeRow c w).bit i = (addDecoded (errorRow c w) r).bit i := by
  rw [decodeRow_eq, h, Option.elim_some]

theorem mask_errorRow (c : Codec) (w : Codeword) : (errorRow c w).mask = 0x1E00 := by
  refine Masked.mask_eq (p := fun i => 9 ≤ i ∧ i ≤ 12) (by decide) fun i _ => ?_
  rw [bit_errorRow]
  simp only [errorBit, disparityErrorBit]
  grind

/-- The row of a word that stands for something is specified in all its outputs. -/
theorem mask_decodeRow_of_held {r : Decoded} (h : c.held w = some r) :
    (decodeRow c w).mask = 0x3FFF := by
  refine Masked.mask_eq (p := fun i => i < 14) (by decide) fun i _ => ?_
  rw [bit_decodeRow_of_held h, bit_addDecoded, bit_errorRow]
  simp only [swapBit, controlBit, errorBit, disparityErrorBit]
  grind

/-- The row of a word that stands for nothing is specified in its error bits alone. -/
theorem mask_decodeRow_of_not_held (h : c.held w = none) : (decodeRow c w).mask = 0x1E00 := by
  rw [decodeRow_eq, h]
  exact mask_errorRow c w

/-! ### What a row says -/

/-- A row has the octet of the decoding that it holds in bits 0 to 7, -/
theorem bit_decodeRow_of_lt {r : Decoded} (h : c.held w = some r) {i : Nat} (hi : i < 8) :
    (decodeRow c w).bit i = some (r.symbol.value.getLsbD i) := by
  rw [bit_decodeRow_of_held h, bit_addDecoded, if_neg (by unfold swapBit; omega),
    if_neg (by unfold controlBit; omega), if_pos hi]

/-- and its control flag in bit 8. -/
theorem bit_decodeRow_controlBit {r : Decoded} (h : c.held w = some r) :
    (decodeRow c w).bit controlBit = some r.symbol.control := by
  rw [bit_decodeRow_of_held h, bit_addDecoded]
  rfl

/-- Whether a word changes the disparity is the same for every disparity that it may follow. -/
theorem bit_decodeRow_swapBit {r : Decoded} (h : c.decode w d = .ok r) :
    (decodeRow c w).bit swapBit = some r.changed := by
  obtain ⟨r', hr', e, h'⟩ := Codec.exists_held h
  rw [bit_decodeRow_of_held hr', bit_addDecoded, if_pos rfl, Codec.changed_eq_of_decode h h']

/-- A row names the symbol of the decoding that it holds. -/
theorem rowSymbol?_decodeRow {r : Decoded} (h : c.held w = some r) :
    rowSymbol? (decodeRow c w) = some r.symbol := by
  have hwide : ∀ i, (r.symbol.value.setWidth 16).getLsbD i =
      (decide (i < 16) && r.symbol.value.getLsbD i) := fun i => BitVec.getLsbD_setWidth ..
  have hfield : (decodeRow c w).field? 0 8 = some (r.symbol.value.setWidth 16) := by
    refine Masked.field?_eq_some_iff.2 ⟨fun i hi => ?_, fun i hi => ?_⟩
    · rw [Nat.zero_add, bit_decodeRow_of_lt h hi]
      refine congrArg some ((hwide i).trans ?_).symm
      rw [decide_eq_true (by omega), Bool.true_and]
    · refine (hwide i).trans ?_
      rw [BitVec.getLsbD_of_ge _ _ hi, Bool.and_false]
  unfold rowSymbol?
  rw [hfield, bit_decodeRow_controlBit h]
  have hvalue : (r.symbol.value.setWidth 16).setWidth 8 = r.symbol.value := by simp
  exact congrArg (fun v => some (Symbol.mk v r.symbol.control)) hvalue

/-- A row has the right exit for every disparity that its word may follow. -/
theorem rowExit?_decodeRow {r : Decoded} (h : c.decode w d = .ok r) :
    rowExit? (decodeRow c w) d = some r.rd := by
  unfold rowExit?
  rw [bit_decodeRow_swapBit h, Option.map_some, Codec.exit_of_decode h]

end LineCode
