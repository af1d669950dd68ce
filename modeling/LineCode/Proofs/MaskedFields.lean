import LineCode.Masked

/-!
# Fields of masked words

A field is a run of bits of a masked word. A field that fits is written by specifying its
bits one by one, and every other bit stays as it is (`Masked.bit_setField`). It is read
when all its bits are specified, as the word with these bits at its low end
(`Masked.field?_eq_some_iff`); a single don't-care bit in it leaves nothing to read
(`Masked.field?_eq_none_of_bit`).
-/

namespace LineCode.Masked

variable {F : IntFormat} {m : Masked F} {offset i count : Nat} {v : F.Word}

/-! ### Masks -/

theorem getLsbD_mask (m : Masked F) (i : Nat) : m.mask.getLsbD i = (m.bit i).isSome := by
  unfold bit
  split <;> simp_all

/-- A mask is known by which bits are specified. -/
theorem mask_eq {p : Nat → Bool} (hv : ∀ i < F.width, v.getLsbD i = p i)
    (hm : ∀ i < F.width, (m.bit i).isSome = p i) : m.mask = v :=
  BitVec.eq_of_getLsbD_eq fun i hi => by rw [getLsbD_mask, hm i hi, hv i hi]

theorem lt_width_of_bit {b : Bool} (h : m.bit i = some b) : i < F.width := by
  refine Nat.lt_of_not_le fun hi => ?_
  rw [bit_of_width_le hi] at h
  cases h

/-! ### Writing -/

/-- Words are the same when their values and their masks are, bit by bit. -/
theorem eq_of_getLsbD_eq {m' : Masked F} (hvalue : ∀ j, m.value.getLsbD j = m'.value.getLsbD j)
    (hmask : ∀ j, m.mask.getLsbD j = m'.mask.getLsbD j) : m = m' := by
  obtain ⟨value, mask⟩ := m
  obtain ⟨value', mask'⟩ := m'
  rw [mk.injEq]
  exact ⟨BitVec.eq_of_getLsbD_eq fun j _ => hvalue j, BitVec.eq_of_getLsbD_eq fun j _ => hmask j⟩

/-- The word `m'` has the bits of a field from `offset` on, and outside of it value and mask of
`m`. -/
structure Written (m : Masked F) (offset width : Nat) (field : F.Word) (m' : Masked F) : Prop where
  value : ∀ j, m'.value.getLsbD j =
    if offset ≤ j ∧ j < offset + width then field.getLsbD (j - offset) else m.value.getLsbD j
  mask : ∀ j, m'.mask.getLsbD j =
    if offset ≤ j ∧ j < offset + width then true else m.mask.getLsbD j

theorem Written.bit {width : Nat} {field : F.Word} {m' : Masked F}
    (h : m.Written offset width field m') (j : Nat) : m'.bit j =
      if offset ≤ j ∧ j < offset + width then some (field.getLsbD (j - offset)) else m.bit j := by
  unfold Masked.bit
  rw [h.value, h.mask]
  split <;> rfl

theorem getLsbD_value_setBit (h : i < F.width) (b : Bool) (j : Nat) :
    (m.setBit i (some b)).value.getLsbD j = if i = j then b else m.value.getLsbD j := by
  by_cases hij : i = j
  · subst hij
    cases b <;> simp only [setBit, BitVec.getLsbD_and, BitVec.getLsbD_or, BitVec.getLsbD_not,
      IntFormat.getLsbD_probe] <;> simp [h]
  · cases b <;> simp only [setBit, BitVec.getLsbD_and, BitVec.getLsbD_or, BitVec.getLsbD_not,
      IntFormat.getLsbD_probe] <;> simp [h, hij]
    exact BitVec.lt_of_getLsbD

theorem getLsbD_mask_setBit (h : i < F.width) (b : Bool) (j : Nat) :
    (m.setBit i (some b)).mask.getLsbD j = if i = j then true else m.mask.getLsbD j := by
  have hor : (m.setBit i (some b)).mask = m.mask ||| F.probe i := by cases b <;> rfl
  rw [hor, BitVec.getLsbD_or, IntFormat.getLsbD_probe]
  by_cases hij : i = j
  · subst hij
    simp [h]
  · simp [h, hij]

/-- Bits that fit are written, and nothing else changes. -/
theorem exists_writeBits? (m : Masked F) (field : F.Word)
    (h : count = 0 ∨ offset + i + count ≤ F.width) :
    ∃ m', writeBits? offset field i count m = some m' ∧ ∀ j,
      (m'.value.getLsbD j = if offset + i ≤ j ∧ j < offset + i + count then
        field.getLsbD (j - offset) else m.value.getLsbD j) ∧
      m'.mask.getLsbD j = if offset + i ≤ j ∧ j < offset + i + count then true
        else m.mask.getLsbD j := by
  induction count generalizing i m with
  | zero => exact ⟨m, rfl, fun j => ⟨(if_neg (by omega)).symm, (if_neg (by omega)).symm⟩⟩
  | succ count ih =>
    have hi : offset + i < F.width := by omega
    have hfit : count = 0 ∨ offset + (i + 1) + count ≤ F.width := by omega
    obtain ⟨m', hm', hparts⟩ := ih (m.setBit (offset + i) (some (fieldBit field i))) hfit
    refine ⟨m', ?_, fun j => ?_⟩
    · rw [writeBits?, withBit?_eq_some_iff.2 ⟨hi, rfl⟩]
      exact hm'
    · obtain ⟨hvalue, hmask⟩ := hparts j
      rw [hvalue, hmask, getLsbD_value_setBit hi, getLsbD_mask_setBit hi, fieldBit_eq (by omega)]
      by_cases hj : offset + i = j
      · subst hj
        have hin : offset + i ≤ offset + i ∧ offset + i < offset + i + (count + 1) := by omega
        have hout : ¬ (offset + (i + 1) ≤ offset + i ∧ offset + i < offset + (i + 1) + count) := by
          omega
        rw [if_neg hout, if_neg hout, if_pos rfl, if_pos rfl, if_pos hin, if_pos hin,
          Nat.add_sub_cancel_left]
        exact ⟨rfl, rfl⟩
      · have hrange : (offset + (i + 1) ≤ j ∧ j < offset + (i + 1) + count) ↔
            offset + i ≤ j ∧ j < offset + i + (count + 1) := by omega
        simp only [if_neg hj, hrange, and_self]

/-- Bits that do not fit are refused. -/
theorem writeBits?_eq_none (m : Masked F) (field : F.Word) (hpos : 0 < count)
    (h : F.width < offset + i + count) : writeBits? offset field i count m = none := by
  induction count generalizing i m with
  | zero => cases hpos
  | succ count ih =>
    rw [writeBits?, withBit?]
    split
    · exact ih _ (by omega) (by omega)
    · rfl

/-- A field that fits is written. -/
theorem exists_withField? {width : Nat} (h : width = 0 ∨ offset + width ≤ F.width)
    (field : F.Word) :
    ∃ m', m.withField? offset width field = some m' ∧ m.Written offset width field m' := by
  obtain ⟨m', hm', hparts⟩ := exists_writeBits? (i := 0) m field h
  exact ⟨m', hm', fun j => (hparts j).1, fun j => (hparts j).2⟩

/-- A field that does not fit is refused. -/
theorem withField?_eq_none {width : Nat} (hpos : 0 < width) (h : F.width < offset + width)
    (field : F.Word) : m.withField? offset width field = none :=
  writeBits?_eq_none m field hpos h

/-- What is written is the one word that is `Written`. -/
theorem withField?_eq_some_iff {width : Nat} {field : F.Word} {m' : Masked F} :
    m.withField? offset width field = some m' ↔
      (width = 0 ∨ offset + width ≤ F.width) ∧ m.Written offset width field m' := by
  by_cases hfit : width = 0 ∨ offset + width ≤ F.width
  · obtain ⟨m'', hm'', hwritten⟩ := exists_withField? (m := m) hfit field
    rw [hm'', Option.some_inj, and_iff_right hfit]
    constructor
    · rintro rfl
      exact hwritten
    · intro h
      exact eq_of_getLsbD_eq (fun j => by rw [hwritten.value, h.value])
        fun j => by rw [hwritten.mask, h.mask]
  · rw [withField?_eq_none (by omega) (by omega)]
    exact iff_of_false (by simp) fun h => hfit h.1

/-- A field that fits is written, and no other bit changes. -/
theorem bit_setField {width : Nat} (h : offset + width ≤ F.width) (field : F.Word) (j : Nat) :
    (m.setField offset width field).bit j =
      if offset ≤ j ∧ j < offset + width then some (field.getLsbD (j - offset)) else m.bit j := by
  obtain ⟨m', hm', hwritten⟩ := exists_withField? (m := m) (.inr h) field
  rw [setField, hm', Option.getD_some, hwritten.bit]

/-! ### Reading -/

/-- Bits are read when all of them are specified, and added to what has been read. -/
theorem readBits?_eq_some_iff {acc : F.Word} : m.readBits? offset i count acc = some v ↔
    (∀ k, i ≤ k → k < i + count → (m.bit (offset + k)).isSome) ∧
      ∀ j, v.getLsbD j = true ↔
        acc.getLsbD j = true ∨ i ≤ j ∧ j < i + count ∧ m.bit (offset + j) = some true := by
  induction count generalizing i acc with
  | zero =>
    have hrange : ∀ j, ¬(i ≤ j ∧ j < i + 0 ∧ m.bit (offset + j) = some true) := by omega
    rw [readBits?, Option.some_inj]
    simp only [hrange, or_false]
    constructor
    · rintro rfl
      exact ⟨fun k _ _ => by omega, fun j => Iff.rfl⟩
    · rintro ⟨-, h⟩
      exact BitVec.eq_of_getLsbD_eq fun j _ => Bool.eq_iff_iff.2 (h j).symm
  | succ count ih =>
    rw [readBits?]
    cases hb : m.bit (offset + i) with
    | none =>
      refine iff_of_false (by simp) fun h => ?_
      have hi := h.1 i (Nat.le_refl i) (by omega)
      rw [hb] at hi
      cases hi
    | some b =>
      have hi : i < F.width := by
        have := lt_width_of_bit hb
        omega
      have hacc : ∀ j, (if b then acc ||| F.probe i else acc).getLsbD j = true ↔
          acc.getLsbD j = true ∨ i = j ∧ b = true := by
        intro j
        cases b <;> simp [hi]
      rw [Option.bind_some, ih]
      refine and_congr ⟨fun h k hk hlt => ?_, fun h k hk hlt => h k (by omega) (by omega)⟩
        (forall_congr' fun j => iff_congr Iff.rfl ?_)
      -- The first bit is specified, as `b`; the others are those that remain to be read.
      · by_cases hik : i = k
        · rw [← hik, hb]
          rfl
        · exact h k (by omega) (by omega)
      · rw [hacc, or_assoc]
        refine or_congr Iff.rfl ?_
        by_cases hij : i = j
        · subst hij
          simp [hb]
        · constructor
          · rintro (⟨h, -⟩ | ⟨hle, hlt, hbit⟩)
            · exact absurd h hij
            · exact ⟨by omega, by omega, hbit⟩
          · rintro ⟨hle, hlt, hbit⟩
            exact .inr ⟨by omega, by omega, hbit⟩

/-- A field is read when all its bits are specified, and then as these bits alone. -/
theorem field?_eq_some_iff {width : Nat} : m.field? offset width = some v ↔
    (∀ k < width, m.bit (offset + k) = some (v.getLsbD k)) ∧
      ∀ k, width ≤ k → v.getLsbD k = false := by
  have hzero : ∀ k, (0 : F.Word).getLsbD k = false := by simp
  unfold field?
  rw [readBits?_eq_some_iff]
  simp only [Nat.zero_add, hzero, Bool.false_eq_true, false_or]
  constructor
  · rintro ⟨hsome, hbits⟩
    refine ⟨fun k hk => ?_, fun k hk => Bool.eq_false_iff.2 fun h => ?_⟩
    · obtain ⟨b, hb⟩ := Option.isSome_iff_exists.1 (hsome k (Nat.zero_le k) hk)
      have hv : v.getLsbD k = b := by
        rw [Bool.eq_iff_iff, hbits, hb]
        simp [hk]
      rw [hb, hv]
    · have := (hbits k).1 h
      omega
  · rintro ⟨hlow, hhigh⟩
    refine ⟨fun k _ hk => by rw [hlow k hk]; rfl, fun k => ⟨fun h => ?_, fun h => ?_⟩⟩
    · have hk : k < width := by
        refine Nat.lt_of_not_le fun hk => ?_
        rw [hhigh k hk] at h
        cases h
      exact ⟨Nat.zero_le k, hk, by rw [hlow k hk, h]⟩
    · obtain ⟨-, hk, hbit⟩ := h
      rw [hlow k hk] at hbit
      exact Option.some.inj hbit

/-- Fields are read the same where their bits are the same. -/
theorem field?_congr {m' : Masked F} {width : Nat}
    (h : ∀ k < width, m.bit (offset + k) = m'.bit (offset + k)) :
    m.field? offset width = m'.field? offset width := by
  ext v
  rw [field?_eq_some_iff, field?_eq_some_iff]
  refine and_congr_left fun _ => forall_congr' fun k => ?_
  exact imp_congr_right fun hk => by rw [h k hk]

/-- A field with a don't-care bit cannot be read. -/
theorem field?_eq_none_of_bit {width k : Nat} (hk : k < width) (h : m.bit (offset + k) = none) :
    m.field? offset width = none := by
  rw [Option.eq_none_iff_forall_ne_some]
  intro v hv
  rw [(field?_eq_some_iff.1 hv).1 k hk] at h
  cases h

end LineCode.Masked
