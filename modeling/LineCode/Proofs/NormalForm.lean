import LineCode.Proofs.MaskedShifts

/-!
# Masked words in normal form

A masked word is in normal form when its value has no bit outside its mask. Words start in
normal form and every change that is not refused keeps it, so the words that can be built are
those in normal form (`Masked.built_iff_normal`). Such a word accepts the candidates that have
its specified bits (`Masked.Normal.accepts_iff`), and it is known by them: where two words
differ, there is a candidate that one of them accepts and the other does not
(`Masked.Normal.eq_of_accepts`). A word that is not in normal form accepts nothing.
-/

namespace LineCode.Masked

variable {F : IntFormat} {m m' : Masked F} {c value mask field : F.Word}
variable {i j limit offset width : Nat}

/-! ### Normal form -/

/-- No bit of the value is outside the mask. -/
def Normal (m : Masked F) : Prop := ∀ j, m.value.getLsbD j = true → m.mask.getLsbD j = true

theorem normal_ofMask (value mask : F.Word) : (ofMask value mask).Normal := by
  intro j hj
  rw [ofMask, BitVec.getLsbD_and, Bool.and_eq_true] at hj
  exact hj.2

theorem normal_dontCare : (dontCare : Masked F).Normal := by
  intro j hj
  simp [dontCare] at hj

/-- Clearing a bit's value with its mask bit, or setting the mask bit, leaves nothing outside. -/
theorem Normal.setBit (h : m.Normal) (hi : i < F.width) (b : Option Bool) :
    (m.setBit i b).Normal := by
  intro j hj
  cases b with
  | none =>
    simp only [Masked.setBit, BitVec.getLsbD_and, Bool.and_eq_true] at hj ⊢
    exact ⟨h j hj.1, hj.2⟩
  | some b =>
    rw [getLsbD_value_setBit hi] at hj
    rw [getLsbD_mask_setBit hi]
    split
    · rfl
    · rename_i hij
      rw [if_neg hij] at hj
      exact h j hj

/-- The bits of a field that is written are all specified. -/
theorem Normal.written (h : m.Normal) (hm' : m.Written offset width field m') : m'.Normal := by
  intro j hj
  rw [hm'.value] at hj
  rw [hm'.mask]
  split
  · rfl
  · rename_i hout
    rw [if_neg hout] at hj
    exact h j hj

/-- In normal form there is nothing but the specified bits. -/
theorem Normal.eq_of_bit (h : m.Normal) (h' : m'.Normal) (hbit : ∀ j, m.bit j = m'.bit j) :
    m = m' := by
  have hvalue : ∀ {n : Masked F}, n.Normal → ∀ j,
      n.value.getLsbD j = true ↔ n.bit j = some true := by
    intro n hn j
    rw [bit_eq_some_iff]
    exact ⟨fun hj => ⟨hn j hj, hj⟩, fun hj => hj.2⟩
  refine eq_of_getLsbD_eq (fun j => ?_) fun j => ?_
  · rw [Bool.eq_iff_iff, hvalue h, hvalue h', hbit]
  · rw [getLsbD_mask, getLsbD_mask, hbit]

/-! ### Building -/

/-- The masked words that can be built: from a value, with or without a mask, or from nothing, by
changes of bits and fields that are not refused. -/
inductive Built : Masked F → Prop
  | ofMask (value mask : F.Word) : Built (ofMask value mask)
  | exact (value : F.Word) : Built (exact value)
  | dontCare : Built dontCare
  | withBit {m m' : Masked F} {i : Nat} {b : Option Bool} (built : Built m)
      (changed : m.withBit? i b = some m') : Built m'
  | withField {m m' : Masked F} {offset width : Nat} {field : F.Word} (built : Built m)
      (changed : m.withField? offset width field = some m') : Built m'

theorem Built.normal (h : Built m) : m.Normal := by
  induction h with
  | ofMask value mask => exact normal_ofMask value mask
  | exact value => exact normal_ofMask value _
  | dontCare => exact normal_dontCare
  | withBit _ changed ih =>
    obtain ⟨hi, rfl⟩ := withBit?_eq_some_iff.1 changed
    exact ih.setBit hi _
  | withField _ changed ih => exact ih.written (withField?_eq_some_iff.1 changed).2

/-- A word in normal form is built from its own value and mask. -/
theorem built_iff_normal : Built m ↔ m.Normal := by
  refine ⟨Built.normal, fun h => ?_⟩
  have hm : ofMask m.value m.mask = m :=
    (normal_ofMask m.value m.mask).eq_of_bit h fun j => bit_ofMask m.value m.mask j
  exact hm ▸ .ofMask m.value m.mask

/-- The machine builds nothing else by its shifts. -/
theorem Built.withBitByShift {b : Option Bool} (h : Built m)
    (hm' : m.withBitByShift i b = .ok m') : Built m' := by
  by_cases hi : i < F.width
  · rw [withBitByShift_of_lt hi, Except.ok.injEq] at hm'
    exact h.withBit (withBit?_eq_some_iff.2 ⟨hi, hm'⟩)
  · rw [Masked.withBitByShift, if_pos (Nat.le_of_not_lt hi)] at hm'
    cases hm'

theorem Built.withFieldByShifts (hlimit : F.width ≤ limit) (h : Built m)
    (hm' : m.withFieldByShifts limit offset width field = .ok m') : Built m' := by
  have changed : m.withField? offset width field = some m' := by
    rw [← toOption_withFieldByShifts hlimit, hm']
    rfl
  exact h.withField changed

/-! ### Candidates -/

theorem accepts_iff_getLsbD : m.accepts c = true ↔
    ∀ j, (c.getLsbD j && m.mask.getLsbD j) = m.value.getLsbD j := by
  rw [accepts, beq_iff_eq]
  constructor
  · intro h j
    rw [← h, BitVec.getLsbD_and]
  · intro h
    exact BitVec.eq_of_getLsbD_eq fun j _ => by rw [BitVec.getLsbD_and, h]

/-- A candidate that is accepted has every specified bit. -/
theorem getLsbD_of_accepts {b : Bool} (h : m.accepts c = true) (hj : m.bit j = some b) :
    c.getLsbD j = b := by
  obtain ⟨hmask, hvalue⟩ := bit_eq_some_iff.1 hj
  have hc := accepts_iff_getLsbD.1 h j
  rw [hmask, Bool.and_true] at hc
  exact hc.trans hvalue

/-- In normal form, a candidate that has every specified bit is accepted. -/
theorem Normal.accepts_iff (h : m.Normal) :
    m.accepts c = true ↔ ∀ j b, m.bit j = some b → c.getLsbD j = b := by
  refine ⟨fun hc _ _ => getLsbD_of_accepts hc, fun hc => accepts_iff_getLsbD.2 fun j => ?_⟩
  cases hmask : m.mask.getLsbD j with
  | true => rw [Bool.and_true, hc j _ (bit_eq_some_iff.2 ⟨hmask, rfl⟩)]
  | false =>
    have hvalue : m.value.getLsbD j = false := by
      refine Bool.eq_false_iff.2 fun hj => ?_
      rw [h j hj] at hmask
      cases hmask
    rw [Bool.and_false, hvalue]

theorem Normal.accepts_value (h : m.Normal) : m.accepts m.value = true :=
  h.accepts_iff.2 fun _ _ hj => (bit_eq_some_iff.1 hj).2

/-- No candidate, when it is masked, has a bit outside the mask. -/
theorem accepts_eq_false (hvalue : m.value.getLsbD j = true) (hmask : m.mask.getLsbD j = false)
    (c : F.Word) : m.accepts c = false := by
  refine Bool.eq_false_iff.2 fun h => ?_
  have hj := accepts_iff_getLsbD.1 h j
  rw [hvalue, hmask, Bool.and_false] at hj
  cases hj

/-! ### Equality -/

/-- A bit that is not specified can be changed in a candidate. -/
theorem Normal.accepts_xor_probe (h : m.Normal) (hc : m.accepts c = true) (hj : m.bit j = none) :
    m.accepts (c ^^^ F.probe j) = true := by
  rw [h.accepts_iff]
  intro i b hi
  have hij : j ≠ i := by
    rintro rfl
    rw [hj] at hi
    cases hi
  rw [BitVec.getLsbD_xor, IntFormat.getLsbD_probe, decide_eq_false hij, Bool.and_false,
    Bool.xor_false, getLsbD_of_accepts hc hi]

/-- A bit that is specified is specified by every word that accepts fewer candidates: else one of
two candidates with different bits there would be accepted that should not be. -/
theorem Normal.bit_of_accepts {b : Bool} (h : m.Normal)
    (haccepts : ∀ c, m.accepts c = true → m'.accepts c = true) (hj : m'.bit j = some b) :
    m.bit j = some b := by
  have hvalue : m.value.getLsbD j = b := getLsbD_of_accepts (haccepts _ h.accepts_value) hj
  cases hnone : m.bit j with
  | none =>
    have hother := getLsbD_of_accepts
      (haccepts _ (h.accepts_xor_probe h.accepts_value hnone)) hj
    rw [BitVec.getLsbD_xor, IntFormat.getLsbD_probe, decide_eq_true (lt_width_of_bit hj), hvalue]
      at hother
    simp at hother
  | some b' => rw [← hvalue, (bit_eq_some_iff.1 hnone).2]

/-- Words in normal form that accept the same candidates have the same specified bits. -/
theorem Normal.eq_of_accepts (h : m.Normal) (h' : m'.Normal)
    (haccepts : ∀ c, m.accepts c = m'.accepts c) : m = m' := by
  refine h.eq_of_bit h' fun j => Option.ext fun b => ⟨fun hj => ?_, fun hj => ?_⟩
  · exact h'.bit_of_accepts (fun c hc => by rw [haccepts, hc]) hj
  · exact h.bit_of_accepts (fun c hc => by rw [← haccepts, hc]) hj

/-! ### The laws -/

/-- What is so of a masked word that has been built. -/
structure NormalLaws (m : Masked F) : Prop where
  /-- No bit of its value is outside its mask. -/
  normal : ∀ j, m.value.getLsbD j = true → m.mask.getLsbD j = true
  /-- It accepts the candidates that have its specified bits, -/
  accepts_iff : ∀ c, m.accepts c = true ↔ ∀ j b, m.bit j = some b → c.getLsbD j = b
  /-- its own value among them. -/
  accepts_value : m.accepts m.value = true
  /-- It is known by its specified bits, -/
  eq_iff_bit : ∀ m', Built m' → (m = m' ↔ ∀ j, m.bit j = m'.bit j)
  /-- and by the candidates that it accepts. -/
  eq_iff_accepts : ∀ m', Built m' → (m = m' ↔ ∀ c, m.accepts c = m'.accepts c)
  /-- What the machine makes of it by its shifts is built, too. -/
  withBitByShift : ∀ i b m', m.withBitByShift i b = .ok m' → Built m'
  withFieldByShifts : ∀ limit, F.width ≤ limit → ∀ offset width field m',
    m.withFieldByShifts limit offset width field = .ok m' → Built m'

/-- **Normal form**: whatever format a masked word has and however it has been built, it is in
normal form, accepts the candidates that have its specified bits, and is known by them. A word that
is stored with a value bit outside its mask accepts nothing. -/
theorem normalLaws (F : IntFormat) : (∀ m : Masked F, Built m → NormalLaws m) ∧
    ∀ (value mask : F.Word) (j : Nat), value.getLsbD j = true → mask.getLsbD j = false →
      ∀ c, (ofParts value mask).accepts c = false := by
  refine ⟨fun m h => ?_, fun value mask j hvalue hmask => accepts_eq_false hvalue hmask⟩
  exact {
    normal := h.normal
    accepts_iff := fun c => h.normal.accepts_iff
    accepts_value := h.normal.accepts_value
    eq_iff_bit := fun m' h' => ⟨fun heq j => heq ▸ rfl, h.normal.eq_of_bit h'.normal⟩
    eq_iff_accepts := fun m' h' => ⟨fun heq c => heq ▸ rfl, h.normal.eq_of_accepts h'.normal⟩
    withBitByShift := fun _ _ _ => h.withBitByShift
    withFieldByShifts := fun _ hlimit _ _ _ _ => h.withFieldByShifts hlimit }

/-- A field is written up to the sign bit, the sign bit is cleared, and a bit is overwritten. -/
theorem normalLaws_signed : Built (ofParts 0x11 0x71 : Masked .i8) ∧
    NormalLaws (ofParts 0x11 0x71 : Masked .i8) ∧
      ∀ c, (ofParts 0x80 0x71 : Masked .i8).accepts c = false := by
  have hfield : (dontCare : Masked .i8).withField? 4 4 0xF8 = some (ofParts 0x80 0xF0) := by decide
  have hclear : (ofParts 0x80 0xF0 : Masked .i8).withBit? 7 none = some (ofParts 0x00 0x70) := by
    decide
  have hset : (ofParts 0x00 0x70 : Masked .i8).withField? 0 1 0x01 = some (ofParts 0x01 0x71) := by
    decide
  have hover : (ofParts 0x01 0x71 : Masked .i8).withBit? 4 (some true) =
      some (ofParts 0x11 0x71) := by decide
  have hbuilt := (((Built.dontCare.withField hfield).withBit hclear).withField hset).withBit hover
  exact ⟨hbuilt, (normalLaws .i8).1 _ hbuilt, (normalLaws .i8).2 0x80 0x71 7 (by decide) (by decide)⟩

end LineCode.Masked
