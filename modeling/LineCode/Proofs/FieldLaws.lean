import LineCode.Proofs.MaskedShifts

/-!
# The laws of fields

A field that is written is read back, cut to its width; the fields apart from it stay as they
are, and the order in which two of them are written does not matter. A field that is read can be
written back, and the word is as before. None of this asks anything of the word: its value may
have bits outside its mask, and its format may be signed.
-/

namespace LineCode.Masked

variable {F : IntFormat} {m m₁ m₂ m' : Masked F} {offset width offset' width' : Nat}
variable {field field' v : F.Word}

/-! ### Fields apart -/

/-- The fields have no bit in common. -/
def Apart (offset width offset' width' : Nat) : Prop :=
  ∀ j, offset ≤ j ∧ j < offset + width → ¬(offset' ≤ j ∧ j < offset' + width')

theorem Apart.symm (h : Apart offset width offset' width') : Apart offset' width' offset width :=
  fun j hj' hj => h j hj hj'

/-- A field apart from the one that is written is read as before. -/
theorem Written.field?_eq (h : m.Written offset width field m')
    (hapart : Apart offset width offset' width') :
    m'.field? offset' width' = m.field? offset' width' := by
  refine field?_congr fun k hk => ?_
  rw [h.bit, if_neg fun hj => hapart _ hj ⟨Nat.le_add_right _ _, by omega⟩]

/-- Fields apart can be written in the other order. -/
theorem Written.swap (hapart : Apart offset width offset' width')
    (h₁ : m.Written offset width field m₁) (h : m₁.Written offset' width' field' m')
    (h₂ : m.Written offset' width' field' m₂) : m₂.Written offset width field m' where
  value := by
    intro j
    rw [h.value, h₁.value, h₂.value]
    by_cases hj : offset ≤ j ∧ j < offset + width
    · rw [if_neg (hapart j hj), if_pos hj, if_pos hj]
    · rw [if_neg hj, if_neg hj]
  mask := by
    intro j
    rw [h.mask, h₁.mask, h₂.mask]
    by_cases hj : offset ≤ j ∧ j < offset + width
    · rw [if_neg (hapart j hj), if_pos hj, if_pos hj]
    · rw [if_neg hj, if_neg hj]

theorem withField?_bind_imp (hapart : Apart offset width offset' width')
    (h : (m.withField? offset width field).bind (·.withField? offset' width' field') = some m') :
    (m.withField? offset' width' field').bind (·.withField? offset width field) = some m' := by
  obtain ⟨m₁, hm₁, hm'⟩ := Option.bind_eq_some_iff.1 h
  obtain ⟨hfit, hwritten⟩ := withField?_eq_some_iff.1 hm₁
  obtain ⟨hfit', hwritten'⟩ := withField?_eq_some_iff.1 hm'
  obtain ⟨m₂, hm₂, hwritten₂⟩ := exists_withField? (m := m) hfit' field'
  rw [hm₂, Option.bind_some, withField?_eq_some_iff]
  exact ⟨hfit, hwritten.swap hapart hwritten' hwritten₂⟩

/-- It does not matter in which order fields apart are written, nor which one is refused. -/
theorem withField?_comm (hapart : Apart offset width offset' width') (m : Masked F)
    (field field' : F.Word) :
    (m.withField? offset width field).bind (·.withField? offset' width' field') =
      (m.withField? offset' width' field').bind (·.withField? offset width field) :=
  Option.ext fun _ => ⟨withField?_bind_imp hapart, withField?_bind_imp hapart.symm⟩

/-! ### Reading back -/

/-- A field is read back as it has been written, cut to its width. -/
theorem Written.field?_self (h : m.Written offset width field m')
    (hfit : width = 0 ∨ offset + width ≤ F.width) :
    m'.field? offset width = some ((field.setWidth width).setWidth F.width) := by
  rw [field?_eq_some_iff]
  constructor
  · intro k hk
    have hlt : k < F.width := by omega
    rw [h.bit, if_pos ⟨Nat.le_add_right _ _, by omega⟩, Nat.add_sub_cancel_left]
    simp [hk, hlt]
  · intro k hk
    simp [Nat.not_lt.2 hk]

/-- The top bit of a signed word is a bit like the others, whatever the value is outside the
mask. -/
example : (ofParts 0x7F 0xF0 : Masked .i8).withField? 4 4 0xF8 = some (ofParts 0x8F 0xF0) ∧
    (ofParts 0x8F 0xF0 : Masked .i8).field? 4 4 = some 0x08 := by decide

/-- A field can be read when all its bits are below the width and specified. -/
theorem exists_field?_iff : (∃ v, m.field? offset width = some v) ↔
    ∀ k < width, offset + k < F.width ∧ (m.bit (offset + k)).isSome := by
  constructor
  · rintro ⟨v, hv⟩ k hk
    have hbit := (field?_eq_some_iff.1 hv).1 k hk
    rw [hbit]
    exact ⟨lt_width_of_bit hbit, rfl⟩
  · intro h
    refine ⟨((m.value >>> offset).setWidth width).setWidth F.width,
      field?_eq_some_iff.2 ⟨fun k hk => ?_, fun k hk => ?_⟩⟩
    · obtain ⟨hlt, hsome⟩ := h k hk
      have hk' : k < F.width := by omega
      rw [← getLsbD_mask] at hsome
      refine bit_eq_some_iff.2 ⟨hsome, ?_⟩
      simp [hk, hk']
    · simp [Nat.not_lt.2 hk]

/-- A field that has been read is written back without a change, in the word it is from. -/
theorem withField?_of_field? (h : m.field? offset width = some v) :
    m.withField? offset width v = some m := by
  obtain ⟨hbits, -⟩ := field?_eq_some_iff.1 h
  have hspecified : ∀ j, offset ≤ j ∧ j < offset + width →
      m.mask.getLsbD j = true ∧ m.value.getLsbD j = v.getLsbD (j - offset) := by
    rintro j ⟨hle, hlt⟩
    have hbit := hbits (j - offset) (by omega)
    rw [Nat.add_sub_cancel' hle] at hbit
    exact bit_eq_some_iff.1 hbit
  refine withField?_eq_some_iff.2 ⟨?_, fun j => ?_, fun j => ?_⟩
  · obtain rfl | hpos := Nat.eq_zero_or_pos width
    · exact .inl rfl
    · have hlast := lt_width_of_bit (hbits (width - 1) (by omega))
      exact .inr (by omega)
  · split
    · rename_i hj
      exact (hspecified j hj).2
    · rfl
  · split
    · rename_i hj
      exact (hspecified j hj).1
    · rfl

/-! ### The laws -/

/-- The laws of a field of `width` bits from `offset` on. -/
structure FieldLaws (m : Masked F) (offset width : Nat) (field : F.Word) : Prop where
  /-- A field that fits is written: it has its bits, and every other bit is as before. It is read
  back, cut to its width, and what is apart from it is read as before. -/
  written : width = 0 ∨ offset + width ≤ F.width → ∃ m',
    m.withField? offset width field = some m' ∧
    (∀ j, m'.bit j = if offset ≤ j ∧ j < offset + width then some (field.getLsbD (j - offset))
      else m.bit j) ∧
    m'.field? offset width = some ((field.setWidth width).setWidth F.width) ∧
    ∀ offset' width', Apart offset width offset' width' →
      m'.field? offset' width' = m.field? offset' width'
  /-- A field that does not fit is refused. -/
  refused : 0 < width → F.width < offset + width → m.withField? offset width field = none
  /-- Fields apart can be written in either order. -/
  comm : ∀ offset' width', Apart offset width offset' width' → ∀ field',
    (m.withField? offset width field).bind (·.withField? offset' width' field') =
      (m.withField? offset' width' field').bind (·.withField? offset width field)
  /-- A field is read when all its bits are below the width and specified, -/
  read_iff : (∃ v, m.field? offset width = some v) ↔
    ∀ k < width, offset + k < F.width ∧ (m.bit (offset + k)).isSome
  /-- and then as these bits, with zeros above. -/
  bits : ∀ v, m.field? offset width = some v →
    (∀ k < width, m.bit (offset + k) = some (v.getLsbD k)) ∧ ∀ k, width ≤ k → v.getLsbD k = false
  /-- What has been read is written back without a change. -/
  rewritten : ∀ v, m.field? offset width = some v → m.withField? offset width v = some m
  /-- No test of a bit, no reading and no test of the low bits comes to a shift by the width or to
  an index too large. -/
  untrapped : ∀ limit, F.width < limit → offset < limit →
    m.bitByShift offset = .ok (m.bit offset) ∧
    m.fieldByShifts limit offset width = .ok (m.field? offset width) ∧
    m.isSpecifiedByShifts width = .ok (m.isSpecified width)
  /-- A field is written by shifts when it is not refused. -/
  shifted : ∀ limit, F.width ≤ limit →
    (m.withFieldByShifts limit offset width field).toOption = m.withField? offset width field

/-- **Field laws**: every masked word of every format obeys the laws of fields, at every offset
and for every width. -/
theorem fieldLaws (m : Masked F) (offset width : Nat) (field : F.Word) :
    FieldLaws m offset width field where
  written := by
    intro hfit
    obtain ⟨m', hm', hwritten⟩ := exists_withField? (m := m) hfit field
    exact ⟨m', hm', hwritten.bit, hwritten.field?_self hfit, fun _ _ => hwritten.field?_eq⟩
  refused := fun hpos h => withField?_eq_none hpos h field
  comm := fun _ _ hapart field' => withField?_comm hapart m field field'
  read_iff := exists_field?_iff
  bits := fun _ => field?_eq_some_iff.1
  rewritten := fun _ => withField?_of_field?
  untrapped := fun _ hlimit h =>
    ⟨m.bitByShift_eq offset, fieldByShifts_eq hlimit h m width, m.isSpecifiedByShifts_eq width⟩
  shifted := fun _ hlimit => toOption_withFieldByShifts hlimit m offset width field

end LineCode.Masked
