import LineCode.Proofs.MaskedFields

/-!
# Masked words by shifts

A machine tests and sets the bits of a masked word by a one shifted into place, and takes a
field apart by shifting it down. It traps at a shift by the width or more, at a sum of indices
past the largest one, and at a bit written past the width. The operations below go through
these steps in their order.

Testing and reading never trap, at no offset and for no number of bits
(`Masked.bitByShift_eq`, `Masked.isSpecifiedByShifts_eq`, `Masked.fieldByShifts_eq`): they end
at the first bit past the width, before there is anything to trap at. Writing traps when the
field is refused (`Masked.toOption_withFieldByShifts`).
-/

namespace LineCode

/-- What stops the machine. -/
inductive Trap where
  /-- A shift by the width of the word or more. -/
  | shift
  /-- A sum of indices past the largest index. -/
  | index
  /-- A bit written past the width. -/
  | range
deriving DecidableEq

namespace IntFormat

variable (F : IntFormat) {i : Nat}

/-- A one, shifted up by `i` places. -/
def oneShiftedUp (i : Nat) : Except Trap F.Word :=
  if i < F.width then .ok ((1 : F.Word) <<< i) else .error .shift

/-- A word, shifted down by `i` places. -/
def shiftedDown (w : F.Word) (i : Nat) : Except Trap F.Word :=
  if i < F.width then .ok (F.shiftRight w i) else .error .shift

theorem oneShiftedUp_of_lt (h : i < F.width) : F.oneShiftedUp i = .ok (F.probe i) := by
  rw [oneShiftedUp, if_pos h, probe, BitVec.twoPow_eq, BitVec.ofNat_eq_ofNat]

theorem shiftedDown_of_lt (h : i < F.width) (w : F.Word) :
    F.shiftedDown w i = .ok (F.shiftRight w i) := if_pos h

end IntFormat

namespace Masked

variable {F : IntFormat} {m : Masked F} {limit offset i count : Nat}

/-! ### Operations -/

/-- The index `i` places above an offset, where the indices are those below `limit`. -/
def indexAt (limit offset i : Nat) : Except Trap Nat :=
  if offset + i < limit then .ok (offset + i) else .error .index

/-- `bit` by a shifted one. -/
def bitByShift (m : Masked F) (i : Nat) : Except Trap (Option Bool) :=
  if F.width ≤ i then .ok none
  else do
    let probe ← F.oneShiftedUp i
    return if m.mask &&& probe = 0 then none else some (m.value &&& probe != 0)

/-- `withBit?` by a shifted one. -/
def withBitByShift (m : Masked F) (i : Nat) (b : Option Bool) : Except Trap (Masked F) :=
  if F.width ≤ i then .error .range
  else do
    let probe ← F.oneShiftedUp i
    return match b with
      | none => ⟨m.value &&& ~~~probe, m.mask &&& ~~~probe⟩
      | some set => ⟨if set then m.value ||| probe else m.value &&& ~~~probe, m.mask ||| probe⟩

/-- `writeBits?` by shifts. -/
def writeByShifts (limit offset : Nat) (field : F.Word) :
    (i count : Nat) → Masked F → Except Trap (Masked F)
  | _, 0, m => .ok m
  | i, count + 1, m => do
    let index ← indexAt limit offset i
    let low ← F.shiftedDown field i
    let m ← m.withBitByShift index (some (low &&& 1 == 1))
    writeByShifts limit offset field (i + 1) count m

/-- `withField?` by shifts. -/
def withFieldByShifts (limit : Nat) (m : Masked F) (offset width : Nat) (field : F.Word) :
    Except Trap (Masked F) :=
  writeByShifts limit offset field 0 width m

/-- `isSpecifiedFrom` by shifts. -/
def isSpecifiedByShiftsFrom (m : Masked F) : (i count : Nat) → Except Trap Bool
  | _, 0 => .ok true
  | i, count + 1 => do
    match ← m.bitByShift i with
    | none => return false
    | some _ => m.isSpecifiedByShiftsFrom (i + 1) count

/-- `isSpecified` by shifts. -/
def isSpecifiedByShifts (m : Masked F) (width : Nat) : Except Trap Bool :=
  m.isSpecifiedByShiftsFrom 0 width

/-- `readBits?` by shifts. -/
def readByShifts (limit : Nat) (m : Masked F) (offset : Nat) :
    (i count : Nat) → F.Word → Except Trap (Option F.Word)
  | _, 0, acc => .ok (some acc)
  | i, count + 1, acc => do
    let index ← indexAt limit offset i
    match ← m.bitByShift index with
    | none => return none
    | some false => m.readByShifts limit offset (i + 1) count acc
    | some true => do
      let probe ← F.oneShiftedUp i
      m.readByShifts limit offset (i + 1) count (acc ||| probe)

/-- `field?` by shifts. -/
def fieldByShifts (limit : Nat) (m : Masked F) (offset width : Nat) :
    Except Trap (Option F.Word) :=
  m.readByShifts limit offset 0 width 0

/-! ### Testing -/

theorem probe_ne_zero (h : i < F.width) : F.probe i ≠ 0 := by
  intro hzero
  have hbit := F.getLsbD_probe i i
  rw [hzero] at hbit
  simp [h] at hbit

theorem and_probe_eq (w : F.Word) (i : Nat) :
    w &&& F.probe i = if w.getLsbD i then F.probe i else 0 := BitVec.and_twoPow w i

/-- A word has a bit when it meets the one that is shifted there. -/
theorem and_probe_eq_zero_iff (h : i < F.width) {w : F.Word} :
    w &&& F.probe i = 0 ↔ w.getLsbD i = false := by
  rw [and_probe_eq]
  cases w.getLsbD i
  · exact iff_of_true rfl rfl
  · exact iff_of_false (probe_ne_zero h) (by simp)

/-- Testing a bit never traps. -/
theorem bitByShift_eq (m : Masked F) (i : Nat) : m.bitByShift i = .ok (m.bit i) := by
  unfold bitByShift
  split
  · rename_i h
    rw [bit_of_width_le h]
  · rename_i h
    have hlt : i < F.width := Nat.lt_of_not_le h
    have hset : (m.value &&& F.probe i != 0) = m.value.getLsbD i := by
      rw [Bool.eq_iff_iff, bne_iff_ne, ne_eq, and_probe_eq_zero_iff hlt, Bool.not_eq_false]
    rw [F.oneShiftedUp_of_lt hlt]
    change Except.ok (if m.mask &&& F.probe i = 0 then none else some _) = _
    rw [hset, bit]
    simp only [and_probe_eq_zero_iff hlt]
    cases m.mask.getLsbD i <;> rfl

/-- Testing the low bits never traps. -/
theorem isSpecifiedByShifts_eq (m : Masked F) (width : Nat) :
    m.isSpecifiedByShifts width = .ok (m.isSpecified width) := by
  have hfrom : ∀ i count, m.isSpecifiedByShiftsFrom i count = .ok (m.isSpecifiedFrom i count) := by
    intro i count
    induction count generalizing i with
    | zero => rfl
    | succ count ih =>
      rw [isSpecifiedByShiftsFrom, isSpecifiedFrom, bitByShift_eq]
      cases m.bit i with
      | none => rfl
      | some b => exact ih (i + 1)
  exact hfrom 0 width

/-! ### Reading -/

/-- A bit that is specified is below the width, so the next index is still one. -/
theorem readByShifts_eq (hlimit : F.width < limit) (h : offset + i < limit) (acc : F.Word) :
    m.readByShifts limit offset i count acc = .ok (m.readBits? offset i count acc) := by
  induction count generalizing i acc with
  | zero => rfl
  | succ count ih =>
    rw [readByShifts, readBits?, indexAt, if_pos h]
    change (m.bitByShift (offset + i)).bind _ = _
    rw [bitByShift_eq]
    cases hbit : m.bit (offset + i) with
    | none => rfl
    | some b =>
      have hlt := lt_width_of_bit hbit
      have hnext : offset + (i + 1) < limit := by omega
      cases b with
      | false => exact ih hnext acc
      | true =>
        change (F.oneShiftedUp i).bind _ = _
        rw [F.oneShiftedUp_of_lt (by omega)]
        exact ih hnext _

/-- Reading a field never traps. -/
theorem fieldByShifts_eq (hlimit : F.width < limit) (h : offset < limit) (m : Masked F)
    (width : Nat) : m.fieldByShifts limit offset width = .ok (m.field? offset width) :=
  readByShifts_eq hlimit h 0

/-! ### Writing -/

theorem withBitByShift_of_lt (h : i < F.width) (b : Option Bool) :
    m.withBitByShift i b = .ok (m.setBit i b) := by
  rw [withBitByShift, if_neg (Nat.not_le.2 h), F.oneShiftedUp_of_lt h]
  obtain _ | _ | _ := b <;> rfl

/-- The low end of a shifted field is its bit. -/
theorem low_eq_fieldBit (h : 0 < F.width) (field : F.Word) (i : Nat) :
    (F.shiftRight field i &&& 1 == 1) = fieldBit field i := by
  have hone : (1 : F.Word) = F.probe 0 := by
    rw [IntFormat.probe, BitVec.twoPow_zero]
    rfl
  rw [hone, and_probe_eq, fieldBit]
  cases (F.shiftRight field i).getLsbD 0
  · exact beq_eq_false_iff_ne.2 (probe_ne_zero h).symm
  · exact beq_self_eq_true _

/-- Writing bits traps when they are refused. -/
theorem toOption_writeByShifts (hlimit : F.width ≤ limit) (field : F.Word) :
    (writeByShifts limit offset field i count m).toOption = writeBits? offset field i count m := by
  induction count generalizing i m with
  | zero => rfl
  | succ count ih =>
    rw [writeByShifts, writeBits?, withBit?]
    by_cases h : offset + i < F.width
    · rw [indexAt, if_pos (by omega), F.shiftedDown_of_lt (by omega), if_pos h, Option.bind_some,
        ← ih]
      change Except.toOption (Except.bind (m.withBitByShift (offset + i) _) _) = _
      rw [withBitByShift_of_lt h, low_eq_fieldBit (by omega)]
      rfl
    -- Either way out of the steps before it, the bit past the width is not written.
    · have hrange : ∀ b, m.withBitByShift (offset + i) b = .error .range := fun b =>
        if_pos (Nat.le_of_not_lt h)
      rw [if_neg h, indexAt]
      split
      · unfold IntFormat.shiftedDown
        split
        · change Except.toOption (Except.bind (m.withBitByShift (offset + i) _) _) = _
          rw [hrange]
          rfl
        · rfl
      · rfl

/-- Writing a field traps when it is refused. -/
theorem toOption_withFieldByShifts (hlimit : F.width ≤ limit) (m : Masked F) (offset width : Nat)
    (field : F.Word) : (m.withFieldByShifts limit offset width field).toOption =
      m.withField? offset width field :=
  toOption_writeByShifts hlimit field

end Masked

end LineCode
