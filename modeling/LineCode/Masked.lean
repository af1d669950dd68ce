/-!
# Words with don't-care bits

An integer format is a width together with a sign convention; its words are bit
vectors of that width, and the convention decides how a word reads as an integer and
what a right shift brings in.

A masked word is a value with the set of bits that are specified. The bits outside the
mask are don't-care. `bit` is the view: each index holds a bit or nothing, and an index
past the width holds nothing. Writing past the width is refused (`withBit?`,
`withField?`); the unchecked `setBit` and `setField` leave the word alone there.
-/

namespace LineCode

/-! ### Integer formats -/

/-- A fixed-width binary integer format. -/
structure IntFormat where
  /-- The number of bits. -/
  width : Nat
  /-- Whether the top bit counts negatively (two's complement). -/
  signed : Bool
deriving DecidableEq

namespace IntFormat

/-- The words of a format. -/
abbrev Word (F : IntFormat) := BitVec F.width

/-- Octets. -/
def u8 : IntFormat := ⟨8, false⟩

/-- Unsigned words of 16 bits. -/
def u16 : IntFormat := ⟨16, false⟩

/-- Unsigned words of 32 bits. -/
def u32 : IntFormat := ⟨32, false⟩

/-- Unsigned words of 64 bits. -/
def u64 : IntFormat := ⟨64, false⟩

/-- Signed octets. -/
def i8 : IntFormat := ⟨8, true⟩

/-- Signed words of 16 bits. -/
def i16 : IntFormat := ⟨16, true⟩

/-- Signed words of 64 bits. -/
def i64 : IntFormat := ⟨64, true⟩

variable (F : IntFormat)

/-- The word whose integer is `n` modulo a power of two. -/
def ofInt (n : Int) : F.Word := BitVec.ofInt F.width n

/-- The integer a word stands for. -/
def toInt (w : F.Word) : Int := if F.signed then BitVec.toInt w else (BitVec.toNat w : Int)

/-- A right shift: copies of the top bit come in for a signed format, zeros otherwise. -/
def shiftRight (w : F.Word) (n : Nat) : F.Word :=
  if F.signed then w.sshiftRight n else w >>> n

/-- The word with the single bit `i`, or no bit if `i` is past the width. -/
def probe (i : Nat) : F.Word := BitVec.twoPow F.width i

@[simp] theorem ofInt_toInt (w : F.Word) : F.ofInt (F.toInt w) = w := by
  unfold ofInt toInt
  split
  · exact BitVec.ofInt_toInt
  · rw [BitVec.ofInt_natCast, BitVec.ofNat_toNat, BitVec.setWidth_eq]

/-- Below the width a right shift moves bits down, whatever the sign convention brings in. -/
theorem getLsbD_shiftRight {w : F.Word} {n : Nat} (h : n < F.width) :
    (F.shiftRight w n).getLsbD 0 = w.getLsbD n := by
  unfold shiftRight
  split
  · rw [BitVec.getLsbD_sshiftRight]
    simp [h, show ¬ F.width ≤ 0 by omega]
  · simp

@[simp] theorem getLsbD_probe (i j : Nat) :
    (F.probe i).getLsbD j = (decide (i < F.width) && decide (i = j)) :=
  BitVec.getLsbD_twoPow i j

end IntFormat

/-! ### Masked words -/

/-- A value and the bits of it that are specified. -/
structure Masked (F : IntFormat) where
  value : F.Word
  mask : F.Word
deriving DecidableEq

namespace Masked

variable {F : IntFormat}

/-- Both parts as given. -/
def ofParts (value mask : F.Word) : Masked F := ⟨value, mask⟩

/-- The value with its don't-care bits cleared. -/
def ofMask (value mask : F.Word) : Masked F := ⟨value &&& mask, mask⟩

/-- Every bit specified. -/
def exact (value : F.Word) : Masked F := ofMask value (BitVec.allOnes F.width)

/-- Nothing specified. -/
def dontCare : Masked F := ⟨0, 0⟩

/-- Whether a candidate has the specified bits. -/
def accepts (m : Masked F) (candidate : F.Word) : Bool := candidate &&& m.mask == m.value

/-- The bit at an index, or nothing where it is don't-care or past the width. -/
def bit (m : Masked F) (i : Nat) : Option Bool :=
  if m.mask.getLsbD i then some (m.value.getLsbD i) else none

/-- Sets a bit, or makes it don't-care; past the width the word stays as it is. -/
def setBit (m : Masked F) (i : Nat) : Option Bool → Masked F
  | none => ⟨m.value &&& ~~~F.probe i, m.mask &&& ~~~F.probe i⟩
  | some true => ⟨m.value ||| F.probe i, m.mask ||| F.probe i⟩
  | some false => ⟨m.value &&& ~~~F.probe i, m.mask ||| F.probe i⟩

/-- `setBit`, refused past the width. -/
def withBit? (m : Masked F) (i : Nat) (b : Option Bool) : Option (Masked F) :=
  if i < F.width then some (m.setBit i b) else none

/-- The bit of a field that is written `i` places above its start. -/
def fieldBit (field : F.Word) (i : Nat) : Bool := (F.shiftRight field i).getLsbD 0

/-- Writes `count` bits of a field, the `i`-th first, and stops at the first one refused. -/
def writeBits? (offset : Nat) (field : F.Word) : (i count : Nat) → Masked F → Option (Masked F)
  | _, 0, m => some m
  | i, count + 1, m =>
    (m.withBit? (offset + i) (some (fieldBit field i))).bind
      (writeBits? offset field (i + 1) count)

/-- Specifies `width` bits from `offset` on by the low bits of `field`, refused past the width. -/
def withField? (m : Masked F) (offset width : Nat) (field : F.Word) : Option (Masked F) :=
  writeBits? offset field 0 width m

/-- `withField?` for a field that is known to fit. -/
def setField (m : Masked F) (offset width : Nat) (field : F.Word) : Masked F :=
  (m.withField? offset width field).getD m

/-- Whether the `count` bits from `i` on are all specified. -/
def isSpecifiedFrom (m : Masked F) : (i count : Nat) → Bool
  | _, 0 => true
  | i, count + 1 => (m.bit i).isSome && m.isSpecifiedFrom (i + 1) count

/-- Whether none of the low `width` bits is don't-care. -/
def isSpecified (m : Masked F) (width : Nat) : Bool := m.isSpecifiedFrom 0 width

/-- Collects `count` bits of a field into `acc`, the `i`-th first. -/
def readBits? (m : Masked F) (offset : Nat) : (i count : Nat) → F.Word → Option F.Word
  | _, 0, acc => some acc
  | i, count + 1, acc =>
    (m.bit (offset + i)).bind fun b =>
      m.readBits? offset (i + 1) count (if b then acc ||| F.probe i else acc)

/-- The `width` bits from `offset` on as a word, if all of them are specified. -/
def field? (m : Masked F) (offset width : Nat) : Option F.Word := m.readBits? offset 0 width 0

/-! ### The view -/

theorem bit_eq_none_iff {m : Masked F} {i : Nat} : m.bit i = none ↔ m.mask.getLsbD i = false := by
  simp [bit]

theorem bit_eq_some_iff {m : Masked F} {i : Nat} {b : Bool} :
    m.bit i = some b ↔ m.mask.getLsbD i = true ∧ m.value.getLsbD i = b := by
  simp [bit]

theorem bit_of_width_le {m : Masked F} {i : Nat} (h : F.width ≤ i) : m.bit i = none :=
  bit_eq_none_iff.2 (BitVec.getLsbD_of_ge m.mask i h)

theorem bit_dontCare (i : Nat) : (dontCare : Masked F).bit i = none :=
  bit_eq_none_iff.2 BitVec.getLsbD_zero

theorem bit_ofMask (v k : F.Word) (i : Nat) :
    (ofMask v k).bit i = if k.getLsbD i then some (v.getLsbD i) else none := by
  simp only [bit, ofMask, BitVec.getLsbD_and]
  split <;> simp_all

/-- Setting a bit below the width changes that bit and no other. -/
theorem bit_setBit {m : Masked F} {i : Nat} (h : i < F.width) (b : Option Bool) (j : Nat) :
    (m.setBit i b).bit j = if i = j then b else m.bit j := by
  by_cases hj : j < F.width
  · rcases b with _ | _ | _ <;> by_cases hij : i = j <;>
      simp only [setBit, bit, BitVec.getLsbD_and, BitVec.getLsbD_or, BitVec.getLsbD_not,
        IntFormat.getLsbD_probe] <;> simp [h, hj, hij]
  · rw [bit_of_width_le (Nat.le_of_not_lt hj), bit_of_width_le (Nat.le_of_not_lt hj)]
    simp [show i ≠ j by omega]

theorem withBit?_eq_some_iff {m m' : Masked F} {i : Nat} {b : Option Bool} :
    m.withBit? i b = some m' ↔ i < F.width ∧ m.setBit i b = m' := by
  simp [withBit?]

theorem fieldBit_eq {field : F.Word} {i : Nat} (h : i < F.width) :
    fieldBit field i = field.getLsbD i :=
  F.getLsbD_shiftRight h

end Masked

end LineCode
