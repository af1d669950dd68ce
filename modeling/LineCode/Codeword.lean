import LineCode.Masked

/-!
# Code words

A code word is ten bits. They are named `a b c d e i f g h j` in the order in which they
leave the transmitter; `a` is stored as bit 0 and `j` as bit 9. A word is printed as a
number is, `j` first, while a code table writes it in line order, `a` first.

A comma is a pattern over seven successive bits of the line that marks where a word
starts.
-/

namespace LineCode

/-- A ten-bit transmission word, first bit of the line in bit 0. -/
structure Codeword where
  bits : BitVec 10
deriving DecidableEq

namespace Codeword

/-- The number of code words. -/
abbrev count : Nat := 1024

/-- The word with the low ten bits of a number. -/
def ofNat (n : Nat) : Codeword := ⟨BitVec.ofNat 10 n⟩

/-- The word that a number is, if it has no more than ten bits. -/
def ofNat? (n : Nat) : Option Codeword := if n < count then some (ofNat n) else none

/-- The word that a table writes in line order, its first bit as the highest of ten. -/
def ofWritten (written : BitVec 16) : Codeword := ⟨(written.setWidth 10).reverse⟩

/-- The number that a word's stored bits are. -/
def toNat (w : Codeword) : Nat := w.bits.toNat

/-- The place of a word in a table with one row for each. -/
def index (w : Codeword) : Fin count := w.bits.toFin

/-- Every word, in ascending order. -/
def all : List Codeword := (List.range count).map ofNat

/-- Bit `i`, counting from `a`. -/
def bit (w : Codeword) (i : Nat) : Bool := w.bits.getLsbD i

/-- The bits in line order. -/
def lineBits (w : Codeword) : List Bool := (List.range 10).map w.bit

/-- The number of one bits. -/
def ones (w : Codeword) : Nat := w.lineBits.count true

/-- A bit as a digit. -/
def digit (b : Bool) : Char := if b then '1' else '0'

/-- Ten binary digits, `j` first. -/
def text (w : Codeword) : String := String.ofList (w.lineBits.reverse.map digit)

/-- The stored bits as a word wide enough for the patterns of a comma. -/
def wide (w : Codeword) : BitVec 16 := w.bits.setWidth 16

/-! ### Commas -/

/-- `0011111` in line order. -/
def commaPositive : Masked .u16 := .ofParts 0b1111100 0b1111111

/-- `1100000` in line order. -/
def commaNegative : Masked .u16 := .ofParts 0b0000011 0b1111111

/-- Whether the low seven bits of a pattern are a comma. -/
def isComma (pattern : BitVec 16) : Bool :=
  commaPositive.accepts pattern || commaNegative.accepts pattern

/-- Whether a comma starts at the word's first bit. -/
def hasComma (w : Codeword) : Bool := isComma w.wide

/-! ### Laws -/

theorem toNat_lt (w : Codeword) : w.toNat < count := w.bits.isLt

@[simp] theorem ofNat_toNat (w : Codeword) : ofNat w.toNat = w := by
  cases w with
  | mk b => simp [ofNat, toNat]

theorem toNat_ofNat (n : Nat) : (ofNat n).toNat = n % count := by simp [ofNat, toNat, count]

theorem toNat_inj {v w : Codeword} : v.toNat = w.toNat ↔ v = w :=
  ⟨fun h => by rw [← ofNat_toNat v, h, ofNat_toNat], fun h => h ▸ rfl⟩

theorem ofNat?_eq_some_iff {n : Nat} {w : Codeword} : ofNat? n = some w ↔ n = w.toNat := by
  unfold ofNat?
  constructor
  · intro h
    split at h
    · rw [← Option.some.inj h, toNat_ofNat, Nat.mod_eq_of_lt ‹_›]
    · cases h
  · rintro rfl
    rw [if_pos w.toNat_lt, ofNat_toNat]

theorem ofNat?_eq_none_iff {n : Nat} : ofNat? n = none ↔ count ≤ n := by
  simp [ofNat?]

theorem mem_all (w : Codeword) : w ∈ all :=
  List.mem_map.2 ⟨w.toNat, List.mem_range.2 w.toNat_lt, ofNat_toNat w⟩

@[simp] theorem length_lineBits (w : Codeword) : w.lineBits.length = 10 := by simp [lineBits]

theorem getElem?_lineBits (w : Codeword) {i : Nat} (h : i < 10) :
    w.lineBits[i]? = some (w.bit i) := by
  simp [lineBits, h]

theorem getLsbD_wide (w : Codeword) {i : Nat} (h : i < 10) :
    w.wide.getLsbD i = w.bit i := by
  unfold wide bit
  rw [BitVec.getLsbD_setWidth, decide_eq_true (show i < 16 by omega), Bool.true_and]

/-- A written word's bits are the stored ones in reverse. -/
theorem bit_ofWritten (written : BitVec 16) {i : Nat} (h : i < 10) :
    (ofWritten written).bit i = written.getLsbD (9 - i) := by
  have h' : 9 - i < 10 := by omega
  simp only [ofWritten, bit, BitVec.getLsbD_reverse, BitVec.getMsbD, BitVec.getLsbD_setWidth]
  simp [h, h']

end Codeword

end LineCode
