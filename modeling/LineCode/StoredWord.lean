import LineCode.Codec
import LineCode.Json.Forms
import LineCode.Spelling

/-!
# Stored words

A code word is ten bits, and it is stored in sixteen. Whatever makes a stored word has to
see to it that the other six are zero, since a decoder has a row for each code word and takes
the stored bits for the number of the row. Words read from JSON are the exception: they are
taken as they stand.
-/

namespace LineCode

/-- A word as it is stored. -/
structure StoredWord where
  bits : BitVec 16
deriving DecidableEq

namespace StoredWord

/-- The bits that a code word may use. -/
def mask : BitVec 16 := 0x3FF

/-- A code word, stored. -/
def ofCodeword (w : Codeword) : StoredWord := ⟨w.wide⟩

/-- The code word in the low ten bits. -/
def low (w : StoredWord) : Codeword := ⟨w.bits.setWidth 10⟩

/-- The stored bits are the number of a code word. -/
def InRange (w : StoredWord) : Prop := w.bits.toNat < Codeword.count

instance (w : StoredWord) : Decidable w.InRange :=
  inferInstanceAs (Decidable (w.bits.toNat < Codeword.count))

/-! ### Making stored words -/

/-- Bits as they are, unless there are more than ten. -/
def ofBits? (bits : BitVec 16) : Option StoredWord := if mask < bits then none else some ⟨bits⟩

/-- The low ten of some bits. -/
def ofLowBits (bits : BitVec 16) : StoredWord := ⟨bits &&& mask⟩

/-- Some stored bits with bit `i` of the line, which a table writes as the one of value
`2 ^ (9 - i)`. -/
def place (written stored : BitVec 16) (i : Nat) : BitVec 16 :=
  if written.getLsbD (9 - i) then stored ||| BitVec.twoPow 16 i else stored

/-- The word that a table writes in line order, stored bit by bit. -/
def ofWritten (written : BitVec 16) : StoredWord := ⟨(List.range 10).foldl (place written) 0⟩

/-- Sixteen bits that are a number, if it has no more. -/
def bits? (n : Nat) : Option (BitVec 16) := if n < UInt16.size then some (.ofNat 16 n) else none

/-- The word whose stored bits a text spells. -/
def ofText (text : String) : Except SpellingFault StoredWord :=
  let (base, digits) := wordForm (Text.normalize text)
  match Text.readNumeral base spellingBound digits with
  | .error f => .error ⟨text, .numeral f⟩
  | .ok n =>
    match (bits? n).bind ofBits? with
    | some w => .ok w
    | none => .error ⟨text, .wordTooWide⟩

/-- The word that a JSON text is. -/
def ofJson? (text : String) : Option StoredWord :=
  ((Json.Value.ofText? text).bind Json.storedWord?).map mk

end StoredWord

/-! ### Decoding stored words -/

namespace Codec

/-- The rows of the decoder, one for each code word, with a slot for each disparity. -/
def rows (c : Codec) : Array (Disparity → Option Slot) :=
  Array.ofFn fun i : Fin Codeword.count => fun rd =>
    c.maps.reverse.get (decodeAddress (.ofNat i) rd)

/-- The row whose number the stored bits are, if the decoder has so many. -/
def row? (c : Codec) (w : StoredWord) : Option (Disparity → Option Slot) := c.rows[w.bits.toNat]?

/-- What a stored word stands for, if there is a row for it. -/
def decodeStored? (c : Codec) (w : StoredWord) (rd : Disparity) :
    Option (Except Rejected Decoded) :=
  (c.row? w).map fun row =>
    let disparityError := c.detector.flags rd w.low
    match row rd with
    | some slot => .ok ⟨slot.symbol, rd, slot.rdOut, slot.rdOut ≠ rd, disparityError⟩
    | none => .error ⟨w.low, rd, disparityError⟩

/-- What a stored word stands for under one disparity, or under both when none is given. -/
def decodeEachStored? (c : Codec) (w : StoredWord) (rd : Option Disparity) :
    Option (List (Disparity × Except Rejected Decoded)) :=
  (rd.elim Disparity.all ([·])).mapM fun d => (c.decodeStored? w d).map (d, ·)

/-- Whether a stored word stands for a symbol, if there is a row for it. -/
def isValidStored? (c : Codec) (w : StoredWord) (rd : Disparity) : Option Bool :=
  (c.row? w).map fun row => (row rd).isSome

end Codec

end LineCode
