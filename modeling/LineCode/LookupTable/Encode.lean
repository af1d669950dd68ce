import LineCode.LookupTable
import LineCode.LookupTable.Mismatch

/-!
# The encode table

Addressed by entering disparity, control flag and octet. A row holds the word in bits 0
to 9 and the exit disparity in bit 10; the row of a symbol that the code table does not
list is don't-care throughout.
-/

namespace LineCode

/-- The row that holds an encoding. -/
def encodeRow (e : Encoded) : Masked .u16 :=
  (Masked.dontCare.setField 0 10 e.word.wide).setBit 10 (some e.rd.isPositive)

/-- The encoding that the bits of a specified row hold. -/
def Encoded.ofRow (bits : BitVec 16) : Encoded :=
  ⟨⟨bits.setWidth 10⟩, .ofBit (bits.getLsbD 10)⟩

/-- The row of a production, put at its address. -/
def setEncodeRow (rows : Vector (Masked .u16) 1024) (p : Production) : Vector (Masked .u16) 1024 :=
  put rows (encodeAddress p.symbol p.rdIn) (encodeRow ⟨p.word, p.rdOut⟩)

/-- The encode table of a codec. -/
def Codec.encodeTable (c : Codec) : LookupTable 11 where
  names := (Vector.ofFn fun i : Fin 10 => "enc_lut_data_" ++ toString i.val).push "enc_lut_rd"
  rows := c.table.productions.foldl setEncodeRow (Vector.replicate 1024 .dontCare)

/-- How an encode row departs from a codec, if it does. -/
def encodeDiscrepancy (c : Codec) (address : Fin 1024) (row : Masked .u16) : Option Discrepancy :=
  let (s, rd) := Symbol.ofAddress address
  match row.field? 0 11, c.encode s rd with
  | none, .error _ => if row.mask = 0 then none else some (.incomplete s rd)
  | none, .ok _ => some (.incomplete s rd)
  | some _, .error _ => some (.unsupported s)
  | some bits, .ok sent =>
    if Encoded.ofRow bits = sent then none else some (.otherEncoding s rd (.ofRow bits) sent)

/-- The rows of an encode table that depart from a codec, in ascending order. -/
def LookupTable.checkEncode (t : LookupTable 11) (c : Codec) : List Mismatch :=
  (List.finRange 1024).filterMap fun a =>
    (encodeDiscrepancy c a (t.rows.get a)).map fun d => ⟨.encode, a, d⟩

end LineCode
