import LineCode.LookupTable
import LineCode.LookupTable.Mismatch

/-!
# The decode table

Addressed by word, one row for both entering disparities. Four bits say for each of them
whether the word is not legal and whether the strict detector fires; they are specified
in every row. A word that is legal for at least one has its symbol in the row as well,
and whether it changes the disparity.
-/

namespace LineCode

/-! ### Layout -/

/-- The bit that holds the control flag, above the eight of the octet. -/
def controlBit : Nat := 8

/-- The bit that says that the word is not legal for an entering disparity. -/
def errorBit : Disparity → Nat
  | .negative => 9
  | .positive => 10

/-- The bit that says that the strict detector fires for an entering disparity. -/
def disparityErrorBit : Disparity → Nat
  | .negative => 11
  | .positive => 12

/-- The bit that says that the word changes the disparity. -/
def swapBit : Nat := 13

/-- The names of the outputs. -/
def decodeNames : Vector String 14 :=
  (Vector.ofFn fun i : Fin 8 => "dec_lut_data_" ++ toString i.val) ++
    #v["dec_lut_k", "dec_lut_err0", "dec_lut_err1", "dec_lut_rderr0", "dec_lut_rderr1",
      "dec_lut_rd_swap"]

/-! ### Rows -/

/-- The bits of a row that say whether its word is in error. -/
def errorRow (c : Codec) (w : Codeword) : Masked .u16 :=
  Masked.dontCare
    |>.setBit (disparityErrorBit .negative) (some (Detector.strict.flags .negative w))
    |>.setBit (disparityErrorBit .positive) (some (Detector.strict.flags .positive w))
    |>.setBit (errorBit .negative) (some (!c.isValid w .negative))
    |>.setBit (errorBit .positive) (some (!c.isValid w .positive))

/-- Adds to a row what its word stands for. -/
def addDecoded (row : Masked .u16) (d : Decoded) : Masked .u16 :=
  row
    |>.setField 0 8 (d.symbol.value.setWidth 16)
    |>.setBit controlBit (some d.symbol.control)
    |>.setBit swapBit (some d.changed)

/-- The row of a word. Of two decodings the one for a positive entering disparity is held. -/
def decodeRow (c : Codec) (w : Codeword) : Masked .u16 :=
  match c.decode w .positive, c.decode w .negative with
  | .ok d, _ => addDecoded (errorRow c w) d
  | .error _, .ok d => addDecoded (errorRow c w) d
  | .error _, .error _ => errorRow c w

/-- The decode table of a codec. -/
def Codec.decodeTable (c : Codec) : LookupTable 14 where
  names := decodeNames
  rows := Vector.ofFn fun a => decodeRow c ⟨.ofFin a⟩

/-! ### Checking -/

/-- The symbol that a row holds, if it is specified. -/
def rowSymbol? (row : Masked .u16) : Option Symbol :=
  (row.field? 0 8).bind fun value => (row.bit controlBit).map fun k => ⟨value.setWidth 8, k⟩

/-- The disparity in which a row's word leaves the line, if it is specified. -/
def rowExit? (row : Masked .u16) (rd : Disparity) : Option Disparity :=
  (row.bit swapBit).map fun swap => if swap then rd.flip else rd

/-- Whether a row has the wrong bit for what the strict detector says. -/
def detectorDiscrepancy (w : Codeword) (row : Masked .u16) (rd : Disparity) : Option Discrepancy :=
  if row.bit (disparityErrorBit rd) = some (Detector.strict.flags rd w) then none
  else some (.otherDisparityError w rd)

/-- How a row departs from what a codec decodes under one entering disparity, if it does. -/
def decodeDiscrepancy (c : Codec) (w : Codeword) (row : Masked .u16) (rd : Disparity) :
    Option Discrepancy :=
  match row.bit (errorBit rd), c.decode w rd with
  | some true, .error _ => none
  | some true, .ok d => some (.flaggedInvalid w rd d.symbol)
  | some false, .ok d =>
    if rowSymbol? row = some d.symbol ∧ rowExit? row rd = some d.rd then none
    else some (.otherDecoding w rd d.symbol d.rd)
  | some false, .error _ => some (.flaggedValid w rd)
  | none, _ => some (.unspecified w rd)

/-- How a row departs from a codec: the detector's bits first, then what is decoded. -/
def rowDiscrepancies (c : Codec) (w : Codeword) (row : Masked .u16) : List Discrepancy :=
  Disparity.all.filterMap (detectorDiscrepancy w row) ++
    Disparity.all.filterMap (decodeDiscrepancy c w row)

/-- How the rows of a decode table depart from a codec, in ascending order. -/
def LookupTable.checkDecode (t : LookupTable 14) (c : Codec) : List Mismatch :=
  (List.finRange 1024).flatMap fun a =>
    (rowDiscrepancies c ⟨.ofFin a⟩ (t.rows.get a)).map fun d => ⟨.decode, a, d⟩

end LineCode
