import LineCode.BitPlane
import LineCode.Export.Writer
import LineCode.LookupTable.Decode
import LineCode.LookupTable.Encode
import LineCode.Text.JsonString

/-!
# Export formats

Bit planes as text. `text` writes a header line and the cells in lines of a fixed width,
`minterms` one line with the addresses that are on and don't-care, `json` one record
per line. A format only says which pieces of text stand for a plane; they are written
one after another until the writer refuses one.
-/

namespace LineCode

/-- How planes are written. -/
inductive Format
  /-- Cells in lines of `chunk`; a chunk of zero counts as one. -/
  | text (chunk : Nat)
  | minterms
  | json
deriving DecidableEq

/-- A list cut into pieces of `n` elements, the last one shorter if need be; a length of zero
counts as one. -/
def chunks {α : Type} (n : Nat) : List α → List (List α)
  | [] => []
  | x :: xs => (x :: xs.take (n - 1)) :: chunks n (xs.drop (n - 1))
termination_by xs => xs.length
decreasing_by rw [List.length_drop, List.length_cons]; omega

/-- Numbers between commas. -/
def commaSeparated (ns : List Nat) : String := String.intercalate "," (ns.map toString)

namespace BitPlane

/-- The name and a colon, then the cells in indented lines. -/
def textLines (chunk : Nat) (p : BitPlane) : List String :=
  (p.name ++ ":\n") ::
    (chunks chunk p.cells).map fun cells => "    " ++ String.ofList (cells.map Cell.char) ++ "\n"

/-- The name, the width of the addresses and the two sets. -/
def mintermLine (p : BitPlane) : String :=
  p.name ++ " inputs=" ++ toString p.inputs ++ " on=[" ++ commaSeparated p.onSet ++ "] dc=[" ++
    commaSeparated p.dontCareSet ++ "]\n"

/-- A JSON object with the name, the width of the addresses, the two sets and the cells. -/
def jsonRecord (p : BitPlane) : String :=
  "\x7b\"name\":" ++ Text.jsonString p.name ++ ",\"inputs\":" ++ toString p.inputs ++
    ",\"on\":[" ++ commaSeparated p.onSet ++ "],\"dc\":[" ++ commaSeparated p.dontCareSet ++
    "],\"lut\":" ++ Text.jsonString p.render ++ "\x7d"

end BitPlane

/-- The pieces of text that stand for a plane. -/
def Format.pieces (f : Format) (p : BitPlane) : List String :=
  match f with
  | .text chunk => p.textLines chunk
  | .minterms => [p.mintermLine]
  | .json => [p.jsonRecord, "\n"]

/-- Writes a plane. -/
def Format.writePlane (f : Format) (p : BitPlane) : Output Unit := (f.pieces p).forM write

/-- Writes planes and returns how many. -/
def Format.writePlanes (f : Format) (ps : List BitPlane) : Output Nat := do
  ps.forM f.writePlane
  return ps.length

/-- The planes of a codec's two tables, those of the encode table first. -/
def Codec.planes (c : Codec) : List BitPlane := c.encodeTable.planes ++ c.decodeTable.planes

/-- Writes the two tables of a codec and returns the number of planes. -/
def Codec.writeTables (c : Codec) (f : Format) : Output Nat := f.writePlanes c.planes

/-- What writing leaves in a fresh writer, and whether it came to an end. -/
def Output.collect {α : Type} (out : Output α) (limit : Option Nat) :
    Except WriteFault α × ByteArray :=
  let (result, w) := ExceptT.run out |>.run (.fresh limit)
  (result, w.written)

end LineCode
