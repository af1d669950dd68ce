import LineCode.Codec

/-!
# Mismatches

What the check of a look-up table reports: a row, and how it departs from the codec that
it is checked against.
-/

namespace LineCode

/-- How a row departs from a codec. -/
inductive Discrepancy
  /-- An encode row has don't-care bits where it should have none, or some but not all. -/
  | incomplete (symbol : Symbol) (rd : Disparity)
  /-- An encode row is specified for a symbol that the codec does not send. -/
  | unsupported (symbol : Symbol)
  /-- An encode row and the codec send different words, or leave in different states. -/
  | otherEncoding (symbol : Symbol) (rd : Disparity) (row codec : Encoded)
  /-- A decode row has the wrong bit for what the strict detector says. -/
  | otherDisparityError (word : Codeword) (rd : Disparity)
  /-- A decode row says that a word is not legal, and the codec decodes it. -/
  | flaggedInvalid (word : Codeword) (rd : Disparity) (symbol : Symbol)
  /-- A decode row and the codec decode a word differently. -/
  | otherDecoding (word : Codeword) (rd : Disparity) (symbol : Symbol) (rdOut : Disparity)
  /-- A decode row says that a word is legal, and the codec does not decode it. -/
  | flaggedValid (word : Codeword) (rd : Disparity)
  /-- A decode row does not say whether a word is legal. -/
  | unspecified (word : Codeword) (rd : Disparity)
deriving DecidableEq

/-- What is said of a departure. -/
def Discrepancy.message : Discrepancy → String
  | .incomplete s rd => s.name ++ " rd=" ++ rd.text ++ " row is not fully specified"
  | .unsupported s => s.name ++ " is unsupported but has a row"
  | .otherEncoding s rd row codec =>
    s.name ++ " rd=" ++ rd.text ++ ": table " ++ row.word.text ++ " rd=" ++ row.rd.text ++
      ", codec " ++ codec.word.text ++ " rd=" ++ codec.rd.text
  | .otherDisparityError w rd => w.text ++ " rd=" ++ rd.text ++ ": disparity error bit disagrees"
  | .flaggedInvalid w rd s =>
    w.text ++ " rd=" ++ rd.text ++ ": flagged invalid but decodes to " ++ s.name
  | .otherDecoding w rd s rdOut =>
    w.text ++ " rd=" ++ rd.text ++ ": table disagrees with codec " ++ s.name ++ " rd=" ++ rdOut.text
  | .flaggedValid w rd => w.text ++ " rd=" ++ rd.text ++ ": flagged valid but does not decode"
  | .unspecified w rd => w.text ++ " rd=" ++ rd.text ++ ": error bit unspecified"

/-- The two tables of a codec. -/
inductive Direction
  | encode
  | decode
deriving DecidableEq

/-- The name of a table. -/
def Direction.text : Direction → String
  | .encode => "encode"
  | .decode => "decode"

/-- A row that departs from a codec. -/
structure Mismatch where
  table : Direction
  address : Nat
  discrepancy : Discrepancy
deriving DecidableEq

/-- `encode[0x0bc]: D28.5 is unsupported but has a row`. -/
def Mismatch.text (m : Mismatch) : String :=
  m.table.text ++ "[" ++ Text.hexFilled 3 m.address ++ "]: " ++ m.discrepancy.message

end LineCode
