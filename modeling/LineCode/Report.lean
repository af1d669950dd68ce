import LineCode.Codec

/-!
# Reports

One line of text per encoding or decoding. A symbol or word that the codec refuses makes
a line as well, so a report never fails.
-/

namespace LineCode

/-- `Enc K28.5 (0xbc), rd=0 -> 0101111100, rd=1`. -/
def encodeLine (c : Codec) (s : Symbol) (rd : Disparity) : String :=
  "Enc " ++ s.describe ++ ", rd=" ++ rd.text ++ " -> " ++
    match c.encode s rd with
    | .ok sent => sent.word.text ++ ", rd=" ++ sent.rd.text
    | .error _ => "Decode error"

/-- The part of a line that tells what a word stands for. -/
def decodeBody : Except Rejected Decoded → String
  | .ok decoded => decoded.symbol.describe ++ ", rd=" ++ decoded.rd.text
  | .error _ => "Decode error"

/-- Whether the detector fired on a word, decoded or not. -/
def detectorFired : Except Rejected Decoded → Bool
  | .ok decoded => decoded.disparityError
  | .error rejected => rejected.disparityError

/-- `Dec 0101111100, rd=0 -> K28.5 (0xbc), rd=1`. -/
def decodeLine (w : Codeword) (rd : Disparity) (result : Except Rejected Decoded) : String :=
  "Dec " ++ w.text ++ ", rd=" ++ rd.text ++ " -> " ++ decodeBody result ++
    if detectorFired result then ", Disparity error" else ""

/-- A line for each entering disparity that is tried. -/
def decodeLines (c : Codec) (w : Codeword) (rd : Option Disparity) : List String :=
  (c.decodeEach w rd).map fun (d, result) => decodeLine w d result

/-! ### The control alphabet -/

/-- The words of the control characters as published, for a negative and a positive entering
disparity in turn. -/
def referenceWords : List (BitVec 10) :=
  [0b0010111100, 0b1101000011, 0b1001111100, 0b0110000011,
   0b1010111100, 0b0101000011, 0b1100111100, 0b0011000011,
   0b0100111100, 0b1011000011, 0b0101111100, 0b1010000011,
   0b0110111100, 0b1001000011, 0b0001111100, 0b1110000011,
   0b0001010111, 0b1110101000, 0b0001011011, 0b1110100100,
   0b0001011101, 0b1110100010, 0b0001011110, 0b1110100001]

/-- The control characters encoded from both disparities, the control entries of the table
decoded, and the published words decoded. -/
def controlTrace (c : Codec) : List String :=
  (Symbol.controlValues.flatMap fun v => Disparity.all.map (encodeLine c (.k v))) ++
  ((c.table.controls.flatMap Entry.productions).flatMap fun p =>
    decodeLines c p.word (some p.rdIn)) ++
  (referenceWords.zipIdx.flatMap fun (bits, i) =>
    decodeLines c ⟨bits⟩ (some (.ofBit (i % 2 = 1))))

end LineCode
