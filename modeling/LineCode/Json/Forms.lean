import LineCode.Json.Value
import LineCode.RunningSum
import LineCode.Symbol

/-!
# JSON forms

How symbols, stored words, disparities and detectors are exchanged as JSON. Each has one
form that is written, and a few more that are read.
-/

namespace LineCode.Json

/-- The one member of a name. -/
def member? (name : String) (members : List (Option String × Value)) : Option Value :=
  match members.filter fun (key, _) => key = some name with
  | [(_, value)] => some value
  | _ => none

/-! ### Symbols -/

/-- An octet and a control flag. -/
def symbolOfParts? : Value → Value → Option Symbol
  | .number (some n), .bool control => if n < 256 then some ⟨BitVec.ofNat 8 n, control⟩ else none
  | _, _ => none

/-- A symbol is an object with the members `value` and `control`, and perhaps others, or an array
of the two. -/
def symbol? : Value → Option Symbol
  | .array [value, control] => symbolOfParts? value control
  | .object members =>
    if members.all fun (key, _) => key.isSome then do
      symbolOfParts? (← member? "value" members) (← member? "control" members)
    else none
  | _ => none

/-- A symbol as it is written. -/
def symbolText (s : Symbol) : String :=
  "\x7b\"value\":" ++ toString s.value.toNat ++ ",\"control\":" ++ toString s.control ++ "\x7d"

/-! ### Stored words -/

/-- A stored word is a number of sixteen bits. It is taken as it is stored: that it has no more
than ten bits is not asked. -/
def storedWord? : Value → Option (BitVec 16)
  | .number (some n) => if n < UInt16.size then some (BitVec.ofNat 16 n) else none
  | _ => none

/-- A stored word as it is written. -/
def storedWordText (w : BitVec 16) : String := toString w.toNat

/-! ### Names -/

/-- A name is a string, or an object with one member of that name, whose value is null. -/
def name? : Value → Option String
  | .string (some name) => some name
  | .object [(some name, .null)] => some name
  | _ => none

/-- A disparity as it is written. -/
def disparityText : Disparity → String
  | .negative => "\"negative\""
  | .positive => "\"positive\""

/-- A disparity is one of two names. -/
def disparity? (v : Value) : Option Disparity :=
  (name? v).bind fun name =>
    if name = "negative" then some .negative
    else if name = "positive" then some .positive
    else none

/-- A detector as it is written. -/
def detectorText : Detector → String
  | .strict => "\"strict\""
  | .loose => "\"loose\""

/-- A detector is one of two names. -/
def detector? (v : Value) : Option Detector :=
  (name? v).bind fun name =>
    if name = "strict" then some .strict
    else if name = "loose" then some .loose
    else none

end LineCode.Json
