import LineCode.Codeword
import LineCode.Disparity
import LineCode.Symbol
import LineCode.Text.Blank
import LineCode.Text.Numeral
import LineCode.Text.Quoted

/-!
# Spellings

How symbols, code words and disparities are written by a user. A symbol is named
(`K28.5`) or given by its octet, a word by its stored bits; numbers are binary,
hexadecimal or decimal. A base may be marked by `0b` or `0x`; without a mark the length
of the text decides it, so `10111100` is binary and `bc` hexadecimal. Blanks around a
text and the case of its letters do not matter.
-/

namespace LineCode

/-! ### Faults -/

/-- What is wrong with a spelling. -/
inductive SpellingCause
  | numeral (fault : Text.NumeralFault)
  /-- The number is no octet. -/
  | symbolTooWide
  /-- The number is no code word. -/
  | wordTooWide
  /-- The text is none of the names of a disparity. -/
  | notDisparity
deriving DecidableEq

/-- What is said of a cause. -/
def SpellingCause.message : SpellingCause → String
  | .numeral fault => fault.message
  | .symbolTooWide => "symbol value exceeds 8 bits"
  | .wordTooWide => "codeword exceeds 10 bits"
  | .notDisparity => "expected 0 or 1"

/-- A text that spells nothing, and why. -/
structure SpellingFault where
  text : String
  cause : SpellingCause
deriving DecidableEq

/-- The text in quotation marks, and the cause. -/
def SpellingFault.message (f : SpellingFault) : String :=
  Text.quoted f.text ++ ": " ++ f.cause.message

/-- Numbers are read as 32-bit ones. -/
def spellingBound : Nat := UInt32.size

/-! ### Symbols -/

/-- The number that a text of decimal digits is, and no other text. -/
def decimal? (cs : List Char) : Option Nat :=
  if cs ≠ [] ∧ cs.all (fun c => '0' ≤ c && c ≤ '9') then
    (Text.readDigits 10 spellingBound 0 cs).toOption
  else none

/-- The parts of a name after its letter, `<x>.<y>`. -/
def nameParts? (cs : List Char) : Option (Nat × Nat) :=
  match cs.dropWhile (· ≠ '.') with
  | '.' :: ys => (decimal? (cs.takeWhile (· ≠ '.'))).bind fun x => (decimal? ys).map fun y => (x, y)
  | _ => none

/-- The symbol that a text names, its letter in lower case. -/
def Symbol.ofName? : List Char → Option Symbol
  | 'd' :: cs => (nameParts? cs).map fun (x, y) => .ofXY x y false
  | 'k' :: cs => (nameParts? cs).map fun (x, y) => .ofXY x y true
  | _ => none

/-- The base of an octet's text and its digits. -/
def octetForm (cs : List Char) : Nat × List Char :=
  match Text.byteLength cs, cs with
  | 10, '0' :: 'b' :: digits => (2, digits)
  | 4, '0' :: 'x' :: digits => (16, digits)
  | 2, _ => (16, cs)
  | 8, _ => (2, cs)
  | _, _ => (10, cs)

/-- The symbol that a text spells. A name says itself whether the symbol is a control character;
for an octet `control` does. -/
def Symbol.ofText (text : String) (control : Bool) : Except SpellingFault Symbol :=
  let cs := Text.normalize text
  match Symbol.ofName? cs with
  | some s => .ok s
  | none =>
    let (base, digits) := octetForm cs
    match Text.readNumeral base spellingBound digits with
    | .error f => .error ⟨text, .numeral f⟩
    | .ok n => if n < 256 then .ok ⟨BitVec.ofNat 8 n, control⟩ else .error ⟨text, .symbolTooWide⟩

/-! ### Code words -/

/-- The base of a word's text and its digits. -/
def wordForm (cs : List Char) : Nat × List Char :=
  match Text.byteLength cs, cs with
  | 12, '0' :: 'b' :: digits => (2, digits)
  | 5, '0' :: 'x' :: digits => (16, digits)
  | 3, _ => (16, cs)
  | 10, _ => (2, cs)
  | _, _ => (10, cs)

/-- The word whose stored bits a text spells. -/
def Codeword.ofText (text : String) : Except SpellingFault Codeword :=
  let (base, digits) := wordForm (Text.normalize text)
  match Text.readNumeral base spellingBound digits with
  | .error f => .error ⟨text, .numeral f⟩
  | .ok n =>
    match Codeword.ofNat? n with
    | some w => .ok w
    | none => .error ⟨text, .wordTooWide⟩

/-! ### Disparities -/

/-- The names of a disparity. -/
def Disparity.names : Disparity → List String
  | .negative => ["0", "-", "neg", "negative"]
  | .positive => ["1", "+", "pos", "positive"]

/-- The disparity that a text names. -/
def Disparity.ofText (text : String) : Except SpellingFault Disparity :=
  let name := String.ofList (Text.normalize text)
  if name ∈ Disparity.negative.names then .ok .negative
  else if name ∈ Disparity.positive.names then .ok .positive
  else .error ⟨name, .notDisparity⟩

end LineCode
