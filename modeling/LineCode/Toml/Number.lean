import LineCode.Text.Numeral

/-!
# TOML numbers

The texts of numbers. Underscores may stand between digits. A decimal number does not
start with a zero unless it is one; a number with a mark for its base may, but has no
sign. Whole numbers are kept in 64 bits, others must be finite when they are rounded to
a double.
-/

namespace LineCode.Toml

/-- A character that may stand among the digits of a base. -/
def isDigitOrGap (base : Nat) (c : Char) : Bool := c = '_' || (Text.digitValue? base c).isSome

/-- No two underscores stand side by side, and none at an end. -/
def wellSpaced : List Char → Bool
  | [] => true
  | ['_'] => false
  | '_' :: '_' :: _ => false
  | _ :: cs => wellSpaced cs

/-- The digits that a text starts with, without underscores, and what follows them. -/
def readDigitRun (base : Nat) (zeros : Bool) (cs : List Char) : Option (List Char × List Char) :=
  let run := cs.takeWhile (isDigitOrGap base)
  let digits := run.filter (· ≠ '_')
  if run = [] ∨ run.head? = some '_' ∨ !wellSpaced run then none
  else if !zeros ∧ digits.head? = some '0' ∧ digits ≠ ['0'] then none
  else some (digits, cs.dropWhile (isDigitOrGap base))

/-- The number that digits write. -/
def naturalOfDigits (base : Nat) (digits : List Char) : Nat :=
  digits.foldl (fun n c => n * base + (Text.digitValue? base c).getD 0) 0

/-- Whether a text starts with a hyphen, and what follows it. -/
def splitSign : List Char → Bool × List Char
  | '-' :: cs => (true, cs)
  | cs => (false, cs)

/-- A number with its sign. -/
def signed (negative : Bool) (n : Nat) : Int := if negative then -(n : Int) else n

/-- A number that fits 64 bits. -/
def int64? (n : Int) : Option Int := if -0x8000000000000000 ≤ n ∧ n < 0x8000000000000000 then some n else none

/-- The whole number that a text in a marked base is, after the mark. -/
def markedInteger? (base : Nat) (cs : List Char) : Option Int := do
  match ← readDigitRun base true cs with
  | (digits, []) => int64? (naturalOfDigits base digits)
  | _ => none

/-- The whole number that a decimal text is. -/
def decimalInteger? (cs : List Char) : Option Int := do
  let (negative, body) := splitSign cs
  match ← readDigitRun 10 false body with
  | (digits, []) => int64? (signed negative (naturalOfDigits 10 digits))
  | _ => none

/-- Whether `m · 10 ^ e` is rounded to a finite double: it is below the midpoint between the
largest double and the power of two that follows it. -/
def isFinite (m : Nat) (e : Int) : Bool :=
  let bound := Nat.pow 2 1024 - Nat.pow 2 970
  if m = 0 then true
  else if 0 ≤ e then e ≤ 400 && m * Nat.pow 10 e.toNat < bound
  else
    let digits := (Nat.toDigits 10 m).length
    digits ≤ (-e).toNat || m < bound * Nat.pow 10 (-e).toNat

/-- Whether a number with a fraction and an exponent is a finite double. -/
def floatFits (whole fraction : List Char) (exponent : Int) : Bool :=
  isFinite (naturalOfDigits 10 (whole ++ fraction)) (exponent - fraction.length)

end LineCode.Toml
