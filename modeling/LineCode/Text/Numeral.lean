/-!
# Numerals

Unsigned numbers in a base of at most sixteen, read from left to right and kept below a
bound. A plus sign may stand in front. Of two faults the one further to the left is
reported; at one character, that it is no digit comes before that the number is too
large.
-/

namespace LineCode.Text

/-- Why a text is no number. -/
inductive NumeralFault
  /-- There is nothing to read. -/
  | empty
  /-- A character is no digit of the base. -/
  | badDigit
  /-- The number reaches the bound. -/
  | tooLarge
deriving DecidableEq

/-- What is said of a text that is no number. -/
def NumeralFault.message : NumeralFault → String
  | .empty => "cannot parse integer from empty string"
  | .badDigit => "invalid digit found in string"
  | .tooLarge => "number too large to fit in target type"

/-- The value of a character as a digit. -/
def digitValue? (base : Nat) (c : Char) : Option Nat :=
  let value :=
    if '0' ≤ c ∧ c ≤ '9' then some (c.toNat - '0'.toNat)
    else if 'a' ≤ c ∧ c ≤ 'z' then some (c.toNat - 'a'.toNat + 10)
    else if 'A' ≤ c ∧ c ≤ 'Z' then some (c.toNat - 'A'.toNat + 10)
    else none
  value.filter (· < base)

/-- The number that `n` followed by some digits is. -/
def readDigits (base bound : Nat) (n : Nat) : List Char → Except NumeralFault Nat
  | [] => .ok n
  | c :: cs =>
    match digitValue? base c with
    | none => .error .badDigit
    | some d =>
      if n * base + d < bound then readDigits base bound (n * base + d) cs else .error .tooLarge

/-- The number that a text is, with or without a plus sign. -/
def readNumeral (base bound : Nat) : List Char → Except NumeralFault Nat
  | [] => .error .empty
  | '+' :: [] => .error .badDigit
  | '+' :: cs => readDigits base bound 0 cs
  | cs => readDigits base bound 0 cs

end LineCode.Text
