/-!
# Hexadecimal numerals

Numbers as `0x` followed by lower-case digits, plain or filled with zeros to a least
number of digits.
-/

namespace LineCode.Text

/-- The lower-case hexadecimal digits of a number, at least one. -/
def hexDigits (n : Nat) : String := String.ofList (Nat.toDigits 16 n)

/-- `0x` and the digits of a number. -/
def hex (n : Nat) : String := "0x" ++ hexDigits n

/-- `0x` and at least `least` digits, with leading zeros. -/
def hexFilled (least n : Nat) : String :=
  let digits := Nat.toDigits 16 n
  "0x" ++ String.ofList (List.replicate (least - digits.length) '0' ++ digits)

end LineCode.Text
