import LineCode.Text.Hex

/-!
# Symbols

What a line carries: an octet, and a flag that tells data from control. A symbol is
named by the two fields of its octet, the low five bits `x` and the high three `y`:
`D21.5` for data, `K28.5` for control.
-/

namespace LineCode

/-- An octet and the alphabet it is taken from. -/
structure Symbol where
  value : BitVec 8
  /-- Whether the symbol is a control character. -/
  control : Bool
deriving DecidableEq

namespace Symbol

/-- A data character. -/
def data (value : BitVec 8) : Symbol := ⟨value, false⟩

/-- A control character. -/
def k (value : BitVec 8) : Symbol := ⟨value, true⟩

/-- The symbol named by `x` and `y`, each cut to the width of its field. -/
def ofXY (x y : Nat) (control : Bool) : Symbol := ⟨BitVec.ofNat 3 y ++ BitVec.ofNat 5 x, control⟩

/-- The low five bits. -/
def x (s : Symbol) : BitVec 5 := s.value.setWidth 5

/-- The high three bits. -/
def y (s : Symbol) : BitVec 3 := (s.value >>> 5).setWidth 3

/-- The values of the twelve standard control characters: `K28.0` to `K28.7`, `K23.7`,
`K27.7`, `K29.7` and `K30.7`. -/
def controlValues : List (BitVec 8) :=
  [0x1C, 0x3C, 0x5C, 0x7C, 0x9C, 0xBC, 0xDC, 0xFC, 0xF7, 0xFB, 0xFD, 0xFE]

/-- Whether the standard has the symbol: every data character and twelve control ones. -/
def isStandard (s : Symbol) : Bool := !s.control || controlValues.contains s.value

/-- The letter of a symbol's alphabet. -/
def letter (s : Symbol) : String := if s.control then "K" else "D"

/-- `D21.5`, `K28.5`. -/
def name (s : Symbol) : String :=
  s.letter ++ toString s.x.toNat ++ "." ++ toString s.y.toNat

/-- The octet in hexadecimal. -/
def hexValue (s : Symbol) : String := Text.hex s.value.toNat

/-- The name with the octet: `K28.5 (0xbc)`. -/
def describe (s : Symbol) : String := s.name ++ " (" ++ s.hexValue ++ ")"

theorem ofXY_x_y (s : Symbol) : ofXY s.x.toNat s.y.toNat s.control = s := by
  have h : ∀ v : BitVec 8, (v >>> 5).setWidth 3 ++ v.setWidth 5 = v := by decide +kernel
  cases s with
  | mk v c =>
    simp only [ofXY, x, y, BitVec.ofNat_toNat, BitVec.setWidth_eq]
    exact congrArg (Symbol.mk · c) (h v)

end Symbol

end LineCode
