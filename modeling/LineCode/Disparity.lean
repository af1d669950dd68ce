/-!
# Disparity

The state of a line between two words: whether the ones sent so far outnumber the
zeros (`positive`) or the zeros the ones (`negative`). A balanced line keeps the
difference at `+1` or `-1` at every word boundary, so two states are enough.
-/

namespace LineCode

/-- The sign of ones minus zeros since the line was reset. -/
inductive Disparity
  /-- Zeros lead by one. -/
  | negative
  /-- Ones lead by one. -/
  | positive
deriving DecidableEq

namespace Disparity

/-- Both states, negative first: the column order of a code table. -/
def all : List Disparity := [.negative, .positive]

/-- The state written `1` (positive) or `0` (negative). -/
def ofBit : Bool → Disparity
  | true => .positive
  | false => .negative

/-- The bit that writes a state. -/
def isPositive : Disparity → Bool
  | .negative => false
  | .positive => true

/-- `0` for negative, `1` for positive. -/
def index : Disparity → Nat
  | .negative => 0
  | .positive => 1

/-- The other state. -/
def flip : Disparity → Disparity
  | .negative => .positive
  | .positive => .negative

/-- The difference of ones and zeros that a state stands for. -/
def sign : Disparity → Int
  | .negative => -1
  | .positive => 1

/-- The state in which ones minus zeros is `n`, if there is one. -/
def ofSign? (n : Int) : Option Disparity :=
  if n = 1 then some .positive else if n = -1 then some .negative else none

/-- A state as it is printed: `0` or `1`. -/
def text : Disparity → String
  | .negative => "0"
  | .positive => "1"

theorem mem_all (d : Disparity) : d ∈ all := by cases d <;> simp [all]

@[simp] theorem ofBit_isPositive (d : Disparity) : ofBit d.isPositive = d := by cases d <;> rfl

theorem isPositive_inj {d e : Disparity} : d.isPositive = e.isPositive ↔ d = e := by
  cases d <;> cases e <;> decide

theorem index_lt (d : Disparity) : d.index < 2 := by cases d <;> decide

theorem index_inj {d e : Disparity} : d.index = e.index ↔ d = e := by
  cases d <;> cases e <;> decide

@[simp] theorem flip_flip (d : Disparity) : d.flip.flip = d := by cases d <;> rfl

theorem flip_ne (d : Disparity) : d.flip ≠ d := by cases d <;> decide

theorem eq_flip_of_ne {d e : Disparity} (h : d ≠ e) : d = e.flip := by
  cases d <;> cases e <;> simp_all [flip]

@[simp] theorem sign_flip (d : Disparity) : d.flip.sign = -d.sign := by cases d <;> rfl

theorem sign_inj {d e : Disparity} : d.sign = e.sign ↔ d = e := by
  cases d <;> cases e <;> decide

/-- A state is the one in which ones minus zeros is its sign, and no other number has one. -/
theorem ofSign?_eq_some_iff {n : Int} {d : Disparity} : ofSign? n = some d ↔ n = d.sign := by
  unfold ofSign?
  cases d <;> simp only [sign] <;> (repeat' split) <;> simp_all

end Disparity

end LineCode
