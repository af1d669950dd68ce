/-!
# Bit planes

One output bit of a table over all addresses. A cell is on, off or don't-care. A plane
is handed to a minimiser as its cells, or as the sets of addresses that are on and
don't-care.
-/

namespace LineCode

/-- The value of an output bit at one address. -/
inductive Cell
  | off
  | on
  | dontCare
deriving DecidableEq

namespace Cell

/-- A cell as it is printed. -/
def char : Cell → Char
  | .off => '0'
  | .on => '1'
  | .dontCare => '-'

/-- The cell that a character prints. -/
def ofChar? : Char → Option Cell
  | '0' => some .off
  | '1' => some .on
  | '-' => some .dontCare
  | _ => none

/-- The cell of a bit that may be don't-care. -/
def ofBit : Option Bool → Cell
  | none => .dontCare
  | some false => .off
  | some true => .on

@[simp] theorem ofChar?_char (c : Cell) : ofChar? c.char = some c := by cases c <;> rfl

theorem char_inj {c d : Cell} : c.char = d.char ↔ c = d := by cases c <;> cases d <;> decide

theorem ofBit_inj {a b : Option Bool} : ofBit a = ofBit b ↔ a = b := by
  rcases a with _ | _ | _ <;> rcases b with _ | _ | _ <;> decide

end Cell

/-- How many times a number can be halved, counting no further than `most`. -/
def halvings : (most n : Nat) → Nat
  | 0, _ => 0
  | most + 1, n => if n % 2 = 0 then halvings most (n / 2) + 1 else 0

/-- A named output bit and its cells by address. -/
structure BitPlane where
  name : String
  cells : List Cell
deriving DecidableEq

namespace BitPlane

/-- The width of the addresses, for a power of two of cells: how many times the number of cells,
a 64-bit one, can be halved. -/
def inputs (p : BitPlane) : Nat := halvings 64 p.cells.length

/-- The addresses of the cells that have a value. -/
def indices (p : BitPlane) (c : Cell) : List Nat :=
  (p.cells.zipIdx.filter fun (d, _) => d = c).map Prod.snd

/-- The addresses that are on. -/
def onSet (p : BitPlane) : List Nat := p.indices .on

/-- The addresses that are don't-care. -/
def dontCareSet (p : BitPlane) : List Nat := p.indices .dontCare

/-- The cells in one line. -/
def render (p : BitPlane) : String := String.ofList (p.cells.map Cell.char)

end BitPlane

end LineCode
