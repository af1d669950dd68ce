import LineCode.Codeword
import LineCode.Disparity

/-!
# The running sum

While a word is on the line, ones minus zeros is counted bit by bit, starting from the
sign of the entering disparity. The count after the tenth bit says where the word
leaves the line: it may follow the entering disparity only if the count is then again
`+1` or `-1` (`evolve`). On the way the count stays close to zero for every word of a
code; `SumBounds` limits it bit by bit, and a `Detector` is a choice of such limits.
-/

namespace LineCode

/-! ### Counting -/

/-- What a bit adds to the count. -/
def weight (b : Bool) : Int := if b then 1 else -1

/-- Ones minus zeros. -/
def excess : List Bool → Int
  | [] => 0
  | b :: bs => weight b + excess bs

/-- The counts after each bit, starting from `n`. -/
def runningSums : Int → List Bool → List Int
  | _, [] => []
  | n, b :: bs => (n + weight b) :: runningSums (n + weight b) bs

@[simp] theorem length_runningSums (n : Int) (bs : List Bool) :
    (runningSums n bs).length = bs.length := by
  induction bs generalizing n with
  | nil => rfl
  | cons b bs ih => simp [runningSums, ih]

theorem excess_append (as bs : List Bool) : excess (as ++ bs) = excess as + excess bs := by
  induction as with
  | nil => simp [excess]
  | cons a as ih => simp only [List.cons_append, excess, ih]; omega

theorem excess_map_not (bs : List Bool) : excess (bs.map not) = -excess bs := by
  induction bs with
  | nil => rfl
  | cons b bs ih => cases b <;> simp only [List.map_cons, excess, ih] <;> simp [weight] <;> omega

/-- Bits that follow others are counted from where those leave the count. -/
theorem runningSums_append (n : Int) (as bs : List Bool) :
    runningSums n (as ++ bs) = runningSums n as ++ runningSums (n + excess as) bs := by
  induction as generalizing n with
  | nil => simp [runningSums, excess]
  | cons a as ih =>
    simp only [List.cons_append, runningSums, ih, excess]
    rw [Int.add_assoc]

/-- The count after bit `i` is the start and the excess of the bits up to it. -/
theorem runningSums_getElem? (n : Int) (bs : List Bool) (i : Nat) :
    (runningSums n bs)[i]? =
      if i < bs.length then some (n + excess (bs.take (i + 1))) else none := by
  induction bs generalizing n i with
  | nil => simp [runningSums]
  | cons b bs ih =>
    cases i with
    | zero => simp [runningSums, excess]
    | succ i => simp [runningSums, ih, excess, Int.add_assoc]

/-- Ones minus zeros of a word. -/
def Codeword.excess (w : Codeword) : Int := LineCode.excess w.lineBits

/-! ### Following a word -/

/-- The disparity in which a word leaves a line that it enters in `d`, or nothing if the
word can never follow `d`. -/
def evolve (d : Disparity) (w : Codeword) : Option Disparity :=
  Disparity.ofSign? (d.sign + w.excess)

theorem evolve_eq_some_iff {d e : Disparity} {w : Codeword} :
    evolve d w = some e ↔ d.sign + w.excess = e.sign :=
  Disparity.ofSign?_eq_some_iff

/-! ### Limits bit by bit -/

/-- For each bit of a word, how far from zero the count may be after it. -/
structure SumBounds where
  limits : Vector Int 10
deriving DecidableEq

namespace SumBounds

/-- The limits that the standard's words keep. -/
def strict : SumBounds := ⟨#v[2, 3, 2, 3, 2, 1, 2, 1, 2, 1]⟩

/-- The wider limits of more tolerant receivers. -/
def loose : SumBounds := ⟨#v[2, 3, 4, 3, 2, 1, 2, 3, 2, 1]⟩

/-- The first bit after which the count is past its limit. -/
def firstViolation (b : SumBounds) (d : Disparity) (w : Codeword) : Option Nat :=
  ((runningSums d.sign w.lineBits).zip b.limits.toList).findIdx?
    fun (sum, limit) => limit < (sum.natAbs : Int)

/-- Whether the count is past its limit after some bit. -/
def violated (b : SumBounds) (d : Disparity) (w : Codeword) : Bool := (b.firstViolation d w).isSome

end SumBounds

/-! ### Detectors -/

/-- A receiver's choice of limits. Receivers differ, so neither choice is the right one. -/
inductive Detector
  | strict
  | loose
deriving DecidableEq

namespace Detector

/-- The limits a detector holds words to. -/
def bounds : Detector → SumBounds
  | .strict => .strict
  | .loose => .loose

/-- Whether a detector reports a disparity error for a word entered in `d`. -/
def flags (t : Detector) (d : Disparity) (w : Codeword) : Bool := t.bounds.violated d w

end Detector

end LineCode
