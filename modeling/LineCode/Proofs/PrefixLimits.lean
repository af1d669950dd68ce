import LineCode.Proofs.Lookup
import Mathlib.Algebra.BigOperators.Intervals
import Mathlib.Algebra.Order.Group.Abs
import Mathlib.Algebra.Order.Ring.Int
import Mathlib.Order.Bounds.Basic

/-!
# Limits on the count

A receiver may hold the count of ones minus zeros to a limit after each bit of a word. The
first violation is the least bit after which the count is past its limit
(`SumBounds.firstViolation_eq_some_iff`), so all that is to be known about violations is
known of the counts: higher limits give fewer of them and later ones, and a word and its
complement, entered in opposite disparities, have the same ones.

After the tenth bit the count is odd, and a word may follow a disparity when the count is
then `1` or `-1`. A limit of two or less for that bit is therefore enough to notice every
word that cannot follow (`SumBounds.evolve_of_firstViolation`). Both detectors have one, and
no table lists a word where it cannot follow. So such a word is always refused and always
flagged (`Codec.decode_of_evolve_none`).
-/

namespace LineCode

/-! ### The count after a bit -/

/-- Ones minus zeros after bit `i` of a word, counted from the sign of the entering disparity. -/
def countAt (d : Disparity) (w : Codeword) (i : Nat) : Int :=
  d.sign + ∑ j ∈ Finset.range (i + 1), weight (w.bit j)

/-- The word with all its bits turned. -/
def Codeword.complement (w : Codeword) : Codeword := ⟨~~~w.bits⟩

variable {d : Disparity} {w : Codeword} {i : Nat}

theorem countAt_succ : countAt d w (i + 1) = countAt d w i + weight (w.bit (i + 1)) := by
  rw [countAt, Finset.sum_range_succ, ← Int.add_assoc]
  rfl

theorem excess_map_range (n : Nat) :
    excess ((List.range n).map w.bit) = ∑ j ∈ Finset.range n, weight (w.bit j) := by
  induction n with
  | zero => rfl
  | succ n ih =>
    rw [List.range_succ, List.map_append, excess_append, ih, Finset.sum_range_succ]
    simp [excess]

/-- The running sums of a word are its counts. -/
theorem runningSums_lineBits_getElem? (h : i < 10) :
    (runningSums d.sign w.lineBits)[i]? = some (countAt d w i) := by
  have htake : w.lineBits.take (i + 1) = (List.range (i + 1)).map w.bit := by
    rw [Codeword.lineBits, ← List.map_take, List.take_range, Nat.min_eq_left h]
  rw [runningSums_getElem?, if_pos (by simpa using h), htake, excess_map_range, countAt]

/-- Where a word leads is decided by the count after its last bit. -/
theorem evolve_eq_ofSign?_countAt : evolve d w = Disparity.ofSign? (countAt d w 9) := by
  rw [evolve, Codeword.excess, Codeword.lineBits, excess_map_range, countAt]

theorem weight_eq_or (b : Bool) : weight b = 1 ∨ weight b = -1 := by
  cases b
  · exact .inr rfl
  · exact .inl rfl

/-- Every bit turns the parity of the count, which is odd at the start. -/
theorem countAt_emod_two : countAt d w i % 2 = i % 2 := by
  induction i with
  | zero =>
    have hsign := d.sign_eq_or
    have hweight := weight_eq_or (w.bit 0)
    simp only [countAt, Nat.zero_add, Finset.sum_range_one]
    omega
  | succ i ih =>
    have hweight := weight_eq_or (w.bit (i + 1))
    rw [countAt_succ]
    omega

/-- A word may follow when the count after its last bit is no more than two from zero: being odd,
it is then `1` or `-1`. -/
theorem exists_evolve_iff : (∃ e, evolve d w = some e) ↔ |countAt d w 9| ≤ 2 := by
  have hodd : countAt d w 9 % 2 = 1 := countAt_emod_two
  rw [evolve_eq_ofSign?_countAt, abs_le]
  simp only [Disparity.ofSign?_eq_some_iff]
  constructor
  · rintro ⟨e, he⟩
    have := e.sign_eq_or
    omega
  · intro h
    by_cases hpos : countAt d w 9 = 1
    · exact ⟨.positive, hpos⟩
    · refine ⟨.negative, ?_⟩
      show countAt d w 9 = -1
      omega

theorem Codeword.bit_complement (h : i < 10) : w.complement.bit i = !w.bit i := by
  simp only [bit, complement, BitVec.getLsbD_not]
  simp [h]

/-- The complement of a word, entered in the other disparity, has the opposite counts. -/
theorem countAt_complement (h : i < 10) : countAt d.flip w.complement i = -countAt d w i := by
  have hbits : (List.range (i + 1)).map w.complement.bit =
      ((List.range (i + 1)).map w.bit).map (!·) := by
    rw [List.map_map]
    refine List.map_congr_left fun j hj => ?_
    exact Codeword.bit_complement (Nat.lt_of_lt_of_le (List.mem_range.1 hj) h)
  rw [countAt, countAt, ← excess_map_range, ← excess_map_range, hbits, excess_map_not,
    Disparity.sign_flip]
  omega

/-! ### The first violation -/

namespace SumBounds

variable {b b' : SumBounds}

/-- After bit `i` the count is past its limit. -/
def Exceeded (b : SumBounds) (d : Disparity) (w : Codeword) (i : Nat) : Prop :=
  ∃ h : i < 10, b.limits[i] < |countAt d w i|

/-- What is looked at after bit `i`: the count and its limit. -/
theorem getElem_zip_limits (hi : i < 10)
    (hi' : i < ((runningSums d.sign w.lineBits).zip b.limits.toList).length) :
    ((runningSums d.sign w.lineBits).zip b.limits.toList)[i] = (countAt d w i, b.limits[i]) := by
  have hsum : (runningSums d.sign w.lineBits)[i]? = some (countAt d w i) :=
    runningSums_lineBits_getElem? hi
  have hlimit : b.limits.toList[i]? = some b.limits[i] := by simp [hi]
  exact (List.getElem?_eq_some_iff.1 (List.getElem?_zip_eq_some.2 ⟨hsum, hlimit⟩)).2

/-- The first violation is the least bit after which the count is past its limit. -/
theorem firstViolation_eq_some_iff :
    b.firstViolation d w = some i ↔ IsLeast {j | b.Exceeded d w j} i := by
  have hlength : ((runningSums d.sign w.lineBits).zip b.limits.toList).length = 10 := by simp
  rw [firstViolation, List.findIdx?_eq_some_iff_getElem]
  constructor
  · rintro ⟨hi, hpast, hbefore⟩
    have hi10 : i < 10 := hlength ▸ hi
    rw [getElem_zip_limits hi10, decide_eq_true_iff, Int.natCast_natAbs] at hpast
    refine ⟨⟨hi10, hpast⟩, ?_⟩
    rintro j ⟨hj, hjpast⟩
    by_contra hji
    apply hbefore j (Nat.lt_of_not_le hji)
    rw [getElem_zip_limits hj, decide_eq_true_iff, Int.natCast_natAbs]
    exact hjpast
  · rintro ⟨⟨hi, hpast⟩, hleast⟩
    refine ⟨hlength.symm ▸ hi, ?_, fun j hji hjpast => ?_⟩
    · rw [getElem_zip_limits hi, decide_eq_true_iff, Int.natCast_natAbs]
      exact hpast
    · have hj : j < 10 := hji.trans hi
      rw [getElem_zip_limits hj, decide_eq_true_iff, Int.natCast_natAbs] at hjpast
      exact Nat.not_le_of_lt hji (hleast ⟨hj, hjpast⟩)

/-- There is a violation when the count is past its limit after some bit. -/
theorem exists_firstViolation_iff :
    (∃ i, b.firstViolation d w = some i) ↔ ∃ i, b.Exceeded d w i := by
  simp only [firstViolation_eq_some_iff]
  constructor
  · rintro ⟨i, hi, -⟩
    exact ⟨i, hi⟩
  · intro h
    classical
    exact ⟨Nat.find h, Nat.find_spec h, fun j hj => Nat.find_min' h hj⟩

theorem firstViolation_eq_none_iff :
    b.firstViolation d w = none ↔ ∀ i, ¬ b.Exceeded d w i := by
  rw [← not_exists, ← exists_firstViolation_iff, ← Option.isSome_iff_exists,
    Option.not_isSome_iff_eq_none]

/-- What is past higher limits is past lower ones. -/
theorem Exceeded.of_le (hle : ∀ (j : Nat) (hj : j < 10), b.limits[j] ≤ b'.limits[j])
    (h : b'.Exceeded d w i) : b.Exceeded d w i := by
  obtain ⟨hi, hpast⟩ := h
  exact ⟨hi, (hle i hi).trans_lt hpast⟩

/-- Higher limits bring no violation about, and no earlier one. -/
theorem exists_firstViolation_of_le (hle : ∀ (j : Nat) (hj : j < 10), b.limits[j] ≤ b'.limits[j])
    {i' : Nat} (h : b'.firstViolation d w = some i') : ∃ i ≤ i', b.firstViolation d w = some i := by
  obtain ⟨hpast, -⟩ := firstViolation_eq_some_iff.1 h
  have hpast' : b.Exceeded d w i' := hpast.of_le hle
  obtain ⟨i, hi⟩ := exists_firstViolation_iff.2 ⟨i', hpast'⟩
  exact ⟨i, (firstViolation_eq_some_iff.1 hi).2 hpast', hi⟩

theorem exceeded_complement_iff :
    b.Exceeded d.flip w.complement i ↔ b.Exceeded d w i := by
  refine exists_congr fun hi => ?_
  rw [countAt_complement hi, abs_neg]

/-- A word and its complement, entered in opposite disparities, have the same first violation. -/
theorem firstViolation_complement :
    b.firstViolation d.flip w.complement = b.firstViolation d w := by
  ext i
  simp only [firstViolation_eq_some_iff, exceeded_complement_iff]

/-- If the last limit is no more than two, a word without a violation may follow. -/
theorem evolve_of_firstViolation (hlast : b.limits[9] ≤ 2) (h : b.firstViolation d w = none) :
    ∃ e, evolve d w = some e := by
  have hkept : ¬ b.limits[9] < |countAt d w 9| :=
    fun hpast => firstViolation_eq_none_iff.1 h 9 ⟨by decide, hpast⟩
  exact exists_evolve_iff.2 ((not_lt.1 hkept).trans hlast)

end SumBounds

/-! ### Words that cannot follow -/

theorem Detector.limits_last_le (detector : Detector) : detector.bounds.limits[9] ≤ 2 := by
  cases detector <;> decide

/-- Either detector fires for a word that cannot follow. -/
theorem Detector.flags_of_evolve_none (detector : Detector) (h : evolve d w = none) :
    detector.flags d w = true := by
  rw [flags, SumBounds.violated, Option.isSome_iff_ne_none]
  intro hnone
  obtain ⟨e, he⟩ := SumBounds.evolve_of_firstViolation detector.limits_last_le hnone
  rw [h] at he
  cases he

/-- A codec refuses a word that cannot follow, and flags it. -/
theorem Codec.decode_of_evolve_none (c : Codec) (h : evolve d w = none) :
    c.decode w d = .error ⟨w, d, true⟩ := by
  refine decode_eq_error_iff.2 ⟨fun s e hp => ?_, by rw [c.detector.flags_of_evolve_none h]⟩
  have hsome : evolve d w = some e := Table.evolve_of_mem hp
  rw [h] at hsome
  cases hsome

/-- What the limits `b` have to say about a word `w` entered in `d`. -/
structure SumBounds.Lawful (b : SumBounds) (d : Disparity) (w : Codeword) : Prop where
  /-- The first violation is the least bit after which the count is past its limit, -/
  some_iff : ∀ i, b.firstViolation d w = some i ↔ IsLeast {j | b.Exceeded d w j} i
  /-- and there is none when the count is never past its limit. -/
  none_iff : b.firstViolation d w = none ↔ ∀ i, ¬ b.Exceeded d w i
  /-- If limits are raised, no violation appears and none comes earlier. -/
  raised : ∀ b' : SumBounds, (∀ (j : Nat) (hj : j < 10), b.limits[j] ≤ b'.limits[j]) →
    ∀ i', b'.firstViolation d w = some i' → ∃ i ≤ i', b.firstViolation d w = some i
  /-- The complement, entered in the other disparity, has the same first violation. -/
  complement : b.firstViolation d.flip w.complement = b.firstViolation d w
  /-- With a last limit of two or less, a word without a violation may follow. -/
  follows : b.limits[9] ≤ 2 → b.firstViolation d w = none → ∃ e, evolve d w = some e
  /-- A word that cannot follow is refused and flagged by every codec with either detector. -/
  refused : evolve d w = none → ∀ (c : Codec) (detector : Detector),
    (c.withDetector detector).decode w d = .error ⟨w, d, true⟩

/-- **Limits**: whatever ten limits are set, for every word in either disparity the first violation
is the first count past its limit, and a word that can never follow a disparity is refused and
flagged there. -/
theorem limits_lawful (b : SumBounds) (d : Disparity) (w : Codeword) : b.Lawful d w where
  some_iff _ := SumBounds.firstViolation_eq_some_iff
  none_iff := SumBounds.firstViolation_eq_none_iff
  raised _ hle _ h := SumBounds.exists_firstViolation_of_le hle h
  complement := SumBounds.firstViolation_complement
  follows := SumBounds.evolve_of_firstViolation
  refused h c detector := (c.withDetector detector).decode_of_evolve_none h

/-- A last limit of three is too high: the count of this word ends there. -/
example : (SumBounds.mk #v[9, 9, 9, 9, 9, 9, 9, 9, 9, 3]).firstViolation .negative ⟨0x07F⟩ = none ∧
    evolve .negative ⟨0x07F⟩ = none := by
  decide

end LineCode
