import LineCode.Codec
import LineCode.Table.Standard

/-!
# The standard codec

The standard claims no word twice, so it has a codec. That 536 claims are distinct is
checked in one pass: each claim is a number, and the numbers already seen are the bits
of one large number (`nodup_of_allNew`).
-/

namespace LineCode

/-- Whether the numbers of a list differ from each other and from the one bits of `seen`. -/
def allNew : Nat → List Nat → Bool
  | _, [] => true
  | seen, n :: ns => !seen.testBit n && allNew (seen ||| 1 <<< n) ns

theorem nodup_of_allNew {seen : Nat} {ns : List Nat} (h : allNew seen ns = true) :
    ns.Nodup ∧ ∀ n ∈ ns, seen.testBit n = false := by
  induction ns generalizing seen with
  | nil => simp
  | cons n ns ih =>
    simp only [allNew, Bool.and_eq_true, Bool.not_eq_true'] at h
    obtain ⟨hnd, hnew⟩ := ih h.2
    have hbit : ∀ m, (seen ||| 1 <<< n).testBit m = (seen.testBit m || decide (n = m)) := by
      intro m
      rw [Nat.testBit_or, Nat.one_shiftLeft, Nat.testBit_two_pow]
    refine ⟨List.nodup_cons.2 ⟨fun hn => ?_, hnd⟩, fun m hm => ?_⟩
    · have := hnew n hn
      simp [hbit] at this
    · rcases List.mem_cons.1 hm with rfl | hm
      · exact h.1
      · have := hnew m hm
        rw [hbit, Bool.or_eq_false_iff] at this
        exact this.1

/-- A claim as a number. -/
def claimNumber (c : Codeword × Disparity) : Nat := (decodeAddress c.1 c.2).val

theorem standardRows_claims : (standardRows.flatMap Row.claims).Nodup := by
  have h : allNew 0 ((standardRows.flatMap Row.claims).map claimNumber) = true := by
    decide +kernel
  refine (List.pairwise_map.1 (nodup_of_allNew h).1).imp ?_
  rintro a _ hab rfl
  exact hab rfl

/-- The codec of the standard, with the strict detector. -/
def Codec.standard : Codec :=
  .ofClearTable .standard (by
    rw [Table.claims_of_ofRows Table.ofRows_standardRows]
    exact standardRows_claims)

end LineCode
