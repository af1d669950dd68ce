import LineCode.Serial
import Mathlib.Data.List.Infix
import Mathlib.Data.Nat.Find
import Mathlib.Order.Bounds.Defs

/-!
# Searching for a comma

`comma` writes the two commas out in line order, and `CommaAt` says that one of them
starts at some bit. The search goes bit by bit from the first and stops at the first comma
there is (`findComma_eq_some_iff`), or at the end when there is none
(`findComma_eq_none_iff`). When the first comma of what a receiver still sees is at a word
boundary, the receiver finds that boundary wherever it joined (`findComma_drop`).
-/

namespace LineCode

/-- The comma that two bits and five of the other kind, `b`, make up. -/
def comma (b : Bool) : List Bool := [!b, !b, b, b, b, b, b]

/-- A comma starts at bit `i`. -/
def CommaAt (bits : List Bool) (i : Nat) : Prop := ∃ b, comma b <+: bits.drop i

instance (bits : List Bool) (i : Nat) : Decidable (CommaAt bits i) :=
  inferInstanceAs (Decidable (∃ b, comma b <+: bits.drop i))

variable {bits : List Bool} {i : Nat}

@[simp] theorem length_comma (b : Bool) : (comma b).length = commaLength := rfl

theorem CommaAt.add_le_length (h : CommaAt bits i) : i + commaLength ≤ bits.length := by
  obtain ⟨b, hb⟩ := h
  have := hb.length_le
  rw [length_comma, List.length_drop] at this
  unfold commaLength at *
  omega

theorem commaAt_drop_iff {n : Nat} : CommaAt (bits.drop n) i ↔ CommaAt bits (n + i) := by
  simp only [CommaAt, List.drop_drop]

/-- The masks accept the two commas. -/
theorem isComma_pattern_iff {window : List Bool} (h : window.length = commaLength) :
    Codeword.isComma (pattern window) = true ↔ ∃ b, comma b = window := by
  have hall : ∀ a b c d e f g : Bool,
      Codeword.isComma (pattern [a, b, c, d, e, f, g]) = true ↔
        ∃ x, comma x = [a, b, c, d, e, f, g] := by decide +kernel
  match window, h with
  | [a, b, c, d, e, f, g], _ => exact hall a b c d e f g

theorem startsWithComma_iff : startsWithComma bits = true ↔ CommaAt bits 0 := by
  simp only [startsWithComma, Bool.and_eq_true, decide_eq_true_eq, CommaAt, List.drop_zero]
  constructor
  · rintro ⟨hlen, hcomma⟩
    obtain ⟨b, hb⟩ := (isComma_pattern_iff hlen).1 hcomma
    exact ⟨b, hb ▸ List.take_prefix _ _⟩
  · rintro ⟨b, hb⟩
    have hwindow : bits.take commaLength = comma b := (List.prefix_iff_eq_take.1 hb).symm
    rw [hwindow]
    exact ⟨length_comma b, (isComma_pattern_iff (length_comma b)).2 ⟨b, rfl⟩⟩

/-- A comma stands at a boundary when the word that starts there begins with one. -/
theorem commaAt_serialize_mul_iff {ws : List Codeword} {k : Nat} {w : Codeword}
    (hw : ws[k]? = some w) : CommaAt (serialize ws) (10 * k) ↔ CommaAt w.lineBits 0 := by
  unfold CommaAt
  rw [drop_serialize_of_getElem? hw, List.drop_zero]
  exact exists_congr fun b => List.isPrefix_append_of_length (by simp [commaLength])

/-! ### The search -/

theorem findCommaFrom_eq_some_iff {m : Nat} : findCommaFrom m bits = some i ↔
    ∃ k, i = m + k ∧ CommaAt bits k ∧ ∀ j < k, ¬ CommaAt bits j := by
  induction bits generalizing m with
  | nil =>
    have hnone : ∀ k, ¬ CommaAt [] k := fun k h => by
      have := h.add_le_length
      simp [commaLength] at this
    simp [findCommaFrom, hnone]
  | cons b bs ih =>
    have hstep : ∀ j, CommaAt (b :: bs) (j + 1) ↔ CommaAt bs j := fun _ => Iff.rfl
    rw [findCommaFrom]
    split
    · rename_i h
      rw [startsWithComma_iff] at h
      constructor
      · rintro ⟨⟩
        exact ⟨0, rfl, h, by simp⟩
      · rintro ⟨k, rfl, -, hk⟩
        cases k with
        | zero => rfl
        | succ k => exact absurd h (hk 0 (by simp))
    · rename_i h
      rw [startsWithComma_iff] at h
      rw [ih]
      constructor
      · rintro ⟨k, rfl, hk, hlt⟩
        refine ⟨k + 1, by omega, (hstep k).2 hk, fun j hj => ?_⟩
        cases j with
        | zero => exact h
        | succ j => exact hlt j (by omega)
      · rintro ⟨k, rfl, hk, hlt⟩
        cases k with
        | zero => exact absurd hk h
        | succ k => exact ⟨k, by omega, hk, fun j hj => hlt (j + 1) (by omega)⟩

/-- The search finds the first comma. -/
theorem findComma_eq_some_iff : findComma bits = some i ↔ IsLeast {j | CommaAt bits j} i := by
  rw [findComma, findCommaFrom_eq_some_iff]
  constructor
  · rintro ⟨k, rfl, hk, hlt⟩
    rw [Nat.zero_add]
    exact ⟨hk, fun j hj => Nat.le_of_not_lt fun h => hlt j h hj⟩
  · rintro ⟨hi, hle⟩
    exact ⟨i, by omega, hi, fun j hj h => Nat.not_le_of_lt hj (hle h)⟩

/-- The search fails when there is no comma. -/
theorem findComma_eq_none_iff : findComma bits = none ↔ ∀ j, ¬ CommaAt bits j := by
  classical
  constructor
  · intro h j hj
    have hex : ∃ j, CommaAt bits j := ⟨j, hj⟩
    have hleast : IsLeast {j | CommaAt bits j} (Nat.find hex) :=
      ⟨Nat.find_spec hex, fun k hk => Nat.find_min' hex hk⟩
    rw [findComma_eq_some_iff.2 hleast] at h
    cases h
  · intro h
    cases hfind : findComma bits with
    | none => rfl
    | some i => exact absurd (findComma_eq_some_iff.1 hfind).1 (h i)

/-- The search goes no further than any comma. -/
theorem exists_findComma_le (h : CommaAt bits i) : ∃ j ≤ i, findComma bits = some j := by
  cases hfind : findComma bits with
  | none => exact absurd h (findComma_eq_none_iff.1 hfind i)
  | some j => exact ⟨j, (findComma_eq_some_iff.1 hfind).2 h, rfl⟩

/-! ### Joining a line -/

/-- Where a comma stands at every boundary in `A`, and from bit `n` on none before the first of
them, a receiver that joins at bit `n` finds that one. -/
theorem findComma_drop {A : Nat → Prop} {n : Nat} (hA : ∀ k, A k → CommaAt bits (10 * k))
    (h : ∀ j, n ≤ j → CommaAt bits j → ∃ k, n ≤ 10 * k ∧ 10 * k ≤ j ∧ A k) :
    (∀ k, IsLeast {k | n ≤ 10 * k ∧ A k} k → findComma (bits.drop n) = some (10 * k - n)) ∧
      ((∀ k, n ≤ 10 * k → ¬ A k) → findComma (bits.drop n) = none) := by
  have hjoin : ∀ j, CommaAt (bits.drop n) j → ∃ k, n ≤ 10 * k ∧ 10 * k ≤ n + j ∧ A k :=
    fun j hj => h (n + j) (by omega) (commaAt_drop_iff.1 hj)
  constructor
  · rintro k ⟨⟨hn, hk⟩, hle⟩
    refine findComma_eq_some_iff.2 ⟨commaAt_drop_iff.2 ?_, fun j hj => ?_⟩
    · rw [show n + (10 * k - n) = 10 * k by omega]
      exact hA k hk
    · obtain ⟨k', hn', hj', hk'⟩ := hjoin j hj
      have : k ≤ k' := hle ⟨hn', hk'⟩
      omega
  · intro hnone
    refine findComma_eq_none_iff.2 fun j hj => ?_
    obtain ⟨k, hn, -, hk⟩ := hjoin j hj
    exact hnone k hn hk

end LineCode
