import LineCode.Proofs.Pushes
import LineCode.Proofs.Weight
import Mathlib.Data.Bool.Count

/-!
# Balance

A line has no direct current: counted from the sign of the first disparity, ones minus
zeros are `+1` or `-1` after every word, however many words there have been, and the
disparity of the encoder says which (`balanced_of_pushes`). Symbols that are refused on the
way make no difference.

Within a word the count strays further. How far is a matter of the single words: what holds
of the counts within each word of a table holds of those on all its lines
(`Table.Sends.forall_mem_runningSums`). On a standard line the count is never more than three
away from zero.
-/

namespace LineCode

/-- Ones minus zeros of a line, counted from the sign of the disparity that it starts in. -/
def lineSum (d : Disparity) (ws : List Codeword) : Int :=
  d.sign + ((serialize ws).count true - (serialize ws).count false)

theorem excess_eq_sub (bs : List Bool) : excess bs = bs.count true - bs.count false := by
  have hlength := List.count_true_add_count_false bs
  rw [excess_eq]
  omega

namespace Table.Sends

variable {t : Table} {d e : Disparity} {ss : List Symbol} {ws : List Codeword}

/-- A transmission ends in the disparity whose sign is the count. -/
theorem lineSum_eq (h : t.Sends d ss ws e) : lineSum d ws = e.sign := by
  rw [h.sign_eq, excess_eq_sub]
  rfl

/-- What holds of the counts within the words of a table holds of those on its lines. -/
theorem forall_mem_runningSums {P : Int → Prop} (h : t.Sends d ss ws e)
    (hP : ∀ p ∈ t.productions, ∀ n ∈ runningSums p.rdIn.sign p.word.lineBits, P n) :
    ∀ n ∈ runningSums d.sign (serialize ws), P n := by
  induction h with
  | nil => simp [runningSums]
  | @cons d e _ _ w _ _ hp _ ih =>
    -- The first word takes the count from the sign of `d` to that of `e`.
    have hw : d.sign + excess w.lineBits = e.sign := evolve_eq_some_iff.1 (evolve_of_mem hp)
    intro n hn
    rw [serialize_cons, runningSums_append, hw, List.mem_append] at hn
    obtain hn | hn := hn
    · exact hP _ hp n hn
    · exact ih n hn

end Table.Sends

/-- Within a word of the standard the count is never more than three away from zero. -/
theorem mem_runningSums_standard {p : Production} (hp : p ∈ Table.standard.productions) :
    ∀ n ∈ runningSums p.rdIn.sign p.word.lineBits, -3 ≤ n ∧ n ≤ 3 :=
  Table.forall_lineBits_standard
    (P := fun _ d bits => ∀ n ∈ runningSums d.sign bits, -3 ≤ n ∧ n ≤ 3) (by decide +kernel) p hp

/-- The counts on the line of an encoder `tx` that is pushed the symbols `ss`. -/
structure Encoder.Balanced (tx : Encoder) (ss : List Symbol) : Prop where
  /-- Every symbol has an answer. -/
  length_answers : (tx.answers ss).length = ss.length
  /-- After each answer the count is the sign of the encoder's disparity, -/
  lineSum_eq : ∀ i, lineSum tx.rd (wordsOf ((tx.answers ss).take i)) =
    (tx.pushed (ss.take i)).rd.sign
  /-- so it is `+1` or `-1`. -/
  boundary : ∀ i, lineSum tx.rd (wordsOf ((tx.answers ss).take i)) = 1 ∨
    lineSum tx.rd (wordsOf ((tx.answers ss).take i)) = -1
  /-- The answer is a refusal when the symbol is not listed, and only then, -/
  refused_iff : ∀ (i : Nat) (s : Symbol), ss[i]? = some s →
    ((∃ u, (tx.answers ss)[i]? = some (.error u)) ↔ tx.codec.table.get? s = none)
  /-- and a refusal changes nothing. -/
  unchanged : ∀ (i : Nat) (u : Unsupported), (tx.answers ss)[i]? = some (.error u) →
    tx.pushed (ss.take (i + 1)) = tx.pushed (ss.take i)
  /-- The counts after the single bits of a standard line are from `-3` to `3`. -/
  within : tx.codec.table = .standard →
    ∀ n ∈ runningSums tx.rd.sign (serialize (wordsOf (tx.answers ss))), -3 ≤ n ∧ n ≤ 3

/-- **Balance**: whatever symbols an encoder of any codec is pushed from either disparity, after
each of them its disparity is the sign of ones minus zeros on its line. -/
theorem balanced_of_pushes (tx : Encoder) (ss : List Symbol) : tx.Balanced ss := by
  have hsum : ∀ i, lineSum tx.rd (Encoder.wordsOf ((tx.answers ss).take i)) =
      (tx.pushed (ss.take i)).rd.sign := by
    intro i
    rw [Encoder.take_answers]
    exact (tx.sends_pushed (ss.take i)).1.lineSum_eq
  refine {
    length_answers := Encoder.length_answers
    lineSum_eq := hsum
    boundary := fun i => ?_
    refused_iff := fun i s hs => ?_
    unchanged := fun i u hu => ?_
    within := fun hstd => ?_ }
  · rw [hsum]
    exact Disparity.sign_eq_or _
  · rw [Encoder.getElem?_answers, hs, Option.map_some]
    simp only [Option.some_inj, Encoder.push_eq_error_iff, (tx.sends_pushed (ss.take i)).2]
    exact ⟨fun ⟨_, h, _⟩ => h, fun h => ⟨_, h, rfl⟩⟩
  · rw [Encoder.getElem?_answers, Option.map_eq_some_iff] at hu
    obtain ⟨s, hs, hrefused⟩ := hu
    obtain ⟨hno, -⟩ := Encoder.push_eq_error_iff.1 hrefused
    rw [Encoder.pushed_take_succ hs, Encoder.push_of_get?_none hno]
  · have hsends := (tx.sends_pushed ss).1
    rw [hstd] at hsends
    exact hsends.forall_mem_runningSums fun _ hp => mem_runningSums_standard hp

end LineCode
