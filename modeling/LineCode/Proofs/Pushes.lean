import LineCode.Proofs.Transmission

/-!
# Pushes

An encoder is driven symbol by symbol and may be given any symbols at all. Its answers are
taken one by one (`Encoder.answers`), refusals among them, and it goes on from where each
leaves it (`Encoder.pushed`). One that the table does not list is refused and leaves the
encoder as it was (`Encoder.push_of_get?_none`), so whatever the calls, the words that come
out are a transmission of the symbols that are listed (`Encoder.sends_pushed`).
-/

namespace LineCode.Encoder

/-- What an encoder answers to symbols pushed one after the other. -/
def answers (tx : Encoder) : List Symbol → List (Except Unsupported Codeword)
  | [] => []
  | s :: ss => (tx.push s).1 :: (tx.push s).2.answers ss

/-- An encoder after symbols have been pushed one after the other. -/
def pushed (tx : Encoder) : List Symbol → Encoder
  | [] => tx
  | s :: ss => (tx.push s).2.pushed ss

/-- The words among answers. -/
def wordsOf (as : List (Except Unsupported Codeword)) : List Codeword :=
  as.filterMap Except.toOption

variable {tx : Encoder} {s : Symbol} {ss : List Symbol} {i : Nat}

/-! ### One push -/

/-- A symbol that is not listed is refused, and the encoder stays as it is. -/
theorem push_of_get?_none (h : tx.codec.table.get? s = none) : tx.push s = (.error ⟨s⟩, tx) := by
  unfold push
  rw [Codec.encode_eq_error_iff.2 ⟨h, rfl⟩]

/-- A symbol that is listed is sent as its word, and the encoder goes where the word leads. -/
theorem exists_push (h : (tx.codec.table.get? s).isSome) : ∃ w e,
    ⟨tx.rd, s, e, w⟩ ∈ tx.codec.table.productions ∧ tx.push s = (.ok w, ⟨tx.codec, e⟩) := by
  obtain ⟨w, e, hp⟩ := (Table.exists_production_iff tx.rd).2 h
  exact ⟨w, e, hp, push_eq_ok_iff.2 ⟨hp, rfl⟩⟩

/-- A symbol is refused when it is not listed, and only then. -/
theorem push_eq_error_iff {u : Unsupported} :
    (tx.push s).1 = .error u ↔ tx.codec.table.get? s = none ∧ u = ⟨s⟩ := by
  cases h : tx.codec.table.get? s with
  | none => simp [push_of_get?_none h, eq_comm]
  | some n =>
    obtain ⟨w, e, -, hpush⟩ := exists_push (Option.isSome_of_mem h)
    simp [hpush]

/-! ### Runs of pushes -/

@[simp] theorem length_answers : (tx.answers ss).length = ss.length := by
  induction ss generalizing tx with
  | nil => rfl
  | cons s ss ih => simp [answers, ih]

/-- The first `i` answers are those to the first `i` symbols. -/
theorem take_answers (i : Nat) : (tx.answers ss).take i = tx.answers (ss.take i) := by
  induction ss generalizing tx i with
  | nil => simp [answers]
  | cons s ss ih =>
    cases i with
    | zero => rfl
    | succ i => simp [answers, ih]

/-- A symbol is answered by the encoder after the symbols before it, -/
theorem getElem?_answers (i : Nat) :
    (tx.answers ss)[i]? = ss[i]?.map fun s => ((tx.pushed (ss.take i)).push s).1 := by
  induction ss generalizing tx i with
  | nil => simp [answers]
  | cons s ss ih =>
    cases i with
    | zero => rfl
    | succ i => simp [answers, pushed, ih]

/-- and takes that encoder on. -/
theorem pushed_take_succ (h : ss[i]? = some s) :
    tx.pushed (ss.take (i + 1)) = ((tx.pushed (ss.take i)).push s).2 := by
  induction ss generalizing tx i with
  | nil => simp at h
  | cons r ss ih =>
    cases i with
    | zero => cases h; rfl
    | succ i => exact ih h

/-- Whatever is pushed, the words that come out are a transmission of the symbols that are
listed. -/
theorem sends_pushed (tx : Encoder) (ss : List Symbol) :
    tx.codec.table.Sends tx.rd (ss.filter fun s => (tx.codec.table.get? s).isSome)
        (wordsOf (tx.answers ss)) (tx.pushed ss).rd ∧ (tx.pushed ss).codec = tx.codec := by
  induction ss generalizing tx with
  | nil => exact ⟨.nil, rfl⟩
  | cons s ss ih =>
    cases h : tx.codec.table.get? s with
    | none =>
      simp only [answers, pushed, push_of_get?_none h]
      rw [List.filter_cons_of_neg (by simp [h])]
      exact ih tx
    | some n =>
      obtain ⟨w, e, hp, hpush⟩ := exists_push (Option.isSome_of_mem h)
      simp only [answers, pushed, hpush]
      rw [List.filter_cons_of_pos (by simp [h])]
      obtain ⟨hs, hc⟩ := ih ⟨tx.codec, e⟩
      exact ⟨.cons hp hs, hc⟩

end LineCode.Encoder
