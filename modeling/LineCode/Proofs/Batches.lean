import LineCode.Proofs.Pushes

/-!
# Batches

An encoder that is given symbols in a batch pushes them one after the other, up to the first
that its table does not list. So a batch is sent when all its symbols are listed, whichever
disparity it starts in (`Encoder.exists_encodeAll_iff`), and then as the symbols pushed one
by one (`Encoder.encodeAll_eq_ok_iff_answers`).

A batch that is refused returns no words. The words before the refused symbol have been on
the line all the same: the encoder is where they lead, and nothing after that symbol has
moved it (`Encoder.encodeAll_eq_error_iff`). A batch that is cut in two is therefore the two
batches, the second of which is begun only when the first was sent.
-/

namespace LineCode.Encoder

variable {tx tx' : Encoder} {s : Symbol} {as bs ss : List Symbol} {us ws : List Codeword}
  {u : Unsupported}

/-! ### Batches that are sent -/

/-- A batch is sent when every symbol in it is listed. -/
theorem exists_encodeAll_iff : (∃ ws tx', tx.encodeAll ss = (.ok ws, tx')) ↔
    ∀ s ∈ ss, (tx.codec.table.get? s).isSome := by
  constructor
  · rintro ⟨ws, tx', h⟩
    exact (encodeAll_eq_ok_iff.1 h).1.isSome_get?
  · intro h
    obtain ⟨ws, e, hs⟩ := Table.exists_sends h tx.rd
    exact ⟨ws, ⟨tx.codec, e⟩, encodeAll_eq_ok_iff.2 ⟨hs, rfl⟩⟩

/-- A batch that is sent is its symbols pushed one by one, none of them refused. -/
theorem encodeAll_eq_ok_iff_answers : tx.encodeAll ss = (.ok ws, tx') ↔
    tx.answers ss = ws.map .ok ∧ tx.pushed ss = tx' := by
  induction ss generalizing tx ws with
  | nil => simp [encodeAll, answers, pushed, eq_comm]
  | cons s ss ih =>
    rw [encodeAll_cons_eq_ok_iff]
    constructor
    · rintro ⟨w, vs, tx₁, hpush, hrest, rfl⟩
      obtain ⟨hanswers, hpushed⟩ := ih.1 hrest
      simp [answers, pushed, hpush, hanswers, hpushed]
    · rintro ⟨hanswers, hpushed⟩
      cases ws with
      | nil => simp [answers] at hanswers
      | cons w vs =>
        obtain ⟨hw, hvs⟩ := List.cons.inj hanswers
        exact ⟨w, vs, (tx.push s).2, Prod.ext hw rfl, ih.2 ⟨hvs, hpushed⟩, rfl⟩

/-- After a batch that was sent, the symbols that follow it are sent from where it ended. -/
theorem encodeAll_append_of_ok (h : tx.encodeAll as = (.ok us, tx')) :
    tx.encodeAll (as ++ bs) = ((tx'.encodeAll bs).1.map (us ++ ·), (tx'.encodeAll bs).2) := by
  induction as generalizing tx us with
  | nil =>
    cases h
    rw [List.nil_append]
    exact Prod.ext (by cases (tx'.encodeAll bs).1 <;> rfl) rfl
  | cons a as ih =>
    obtain ⟨w, vs, tx₁, hpush, hrest, rfl⟩ := encodeAll_cons_eq_ok_iff.1 h
    rw [List.cons_append, encodeAll, hpush]
    simp only [ih hrest]
    exact Prod.ext (by cases (tx'.encodeAll bs).1 <;> rfl) rfl

/-! ### Batches that are refused -/

/-- The first symbol that is not listed ends a batch, and the encoder is where the symbols before
it lead. -/
theorem encodeAll_append_cons (h : tx.encodeAll as = (.ok us, tx'))
    (hs : tx.codec.table.get? s = none) : tx.encodeAll (as ++ s :: bs) = (.error ⟨s⟩, tx') := by
  obtain ⟨-, hcodec⟩ := encodeAll_eq_ok_iff.1 h
  have hrefused : tx'.encodeAll (s :: bs) = (.error ⟨s⟩, tx') := by
    rw [encodeAll, push_of_get?_none (by rw [hcodec, hs])]
  rw [encodeAll_append_of_ok h, hrefused]
  rfl

/-- A batch is refused for its first symbol that is not listed. -/
theorem encodeAll_eq_error_iff : tx.encodeAll ss = (.error u, tx') ↔
    ∃ as bs us, ss = as ++ u.symbol :: bs ∧ tx.encodeAll as = (.ok us, tx') ∧
      tx.codec.table.get? u.symbol = none := by
  constructor
  · intro h
    have hno : ¬ ∀ s ∈ ss, (tx.codec.table.get? s).isSome := by
      rw [← exists_encodeAll_iff, h]
      simp
    obtain ⟨s, hfind⟩ : ∃ s, ss.find? (fun s => !(tx.codec.table.get? s).isSome) = some s := by
      rw [← Option.isSome_iff_exists, List.find?_isSome]
      simpa using hno
    obtain ⟨hs, as, bs, rfl, has⟩ := List.find?_eq_some_iff_append.1 hfind
    obtain ⟨us, tx₁, hsent⟩ := exists_encodeAll_iff.2 (by simpa using has)
    have hs : tx.codec.table.get? s = none := by simpa using hs
    rw [encodeAll_append_cons hsent hs] at h
    cases h
    exact ⟨as, bs, us, rfl, hsent, hs⟩
  · rintro ⟨as, bs, us, rfl, hsent, hs⟩
    exact encodeAll_append_cons hsent hs

/-- After a batch that was refused, nothing that follows it is sent. -/
theorem encodeAll_append_of_error (h : tx.encodeAll as = (.error u, tx')) :
    tx.encodeAll (as ++ bs) = (.error u, tx') := by
  obtain ⟨before, after, us, rfl, hsent, hs⟩ := encodeAll_eq_error_iff.1 h
  rw [List.append_assoc, List.cons_append, encodeAll_append_cons hsent hs]

/-! ### What a batch does -/

/-- What the encoder `tx` makes of the batch `ss`. -/
structure StopsAtRefusal (tx : Encoder) (ss : List Symbol) : Prop where
  /-- The batch is sent when every symbol is listed, whichever disparity it starts in, -/
  sent_iff : (∃ ws tx', tx.encodeAll ss = (.ok ws, tx')) ↔
    ∀ s ∈ ss, (tx.codec.table.get? s).isSome
  /-- and then as the symbols pushed one by one are. -/
  sent_iff_answers : ∀ ws tx', tx.encodeAll ss = (.ok ws, tx') ↔
    tx.answers ss = ws.map .ok ∧ tx.pushed ss = tx'
  /-- What follows a batch that was sent is sent from where it ended, its words after those of the
  batch. -/
  append_of_ok : ∀ ss' us tx₁, tx.encodeAll ss = (.ok us, tx₁) →
    tx.encodeAll (ss ++ ss') = ((tx₁.encodeAll ss').1.map (us ++ ·), (tx₁.encodeAll ss').2)
  /-- What follows a batch that was refused makes no difference. -/
  append_of_error : ∀ ss' u tx₁, tx.encodeAll ss = (.error u, tx₁) →
    tx.encodeAll (ss ++ ss') = (.error u, tx₁)
  /-- A batch is refused for its first symbol that is not listed, and the encoder is left where the
  batch of the symbols before it leaves it. -/
  refused_iff : ∀ u tx', tx.encodeAll ss = (.error u, tx') ↔
    ∃ before after, ss = before ++ u.symbol :: after ∧
      (∀ s ∈ before, (tx.codec.table.get? s).isSome) ∧ tx.codec.table.get? u.symbol = none ∧
      (tx.encodeAll before).2 = tx'

/-- **Batches**: an encoder of any codec, in either disparity, sends a batch of symbols up to the
first that is not listed, and stops there. -/
theorem stopsAtRefusal_of_batch (tx : Encoder) (ss : List Symbol) : tx.StopsAtRefusal ss where
  sent_iff := exists_encodeAll_iff
  sent_iff_answers _ _ := encodeAll_eq_ok_iff_answers
  append_of_ok _ _ _ := encodeAll_append_of_ok
  append_of_error _ _ _ := encodeAll_append_of_error
  refused_iff u tx' := by
    rw [encodeAll_eq_error_iff]
    constructor
    · rintro ⟨before, after, us, rfl, hsent, hs⟩
      exact ⟨before, after, rfl, exists_encodeAll_iff.1 ⟨us, tx', hsent⟩, hs, by rw [hsent]⟩
    · rintro ⟨before, after, rfl, hlisted, hs, rfl⟩
      obtain ⟨us, tx₁, hsent⟩ := exists_encodeAll_iff.2 hlisted
      exact ⟨before, after, us, rfl, by rw [hsent], hs⟩

end LineCode.Encoder
