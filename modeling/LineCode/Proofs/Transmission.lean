import LineCode.Stream
import LineCode.Serial
import LineCode.Proofs.Lookup

/-!
# Transmissions

`Table.Sends` says which words a line carries for some symbols, by the table alone: each
symbol as its word for the disparity that the word before it left. An encoder that sends
all its symbols has made a transmission of its table (`Encoder.encodeAll_eq_ok_iff`), and
every list of listed symbols has one (`Table.exists_sends`). A transmission can be cut
after any of its words (`Table.Sends.split`), and seen from any bit of its line
(`Table.Sends.drop_serialize`), so that a short pattern on the line is met in one word or
across the seam of two (`Table.Sends.exists_of_isPrefix_drop`).
-/

namespace LineCode

/-- `t.Sends d ss ws e`: from disparity `d` the symbols `ss` are sent as the words `ws`,
which leave the line in `e`. -/
inductive Table.Sends (t : Table) :
    Disparity → List Symbol → List Codeword → Disparity → Prop
  /-- Nothing is sent. -/
  | nil {d} : Sends t d [] [] d
  /-- A symbol is sent as its word, then the rest from where the word leaves the line. -/
  | cons {d e f s w ss ws} : ⟨d, s, e, w⟩ ∈ t.productions → Sends t e ss ws f →
      Sends t d (s :: ss) (w :: ws) f

/-! ### Encoders -/

namespace Encoder

variable {tx tx' : Encoder} {s : Symbol} {w : Codeword} {ss : List Symbol} {ws : List Codeword}

theorem push_eq_ok_iff : tx.push s = (.ok w, tx') ↔
    ⟨tx.rd, s, tx'.rd, w⟩ ∈ tx.codec.table.productions ∧ tx'.codec = tx.codec := by
  rw [← Codec.encode_eq_ok_iff]
  obtain ⟨c, d⟩ := tx
  obtain ⟨c', d'⟩ := tx'
  unfold push
  cases h : c.encode s d with
  | error u => simp
  | ok sent => cases sent; simp; tauto

theorem encodeAll_cons_eq_ok_iff : tx.encodeAll (s :: ss) = (.ok ws, tx') ↔
    ∃ w vs tx₁, tx.push s = (.ok w, tx₁) ∧ tx₁.encodeAll ss = (.ok vs, tx') ∧ w :: vs = ws := by
  rw [encodeAll]
  rcases tx.push s with ⟨_ | w, tx₁⟩
  · simp
  · rcases h : tx₁.encodeAll ss with ⟨_ | vs, tx₂⟩ <;> simp [h, Except.map]
    tauto

/-- An encoder sends all its symbols when they have a transmission, and then as it says. -/
theorem encodeAll_eq_ok_iff : tx.encodeAll ss = (.ok ws, tx') ↔
    tx.codec.table.Sends tx.rd ss ws tx'.rd ∧ tx'.codec = tx.codec := by
  induction ss generalizing tx ws with
  | nil =>
    obtain ⟨c, d⟩ := tx
    obtain ⟨c', d'⟩ := tx'
    constructor
    · intro h
      cases h
      exact ⟨.nil, rfl⟩
    · rintro ⟨h, rfl⟩
      cases h
      rfl
  | cons s ss ih =>
    rw [encodeAll_cons_eq_ok_iff]
    constructor
    · rintro ⟨w, vs, tx₁, hpush, hall, rfl⟩
      obtain ⟨hp, hc₁⟩ := push_eq_ok_iff.1 hpush
      obtain ⟨hs, hc⟩ := ih.1 hall
      rw [hc₁] at hs hc
      exact ⟨.cons hp hs, hc⟩
    · rintro ⟨h, hc⟩
      cases h with
      | @cons _ e _ _ w _ vs hp hs =>
        exact ⟨w, vs, ⟨tx.codec, e⟩, push_eq_ok_iff.2 ⟨hp, rfl⟩, ih.2 ⟨hs, hc⟩, rfl⟩

end Encoder

namespace Table

variable {t : Table} {d e : Disparity} {ss : List Symbol} {ws : List Codeword}

/-! ### Transmissions -/

theorem Sends.encodeAll {c : Codec} (h : c.table.Sends d ss ws e) :
    (Encoder.mk c d).encodeAll ss = (.ok ws, ⟨c, e⟩) :=
  Encoder.encodeAll_eq_ok_iff.2 ⟨h, rfl⟩

/-- Symbols of the table can be sent from every disparity. -/
theorem exists_sends (hs : ∀ s ∈ ss, (t.get? s).isSome) (d : Disparity) :
    ∃ ws e, t.Sends d ss ws e := by
  induction ss generalizing d with
  | nil => exact ⟨[], d, .nil⟩
  | cons s ss ih =>
    obtain ⟨w, e, hp⟩ := (exists_production_iff d).2 (hs s (by simp))
    obtain ⟨ws, f, hw⟩ := ih (fun s' hs' => hs s' (by simp [hs'])) e
    exact ⟨w :: ws, f, .cons hp hw⟩

namespace Sends

theorem length_eq (h : t.Sends d ss ws e) : ws.length = ss.length := by
  induction h with
  | nil => rfl
  | cons _ _ ih => simp [ih]

/-- Only symbols of the table are sent. -/
theorem isSome_get? (h : t.Sends d ss ws e) : ∀ s ∈ ss, (t.get? s).isSome := by
  induction h with
  | nil => simp
  | cons hp _ ih =>
    intro s hs
    obtain rfl | hs := List.mem_cons.1 hs
    · exact (exists_production_iff _).1 ⟨_, _, hp⟩
    · exact ih s hs

/-- A transmission cut after `i` symbols is two, the second from where the first ends. -/
theorem split (h : t.Sends d ss ws e) (i : Nat) :
    ∃ m, t.Sends d (ss.take i) (ws.take i) m ∧ t.Sends m (ss.drop i) (ws.drop i) e := by
  induction h generalizing i with
  | nil => exact ⟨_, by simpa using .nil, by simpa using .nil⟩
  | cons hp hs ih =>
    cases i with
    | zero => exact ⟨_, .nil, .cons hp hs⟩
    | succ i =>
      obtain ⟨m, h₁, h₂⟩ := ih i
      exact ⟨m, .cons hp h₁, h₂⟩

/-- A symbol is sent from where the symbols before it leave the line, and the symbols up to it
leave the line where its word does. -/
theorem getElem? {i : Nat} {s : Symbol} (h : t.Sends d ss ws e) (hs : ss[i]? = some s) :
    ∃ m m' w, ws[i]? = some w ∧ ⟨m, s, m', w⟩ ∈ t.productions ∧
      t.Sends d (ss.take i) (ws.take i) m ∧ t.Sends d (ss.take (i + 1)) (ws.take (i + 1)) m' := by
  induction h generalizing i with
  | nil => simp at hs
  | cons hp _ ih =>
    cases i with
    | zero =>
      cases hs
      exact ⟨_, _, _, rfl, hp, .nil, .cons hp .nil⟩
    | succ i =>
      obtain ⟨m, m', w, hw, hmem, h₁, h₂⟩ := ih hs
      exact ⟨m, m', w, hw, hmem, .cons hp h₁, .cons hp h₂⟩

/-- Seen from bit `j`, a line shows the rest of the word that `j` is in, then the words of what
is sent after it. -/
theorem drop_serialize {j : Nat} (h : t.Sends d ss ws e) (hj : j < 10 * ss.length) :
    ∃ p ∈ t.productions, ∃ ss' ws', ss.drop (j / 10) = p.symbol :: ss' ∧
      t.Sends p.rdOut ss' ws' e ∧
      (serialize ws).drop j = p.word.lineBits.drop (j % 10) ++ serialize ws' := by
  obtain ⟨m, -, hm⟩ := h.split (j / 10)
  generalize hss : ss.drop (j / 10) = rest at hm
  generalize hws : ws.drop (j / 10) = words at hm
  cases hm with
  | nil =>
    have := congrArg List.length hss
    simp at this
    omega
  | @cons _ m' _ s w ss' ws' hp hs =>
    refine ⟨_, hp, ss', ws', rfl, hs, ?_⟩
    have hcut : (serialize ws).drop (10 * (j / 10)) = w.lineBits ++ serialize ws' := by
      rw [drop_serialize_mul, hws, serialize_cons]
    calc (serialize ws).drop j
        = ((serialize ws).drop (10 * (j / 10))).drop (j % 10) := by
          rw [List.drop_drop, Nat.div_add_mod]
      _ = w.lineBits.drop (j % 10) ++ serialize ws' := by
          rw [hcut, List.drop_append_of_le_length (by simp; omega)]

/-- A pattern no longer than a word lies within the word that it starts in, or runs from there
into the next word. -/
theorem exists_of_isPrefix_drop {pat : List Bool} {j : Nat} (h : t.Sends d ss ws e)
    (hne : pat ≠ []) (hlen : pat.length ≤ 10) (hpat : pat <+: (serialize ws).drop j) :
    ∃ p ∈ t.productions, ss[j / 10]? = some p.symbol ∧
      (pat <+: p.word.lineBits.drop (j % 10) ∨
        10 - j % 10 < pat.length ∧ p.word.lineBits.drop (j % 10) = pat.take (10 - j % 10) ∧
          ∃ q ∈ t.productions, q.rdIn = p.rdOut ∧ pat.drop (10 - j % 10) <+: q.word.lineBits) := by
  have hj : j < 10 * ss.length := by
    by_contra hle
    rw [List.drop_eq_nil_of_le (by rw [length_serialize, h.length_eq]; omega)] at hpat
    exact hne (List.prefix_nil.1 hpat)
  obtain ⟨p, hp, ss', ws', hss, hs, hbits⟩ := h.drop_serialize hj
  refine ⟨p, hp, by rw [← List.head?_drop, hss]; rfl, ?_⟩
  rw [hbits] at hpat
  generalize hu : p.word.lineBits.drop (j % 10) = u at hpat ⊢
  have hulen : u.length = 10 - j % 10 := by rw [← hu]; simp
  by_cases hfit : pat.length ≤ u.length
  · exact .inl (List.prefix_of_prefix_length_le hpat (List.prefix_append _ _) hfit)
  · obtain ⟨v, rfl⟩ := List.prefix_of_prefix_length_le (List.prefix_append u _) hpat (by omega)
    rw [List.prefix_append_right_inj] at hpat
    rw [List.length_append] at hfit hlen
    refine .inr ⟨by rw [List.length_append]; omega, by rw [← hulen, List.take_left], ?_⟩
    rw [← hulen, List.drop_left]
    cases hs with
    | nil =>
      obtain rfl : v = [] := List.prefix_nil.1 hpat
      simp at hfit
    | cons hq _ =>
      refine ⟨_, hq, rfl, List.prefix_of_prefix_length_le hpat (List.prefix_append _ _) ?_⟩
      rw [Codeword.length_lineBits]
      omega

end Sends

end Table

end LineCode
