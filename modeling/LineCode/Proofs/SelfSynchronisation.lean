import LineCode.Proofs.Producers
import LineCode.Proofs.Reception

/-!
# Self-synchronisation

A decoder that joins a line may be in the wrong disparity. A word that it can read there
all the same is balanced, so the error stays and does no harm; the first word that it
cannot read is a fault, after which it takes up the disparity that the word leaves from
the other state, and that is the disparity of the line. So a decoder sees at most one
fault, and none after the two disparities have met (`Decoder.countP_isFault_le_one`,
`Decoder.rd_after_of_isFault`). When the table has no anomaly, every symbol that it reads
meanwhile is the one that was sent (`exists_selfSync`).
-/

namespace LineCode

namespace Decoder

variable {rx : Decoder} {d e : Disparity} {ss : List Symbol} {ws : List Codeword}

/-- A fault brings the decoder into the disparity of the line. -/
theorem next_of_isFault {s : Symbol} {w : Codeword}
    (h : ⟨d, s, e, w⟩ ∈ rx.codec.table.productions) (hf : (rx.event w).isFault = true) :
    rx.next w = e := by
  by_cases hd : rx.rd = d
  · subst hd
    rw [event_of_mem h] at hf
    cases hf
  · rw [Disparity.eq_flip_of_ne (Ne.symm hd)] at h
    unfold next
    cases hdec : rx.codec.decode w rx.rd with
    | ok r => rw [event_eq_symbol_iff.2 hdec] at hf; cases hf
    | error r => rw [Codec.decode_of_mem h]

/-- A decoder that starts in the disparity of the line, or sees a fault, ends in it. -/
theorem rd_after_of_isFault (h : rx.codec.table.Sends d ss ws e)
    (hsync : rx.rd = d ∨ ∃ ev ∈ rx.events ws, ev.isFault = true) : (rx.after ws).rd = e := by
  generalize ht : rx.codec.table = t at h
  induction h generalizing rx with
  | nil => simpa using hsync
  | @cons d e _ _ w _ _ hp hs ih =>
    subst ht
    rcases hsync with hd | ⟨ev, hev, hf⟩
    · exact rd_after (.cons hp hs) hd
    · rw [after_cons]
      rw [events_cons] at hev
      rcases List.mem_cons.1 hev with rfl | hev
      · exact ih (.inl (next_of_isFault hp hf)) rfl
      · exact ih (.inr ⟨ev, hev, hf⟩) rfl

/-- A decoder sees at most one fault in a transmission. -/
theorem countP_isFault_le_one (h : rx.codec.table.Sends d ss ws e) :
    (rx.events ws).countP Event.isFault ≤ 1 := by
  generalize ht : rx.codec.table = t at h
  induction h generalizing rx with
  | nil => simp
  | @cons d e _ _ w _ ws hp hs ih =>
    subst ht
    rw [events_cons]
    cases hf : (rx.event w).isFault with
    | false =>
      rw [List.countP_cons_of_neg (by simp [hf])]
      exact ih rfl
    | true =>
      have hin : (rx.push w).2.rd = e := next_of_isFault hp hf
      have hquiet : ((rx.push w).2.events ws).countP Event.isFault = 0 :=
        countP_isFault_eq_zero hs hin
      rw [List.countP_cons_of_pos hf]
      omega

/-- A word that stands for one symbol only is read as it, in whichever disparity. -/
theorem symbol_of_event {s : Symbol} {w : Codeword} {r : Decoded}
    (hc : rx.codec.table.anomalies = []) (h : ⟨d, s, e, w⟩ ∈ rx.codec.table.productions)
    (hev : rx.event w = .symbol r) : r.symbol = s := by
  have hr := (Codec.decode_eq_ok_iff.1 (event_eq_symbol_iff.1 hev)).1
  exact Table.anomalies_eq_nil_iff.1 hc _ hr _ h rfl

/-- When a word of the standard is a fault, the strict detector fires. -/
theorem disparityError_of_event {s : Symbol} {w : Codeword} {r : Rejected}
    (hc : rx.codec = .standard) (h : ⟨d, s, e, w⟩ ∈ rx.codec.table.productions)
    (hev : rx.event w = .fault r) : r.disparityError = true := by
  obtain ⟨hno, rfl⟩ := Codec.decode_eq_error_iff.1 (event_eq_fault_iff.1 hev)
  have hd : rx.rd ≠ d := fun hd => hno s e (hd ▸ h)
  rw [Disparity.eq_flip_of_ne hd] at hno ⊢
  rw [hc, Codec.table_standard] at h hno
  rw [hc, Codec.detector_standard]
  rcases exists_or_flags_flip_standard h with ⟨s', e', h'⟩ | hflags
  · exact absurd h' (hno s' e')
  · exact hflags

end Decoder

/-! ### A decoder in any state -/

/-- What a decoder `rx` in any state makes of the words `ws` that an encoder `tx` sends for
`ss`. -/
structure SelfSync (tx : Encoder) (rx : Decoder) (ss : List Symbol) (ws : List Codeword)
    (es : List Event) : Prop where
  /-- All symbols are sent. -/
  sent : (tx.encodeAll ss).1 = .ok ws
  /-- All words are received. -/
  received : (rx.decodeAll ws).1 = es
  length_events : es.length = ss.length
  /-- At most one word is a fault. -/
  faults : es.countP Event.isFault ≤ 1
  /-- A word that is no fault is read as the symbol sent. -/
  symbol : ∀ (i : Nat) (s : Symbol) (r : Decoded), ss[i]? = some s →
    es[i]? = some (.symbol r) → r.symbol = s
  /-- From the fault on, or from the start if the disparities agree there, both ends are in the
  same disparity and there is no fault. -/
  inStep : ∀ i : Nat, (rx.rd = tx.rd ∨ ∃ j < i, ∃ r, es[j]? = some (.fault r)) →
    (rx.decodeAll (ws.take i)).2.rd = (tx.encodeAll (ss.take i)).2.rd ∧
      ∀ k r, i ≤ k → es[k]? ≠ some (.fault r)

variable {c : Codec} {rx : Decoder} {d e : Disparity} {ss : List Symbol} {ws : List Codeword}

/-- A transmission to a decoder in any state. -/
theorem selfSync_of_sends (hrx : rx.codec = c) (hc : c.table.anomalies = [])
    (h : c.table.Sends d ss ws e) : SelfSync ⟨c, d⟩ rx ss ws (rx.events ws) where
  sent := congrArg Prod.fst h.encodeAll
  received := rfl
  length_events := by rw [Decoder.length_events, h.length_eq]
  faults := Decoder.countP_isFault_le_one (hrx ▸ h)
  symbol := by
    intro i s r hs hev
    obtain ⟨m, s', m', w, hs', hp, hev⟩ := Decoder.exists_of_getElem?_events h hev
    obtain rfl : s' = s := Option.some.inj (hs'.symm.trans hs)
    have hcodec : (rx.after (ws.take i)).codec = c := Decoder.codec_after.trans hrx
    exact Decoder.symbol_of_event (hcodec ▸ hc) (hcodec ▸ hp) hev
  inStep := by
    intro i hsync
    obtain ⟨m, hbefore, hrest⟩ := h.split i
    have hrd : (rx.after (ws.take i)).rd = m := by
      refine Decoder.rd_after_of_isFault (hrx ▸ hbefore) (hsync.imp_right ?_)
      rintro ⟨j, hj, r, hr⟩
      rw [← List.getElem?_take_of_lt hj, Decoder.take_events] at hr
      exact ⟨_, List.mem_of_getElem? hr, rfl⟩
    refine ⟨hrd.trans (congrArg (·.2.rd) hbefore.encodeAll).symm, fun k r hk hr => ?_⟩
    have hlate : ((rx.events ws).drop i)[k - i]? = some (.fault r) := by
      rw [List.getElem?_drop, Nat.add_sub_cancel' hk, hr]
    rw [Decoder.drop_events] at hlate
    have hcodec : (rx.after (ws.take i)).codec = c := Decoder.codec_after.trans hrx
    have hno := Decoder.isFault_of_mem_events (hcodec ▸ hrest) hrd _ (List.mem_of_getElem? hlate)
    cases hno

/-- **Self-synchronisation**: a decoder that has received any words whatever, from any
disparity, sees at most one fault in what an encoder of the same codec sends, reads no
symbol wrongly, and from the fault on keeps the disparity of the line; if the two
disparities agree at the start there is no fault at all. For the standard codec the strict
detector fires on the fault. -/
theorem exists_selfSync (c : Codec) (hc : c.table.anomalies = []) (ss : List Symbol)
    (hs : ∀ s ∈ ss, (c.table.get? s).isSome) (d d₀ : Disparity) (us : List Codeword) :
    ∃ ws es, SelfSync ⟨c, d⟩ ((Decoder.start c d₀).decodeAll us).2 ss ws es ∧
      (c = .standard → ∀ r, .fault r ∈ es → r.disparityError = true) := by
  obtain ⟨ws, e, h⟩ := Table.exists_sends hs d
  have hrx : ((Decoder.start c d₀).after us).codec = c := Decoder.codec_after
  refine ⟨ws, _, selfSync_of_sends hrx hc h, fun hstd r hr => ?_⟩
  obtain ⟨i, hi⟩ := List.getElem?_of_mem hr
  obtain ⟨m, s, m', w, -, hp, hev⟩ := Decoder.exists_of_getElem?_events h hi
  have hcodec : (((Decoder.start c d₀).after us).after (ws.take i)).codec = c :=
    Decoder.codec_after.trans hrx
  exact Decoder.disparityError_of_event (hcodec.trans hstd) (hcodec ▸ hp) hev

theorem exists_selfSync_out_of_step :
    Codec.standard.table.anomalies = [] ∧
      (∀ s ∈ [.data 0xB5, .k 0xBC, .data 0x03], (Codec.standard.table.get? s).isSome) ∧
      ∃ ws es, SelfSync ⟨.standard, .negative⟩
        ((Decoder.start .standard .positive).decodeAll [⟨0x000⟩, ⟨0x17C⟩]).2
        [.data 0xB5, .k 0xBC, .data 0x03] ws es ∧
          ∀ r, .fault r ∈ es → r.disparityError = true := by
  have hc := Codec.anomalies_standard
  have hs : ∀ s ∈ [.data 0xB5, .k 0xBC, .data 0x03], (Codec.standard.table.get? s).isSome := by
    simp only [Codec.table_standard, Table.isSome_get?_standard]
    decide
  obtain ⟨ws, es, h, hstrict⟩ :=
    exists_selfSync .standard hc _ hs .negative .positive [⟨0x000⟩, ⟨0x17C⟩]
  exact ⟨hc, hs, ws, es, h, hstrict rfl⟩

end LineCode
