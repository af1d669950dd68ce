import LineCode.Proofs.Reception
import LineCode.Proofs.StandardWords

/-!
# Round trip

A decoder that starts in the disparity of the encoder reads back what was sent, for
every table that has a codec (`exists_roundTrip`). The two disparities stay equal: they
are joined only by the words, each of which the table lists for the one state that both
are in. On the standard's words no detector fires.
-/

namespace LineCode

/-- What both ends of a line see of a transmission: the codec `c` sends `ss` from `d` as `ws`
and reads `ws` back in the same disparity as the events `es`, flagged by `detector`. -/
structure RoundTrip (c : Codec) (detector : Detector) (d : Disparity) (ss : List Symbol)
    (ws : List Codeword) (tx : Encoder) (es : List Event) (rx : Decoder) : Prop where
  /-- All symbols are sent. -/
  sent : (Encoder.mk c d).encodeAll ss = (.ok ws, tx)
  /-- All words are received. -/
  received : (Decoder.start c d).decodeAll ws = (es, rx)
  length_words : ws.length = ss.length
  length_events : es.length = ss.length
  /-- Each event is its symbol, between the disparities of the encoder before and after it. -/
  event : ∀ i s w, ss[i]? = some s → ws[i]? = some w →
    let prior := ((Encoder.mk c d).encodeAll (ss.take i)).2.rd
    let rd := ((Encoder.mk c d).encodeAll (ss.take (i + 1))).2.rd
    es[i]? = some (.symbol ⟨s, prior, rd, rd ≠ prior, detector.flags prior w⟩)
  /-- Both ends are in the same disparity. -/
  rd : rx.rd = tx.rd
  /-- Every word was a symbol, none a fault. -/
  stats : rx.stats = ⟨ss.length, ss.length, 0, es.countP Event.disparityError⟩

/-- A transmission of a codec's table is read back. -/
theorem roundTrip_of_sends {c : Codec} {d e : Disparity} {ss : List Symbol} {ws : List Codeword}
    (h : c.table.Sends d ss ws e) :
    RoundTrip c c.detector d ss ws ⟨c, e⟩ ((Decoder.start c d).events ws)
      ((Decoder.start c d).after ws) where
  sent := h.encodeAll
  received := rfl
  length_words := h.length_eq
  length_events := by rw [Decoder.length_events, h.length_eq]
  event := by
    intro i s w hs hw prior rd
    obtain ⟨m, m', w', hw', hp, hbefore, hupto⟩ := h.getElem? hs
    obtain rfl : w' = w := Option.some.inj (hw'.symm.trans hw)
    have hprior : prior = m := congrArg (·.2.rd) hbefore.encodeAll
    have hrd : rd = m' := congrArg (·.2.rd) hupto.encodeAll
    have hrx : ((Decoder.start c d).after (ws.take i)).rd = m := Decoder.rd_after hbefore rfl
    have hc : ((Decoder.start c d).after (ws.take i)).codec = c := Decoder.codec_after
    rw [Decoder.getElem?_events, hw', Option.map_some,
      Decoder.event_of_mem (by rw [hrx, hc]; exact hp), hrx, hc, hprior, hrd]
  rd := Decoder.rd_after h rfl
  stats := by
    have hok : ∀ ev ∈ (Decoder.start c d).events ws, ev.isFault = false :=
      Decoder.isFault_of_mem_events h rfl
    have hfaults : ((Decoder.start c d).events ws).countP Event.isFault = 0 :=
      Decoder.countP_isFault_eq_zero h rfl
    have hsymbols : ((Decoder.start c d).events ws).countP (!·.isFault) = ss.length := by
      rw [List.countP_eq_length.2 fun ev hev => by simp [hok ev hev], Decoder.length_events,
        h.length_eq]
    rw [Decoder.stats_after, hfaults, hsymbols, h.length_eq]
    simp [Decoder.start, Stats.zero]

/-- Reading the standard's words in the disparity of the line, neither detector fires. -/
theorem disparityError_of_mem_events {rx : Decoder} {e : Disparity} {ss : List Symbol}
    {ws : List Codeword} (hstd : rx.codec.table = .standard)
    (h : rx.codec.table.Sends rx.rd ss ws e) :
    ∀ ev ∈ rx.events ws, ev.disparityError = false := by
  intro ev hev
  obtain ⟨p, hp, rfl⟩ := Decoder.exists_of_mem_events h rfl hev
  rw [hstd] at hp
  exact flags_of_mem_standard hp rx.codec.detector

/-- **Round trip**: whatever rows make a codec, whichever detector it has and whichever
disparity both ends start in, listed symbols are sent and read back one by one, and both
ends finish in the same disparity. With the rows of the standard no disparity error is
counted. -/
theorem exists_roundTrip {rows : List Row} {t : Table} {c : Codec} (ht : Table.ofRows rows = .ok t)
    (hc : Codec.ofTable t = .ok c) (detector : Detector) (d : Disparity) (ss : List Symbol)
    (hs : ∀ s ∈ ss, (t.get? s).isSome) :
    ∃ ws tx es rx, RoundTrip (c.withDetector detector) detector d ss ws tx es rx ∧
      (rows = standardRows → rx.stats.disparityErrors = 0) := by
  have htable : (c.withDetector detector).table = t := by
    rw [Codec.table_withDetector, Codec.table_ofTable hc]
  rw [← htable] at hs
  obtain ⟨ws, e, h⟩ := Table.exists_sends hs d
  have htrip := roundTrip_of_sends h
  rw [Codec.detector_withDetector] at htrip
  refine ⟨ws, _, _, _, htrip, ?_⟩
  rintro rfl
  have hstd : t = .standard := Except.ok.inj (ht.symm.trans Table.ofRows_standardRows)
  rw [htrip.stats]
  refine List.countP_eq_zero.2 fun ev hev => ?_
  simp [disparityError_of_mem_events (htable.trans hstd) h ev hev]

theorem exists_roundTrip_commas :
    Table.ofRows standardRows = .ok .standard ∧ Codec.ofTable .standard = .ok .standard ∧
      (∀ s ∈ [.data 0xB5, .k 0xBC, .k 0xFC, .data 0x03], (Table.standard.get? s).isSome) ∧
      ∃ ws tx es rx, RoundTrip (Codec.standard.withDetector .loose) .loose .positive
        [.data 0xB5, .k 0xBC, .k 0xFC, .data 0x03] ws tx es rx ∧
          rx.stats.disparityErrors = 0 := by
  have hs : ∀ s ∈ [.data 0xB5, .k 0xBC, .k 0xFC, .data 0x03],
      (Table.standard.get? s).isSome := by
    simp only [Table.isSome_get?_standard]
    decide
  obtain ⟨ws, tx, es, rx, h, hquiet⟩ := exists_roundTrip Table.ofRows_standardRows
    Codec.ofTable_standard .loose .positive _ hs
  exact ⟨Table.ofRows_standardRows, Codec.ofTable_standard, hs, ws, tx, es, rx, h, hquiet rfl⟩

end LineCode
