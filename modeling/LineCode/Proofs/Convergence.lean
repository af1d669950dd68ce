import LineCode.Proofs.InStep

/-!
# Convergence

Two decoders of one codec that receive the same words from different disparities. A word
that is legal in both disparities changes neither, and a word that is legal in none is a
fault to both and leads nowhere, so the decoders stay apart (`Decoder.next_of_not_settles`).
A word that is legal in one disparity only leads from there; the decoder in the other one
takes it for a fault and follows (`Decoder.next_of_settles`). Such a word settles the
disparity of a decoder, whatever it was, and it takes one of them to bring two decoders
together (`Decoder.rd_after_eq_iff`); from then on they are in step.
-/

namespace LineCode

/-- Whether a word is legal in one disparity and not in the other. -/
def Codec.settles (c : Codec) (w : Codeword) : Bool :=
  c.isValid w .negative != c.isValid w .positive

/-- A word that settles is legal in some disparity and not in the other. -/
theorem Codec.exists_of_settles {c : Codec} {w : Codeword} (h : c.settles w = true) :
    ∃ d, c.isValid w d = true ∧ c.isValid w d.flip = false := by
  cases hn : c.isValid w .negative with
  | true => exact ⟨.negative, hn, by simpa [settles, hn, Disparity.flip] using h⟩
  | false => exact ⟨.positive, by simpa [settles, hn] using h, hn⟩

/-- A word that does not settle is legal in both disparities or in none. -/
theorem Codec.isValid_flip_of_not_settles {c : Codec} {w : Codeword} (h : c.settles w = false)
    (d : Disparity) : c.isValid w d.flip = c.isValid w d := by
  rw [settles, bne_eq_false_iff_eq] at h
  cases d
  · exact h.symm
  · exact h

namespace Decoder

variable {rx rx' : Decoder} {w : Codeword}

/-! ### One word -/

/-- A word that settles leads every decoder into the same disparity. -/
theorem next_of_settles (hc : rx.codec = rx'.codec) (h : rx.codec.settles w = true) :
    rx.next w = rx'.next w := by
  obtain ⟨d, hvalid, hflip⟩ := Codec.exists_of_settles h
  obtain ⟨r, hr⟩ := Codec.isValid_eq_true_iff.1 hvalid
  obtain ⟨q, hq⟩ := Codec.isValid_eq_false_iff.1 hflip
  -- From `d` the word is read; from the other disparity it is a fault that leads as from `d`.
  have hnext : ∀ x : Decoder, x.codec = rx.codec → x.next w = r.rd := by
    intro x hx
    unfold next
    by_cases hd : x.rd = d
    · rw [hx, hd, hr]
    · rw [hx, Disparity.eq_flip_of_ne hd, hq, Disparity.flip_flip, hr]
  rw [hnext rx rfl, hnext rx' hc.symm]

/-- A word that does not settle leaves every decoder in its disparity. -/
theorem next_of_not_settles (h : rx.codec.settles w = false) : rx.next w = rx.rd := by
  have hsame := Codec.isValid_flip_of_not_settles h rx.rd
  unfold next
  cases hw : rx.codec.decode w rx.rd with
  | ok r =>
    rw [Codec.isValid_eq_true_iff.2 ⟨r, hw⟩] at hsame
    obtain ⟨r', hr'⟩ := Codec.isValid_eq_true_iff.1 hsame
    exact Codec.rd_eq_of_decode hw hr' (Disparity.flip_ne rx.rd).symm
  | error q =>
    rw [Codec.isValid_eq_false_iff.2 ⟨q, hw⟩] at hsame
    obtain ⟨q', hq'⟩ := Codec.isValid_eq_false_iff.1 hsame
    rw [hq']

/-! ### Runs -/

/-- Two decoders end in one disparity when they start in one, or a word settles it. -/
theorem rd_after_eq_iff (hc : rx.codec = rx'.codec) (ws : List Codeword) :
    (rx.after ws).rd = (rx'.after ws).rd ↔
      rx.rd = rx'.rd ∨ ∃ w ∈ ws, rx.codec.settles w = true := by
  induction ws generalizing rx rx' with
  | nil => simp
  | cons w ws ih =>
    have hpush : (rx.push w).2.codec = (rx'.push w).2.codec := hc
    rw [after_cons, after_cons, ih hpush, rd_push, rd_push, codec_push]
    cases hw : rx.codec.settles w with
    | true => simp [next_of_settles hc hw, hw]
    | false =>
      have hnext : rx.next w = rx.rd := next_of_not_settles hw
      have hnext' : rx'.next w = rx'.rd := next_of_not_settles (hc ▸ hw)
      simp [hnext, hnext', hw]

end Decoder

/-- How two decoders fare with the words `ws`. -/
structure Convergence (rx rx' : Decoder) (ws : List Codeword) : Prop where
  /-- They end in the same disparity if they start in the same, or if a word is legal in exactly
  one of the two disparities; otherwise they do not. -/
  rd_eq_iff : (rx.decodeAll ws).2.rd = (rx'.decodeAll ws).2.rd ↔
    rx.rd = rx'.rd ∨ ∃ w ∈ ws, rx.codec.isValid w .negative ≠ rx.codec.isValid w .positive
  /-- Once they are in the same disparity they make the same of every word that follows, -/
  events_eq : ∀ i, (rx.decodeAll (ws.take i)).2.rd = (rx'.decodeAll (ws.take i)).2.rd →
    (rx.decodeAll ws).1.drop i = (rx'.decodeAll ws).1.drop i
  /-- and stay in the same disparity. -/
  rd_eq : ∀ i j, i ≤ j → (rx.decodeAll (ws.take i)).2.rd = (rx'.decodeAll (ws.take i)).2.rd →
    (rx.decodeAll (ws.take j)).2.rd = (rx'.decodeAll (ws.take j)).2.rd

/-- **Convergence**: two decoders of one codec, each in any disparity and with anything counted,
come together at the first word that is legal in one disparity only and at no other, and
nothing parts them again. -/
theorem decoders_converge (c : Codec) (d d' : Disparity) (s s' : Stats) (ws : List Codeword) :
    Convergence ⟨c, d, s⟩ ⟨c, d', s'⟩ ws := by
  generalize hrx : Decoder.mk c d s = rx
  generalize hrx' : Decoder.mk c d' s' = rx'
  have hc : rx.codec = rx'.codec := by rw [← hrx, ← hrx']
  have hstep : ∀ i, (rx.after (ws.take i)).rd = (rx'.after (ws.take i)).rd →
      Decoder.InStep (rx.after (ws.take i)) (rx'.after (ws.take i)) := by
    intro i h
    refine ⟨?_, h⟩
    rw [Decoder.codec_after, Decoder.codec_after, hc]
    exact .refl _
  refine { rd_eq_iff := ?_, events_eq := fun i h => ?_, rd_eq := fun i j hij h => ?_ }
  · refine (Decoder.rd_after_eq_iff hc ws).trans (or_congr_right (exists_congr fun w => ?_))
    exact and_congr_right fun _ => bne_iff_ne
  · have hdetector : (rx.after (ws.take i)).codec.detector =
        (rx'.after (ws.take i)).codec.detector := by
      rw [Decoder.codec_after, Decoder.codec_after, hc]
    change (rx.events ws).drop i = (rx'.events ws).drop i
    rw [Decoder.drop_events, Decoder.drop_events]
    exact (hstep i h).events_eq hdetector _
  · obtain ⟨k, rfl⟩ := Nat.exists_eq_add_of_le hij
    change (rx.after (ws.take (i + k))).rd = (rx'.after (ws.take (i + k))).rd
    rw [List.take_add, Decoder.after_append, Decoder.after_append]
    exact ((hstep i h).after _).rd_eq

end LineCode
