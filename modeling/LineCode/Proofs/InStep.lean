import LineCode.Proofs.Reception
import LineCode.Proofs.SameCode

/-!
# Ends in step

Two ends of lines are in step when their codecs have the same code and they are in the
same disparity. Encoders in step send the same (`Encoder.encodeAll_of_sameCode`). Of
decoders in step (`Decoder.InStep`) a word makes the same up to what their detectors say,
and they are in step after it: a detector looks at words, but what it finds is only
reported. So decoders in step stay in step over any words (`Decoder.InStep.after`), and
their events differ in the detector's flag at most (`Decoder.InStep.unflagged_events`).
With the same detector they do not differ at all (`Decoder.InStep.events_eq`).
-/

namespace LineCode

/-! ### Encoders -/

/-- Encoders of the same code, in the same disparity, send the same and end in the same. -/
theorem Encoder.encodeAll_of_sameCode {c c' : Codec} (h : c.table.SameCode c'.table)
    (d : Disparity) (ss : List Symbol) : (Encoder.mk c' d).encodeAll ss =
      Prod.map id (fun tx => { tx with codec := c' }) ((Encoder.mk c d).encodeAll ss) := by
  induction ss generalizing d with
  | nil => rfl
  | cons s ss ih =>
    simp only [encodeAll, push, ← Codec.encode_of_sameCode h]
    cases c.encode s d with
    | error u => rfl
    | ok sent => simp only [ih sent.rd]; rfl

/-! ### Events without the flag -/

/-- An event without what the detector says. -/
def Event.unflagged : Event → Event
  | .symbol r => .symbol { r with disparityError := false }
  | .fault q => .fault { q with disparityError := false }

theorem Event.isFault_unflagged (e : Event) : e.unflagged.isFault = e.isFault := by
  cases e <;> rfl

/-- Events that differ neither in the flag nor in anything else are equal. -/
theorem Event.eq_of_unflagged {e e' : Event} (h : e.unflagged = e'.unflagged)
    (hflag : e.disparityError = e'.disparityError) : e = e' := by
  cases e with
  | symbol r =>
    cases e' with
    | symbol r' => cases r; cases r'; simp_all [unflagged, disparityError]
    | fault q' => cases h
  | fault q =>
    cases e' with
    | symbol r' => cases h
    | fault q' => cases q; cases q'; simp_all [unflagged, disparityError]

namespace Decoder

/-- The flag of an event is what the detector says of the word, decoded or not. -/
theorem disparityError_event (rx : Decoder) (w : Codeword) :
    (rx.event w).disparityError = rx.codec.detector.flags rx.rd w := by
  unfold event
  cases h : rx.codec.decode w rx.rd with
  | ok r =>
    rw [(Codec.decode_eq_ok_iff.1 h).2]
    rfl
  | error q =>
    rw [(Codec.decode_eq_error_iff.1 h).2]
    rfl

/-- Two decoders that read the same code in the same disparity. -/
structure InStep (rx rx' : Decoder) : Prop where
  sameCode : rx.codec.table.SameCode rx'.codec.table
  rd_eq : rx.rd = rx'.rd

namespace InStep

variable {rx rx' : Decoder}

/-! ### One word -/

/-- A word is the same to both, up to what the detectors say. -/
theorem unflagged_event (h : InStep rx rx') (w : Codeword) :
    (rx.event w).unflagged = (rx'.event w).unflagged := by
  unfold event
  rw [← h.rd_eq, Codec.decode_of_sameCode h.sameCode]
  cases rx.codec.decode w rx.rd <;> rfl

/-- With the same detector a word is the same to both. -/
theorem event_eq (h : InStep rx rx') (hd : rx.codec.detector = rx'.codec.detector)
    (w : Codeword) : rx.event w = rx'.event w := by
  refine Event.eq_of_unflagged (h.unflagged_event w) ?_
  rw [disparityError_event, disparityError_event, hd, h.rd_eq]

/-- A word leads both into the same disparity. -/
theorem next_eq (h : InStep rx rx') (w : Codeword) : rx.next w = rx'.next w := by
  unfold next
  rw [← h.rd_eq, Codec.decode_of_sameCode h.sameCode, Codec.decode_of_sameCode h.sameCode]
  cases rx.codec.decode w rx.rd with
  | ok r => rfl
  | error q => cases rx.codec.decode w rx.rd.flip <;> rfl

theorem push (h : InStep rx rx') (w : Codeword) : InStep (rx.push w).2 (rx'.push w).2 :=
  ⟨h.sameCode, h.next_eq w⟩

/-! ### Runs -/

/-- Decoders in step stay in step. -/
theorem after (h : InStep rx rx') (ws : List Codeword) : InStep (rx.after ws) (rx'.after ws) := by
  induction ws generalizing rx rx' with
  | nil => exact h
  | cons w ws ih => exact ih (h.push w)

/-- Their events are the same, up to what the detectors say, -/
theorem unflagged_events (h : InStep rx rx') (ws : List Codeword) :
    (rx.events ws).map Event.unflagged = (rx'.events ws).map Event.unflagged := by
  refine List.ext_getElem? fun i => ?_
  rw [List.getElem?_map, List.getElem?_map, getElem?_events, getElem?_events, Option.map_map,
    Option.map_map]
  exact Option.map_congr fun w _ => (h.after (ws.take i)).unflagged_event w

/-- and with the same detector simply the same. -/
theorem events_eq (h : InStep rx rx') (hd : rx.codec.detector = rx'.codec.detector)
    (ws : List Codeword) : rx.events ws = rx'.events ws := by
  refine List.ext_getElem? fun i => ?_
  rw [getElem?_events, getElem?_events]
  refine Option.map_congr fun w _ => (h.after (ws.take i)).event_eq ?_ w
  rw [codec_after, codec_after, hd]

end InStep

end Decoder

end LineCode
