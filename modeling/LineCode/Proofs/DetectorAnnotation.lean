import LineCode.Proofs.InStep
import LineCode.Proofs.PrefixLimits

/-!
# What a detector changes

Receivers differ in how strictly they hold words to limits, so a codec can be given either
detector. The choice shows in the disparity-error flags of what is decoded and in their
count, and nowhere else (`annotatesOnly_withDetector`): what is read, where the line goes after each
word, what is sent, the look-up tables and the findings of the analysis are the same. The
flags themselves are ordered (`Detector.strict_covers_loose`), since every limit of the loose
detector is at least that of the strict one.
-/

namespace LineCode

/-! ### Wider limits -/

/-- A word that is past wider limits is past narrower ones. -/
theorem SumBounds.violated_of_le {b b' : SumBounds}
    (h : ∀ (i : Nat) (hi : i < 10), b.limits[i] ≤ b'.limits[i]) {d : Disparity} {w : Codeword}
    (hv : b'.violated d w = true) : b.violated d w = true := by
  rw [violated, Option.isSome_iff_exists] at hv ⊢
  obtain ⟨i', hi'⟩ := hv
  obtain ⟨i, -, hi⟩ := exists_firstViolation_of_le h hi'
  exact ⟨i, hi⟩

/-- A detector fires wherever another one does. -/
def Detector.Covers (detector detector' : Detector) : Prop :=
  ∀ d w, detector'.flags d w = true → detector.flags d w = true

/-- No limit of the strict detector is above that of the loose one. -/
theorem Detector.strict_covers_loose : strict.Covers loose := by
  intro d w h
  have hle : ∀ (i : Nat) (hi : i < 10), SumBounds.strict.limits[i] ≤ SumBounds.loose.limits[i] := by
    decide
  exact SumBounds.violated_of_le hle h

/-! ### Flags and counts -/

/-- Two counts that agree but for disparity errors, of which `s` has no fewer than `s'`. -/
structure Stats.CountsMore (s s' : Stats) : Prop where
  words_eq : s.words = s'.words
  symbols_eq : s.symbols = s'.symbols
  decodeErrors_eq : s.decodeErrors = s'.decodeErrors
  disparityErrors_le : s'.disparityErrors ≤ s.disparityErrors

theorem Stats.CountsMore.refl (s : Stats) : s.CountsMore s := ⟨rfl, rfl, rfl, Nat.le_refl _⟩

/-- Counts go on so with events that agree but for the flag. -/
theorem Stats.CountsMore.add {s s' : Stats} {e e' : Event} (h : s.CountsMore s')
    (he : e.unflagged = e'.unflagged)
    (hflag : e'.disparityError = true → e.disparityError = true) :
    (s.add e).CountsMore (s'.add e') := by
  have hfault : e.isFault = e'.isFault := by
    rw [← e.isFault_unflagged, he, e'.isFault_unflagged]
  have hle : e'.disparityError.toNat ≤ e.disparityError.toNat := Bool.toNat_le_toNat hflag
  rw [Stats.add_eq, Stats.add_eq, hfault]
  exact ⟨congrArg (· + 1) h.words_eq, congrArg (· + _) h.symbols_eq,
    congrArg (· + _) h.decodeErrors_eq, Nat.add_le_add h.disparityErrors_le hle⟩

namespace Decoder.InStep

variable {rx rx' : Decoder}

/-- If the detector of one decoder covers that of the other, the one flags a word if the other
does, -/
theorem disparityError_event_of (h : InStep rx rx')
    (hcovers : rx.codec.detector.Covers rx'.codec.detector) {w : Codeword}
    (hflag : (rx'.event w).disparityError = true) : (rx.event w).disparityError = true := by
  rw [disparityError_event] at hflag ⊢
  rw [h.rd_eq]
  exact hcovers _ _ hflag

/-- also in a run, -/
theorem disparityError_events_of (h : InStep rx rx')
    (hcovers : rx.codec.detector.Covers rx'.codec.detector) {ws : List Codeword} {i : Nat}
    {e e' : Event} (he : (rx.events ws)[i]? = some e) (he' : (rx'.events ws)[i]? = some e')
    (hflag : e'.disparityError = true) : e.disparityError = true := by
  rw [getElem?_events, Option.map_eq_some_iff] at he he'
  obtain ⟨w, hw, rfl⟩ := he
  obtain ⟨w', hw', rfl⟩ := he'
  cases hw.symm.trans hw'
  exact (h.after (ws.take i)).disparityError_event_of (by simpa using hcovers) hflag

/-- and so has counted no fewer after it. -/
theorem countsMore_after (h : InStep rx rx')
    (hcovers : rx.codec.detector.Covers rx'.codec.detector)
    (hs : rx.stats.CountsMore rx'.stats) (ws : List Codeword) :
    (rx.after ws).stats.CountsMore (rx'.after ws).stats := by
  induction ws generalizing rx rx' with
  | nil => exact hs
  | cons w ws ih =>
    refine ih (h.push w) hcovers ?_
    exact hs.add (h.unflagged_event w) (h.disparityError_event_of hcovers)

end Decoder.InStep

/-! ### Two detectors -/

/-- Two codecs that differ in nothing but flags of disparity errors, of which `strict` has all that
`loose` has, for a line in `d` and the words `ws` on it. -/
structure AnnotatesOnly (strict loose : Codec) (d : Disparity) (ws : List Codeword) : Prop where
  /-- Without the flags the events are the same, -/
  events_eq : ((Decoder.start strict d).decodeAll ws).1.map Event.unflagged =
    ((Decoder.start loose d).decodeAll ws).1.map Event.unflagged
  /-- and an event with the flag under `loose` has it under `strict`. -/
  flagged : ∀ (i : Nat) (e e' : Event), ((Decoder.start strict d).decodeAll ws).1[i]? = some e →
    ((Decoder.start loose d).decodeAll ws).1[i]? = some e' →
    e'.disparityError = true → e.disparityError = true
  /-- After every word both are in the same disparity, -/
  rd_eq : ∀ i, ((Decoder.start strict d).decodeAll (ws.take i)).2.rd =
    ((Decoder.start loose d).decodeAll (ws.take i)).2.rd
  /-- and have counted the same but for disparity errors, of which `loose` has no more. -/
  counts : ∀ i, ((Decoder.start strict d).decodeAll (ws.take i)).2.stats.CountsMore
    ((Decoder.start loose d).decodeAll (ws.take i)).2.stats
  encode_eq : ∀ s d, strict.encode s d = loose.encode s d
  /-- Encoders give the same words or the same refusal, and end in the same disparity. -/
  encodeAll_eq : ∀ d ss,
    ((Encoder.mk strict d).encodeAll ss).1 = ((Encoder.mk loose d).encodeAll ss).1 ∧
    ((Encoder.mk strict d).encodeAll ss).2.rd = ((Encoder.mk loose d).encodeAll ss).2.rd
  encodeTable_eq : strict.encodeTable = loose.encodeTable
  decodeTable_eq : strict.decodeTable = loose.decodeTable
  anomalies_eq : strict.table.anomalies = loose.table.anomalies

/-- **Detectors**: for every codec, and any words on a line in any disparity, the two detectors
make a difference to disparity-error flags only, and the strict one fires wherever the loose
one does. -/
theorem annotatesOnly_withDetector (c : Codec) (d : Disparity) (ws : List Codeword) :
    AnnotatesOnly (c.withDetector .strict) (c.withDetector .loose) d ws := by
  have hcode : (c.withDetector .strict).table.SameCode (c.withDetector .loose).table := .refl c.table
  have hstep : Decoder.InStep (.start (c.withDetector .strict) d)
      (.start (c.withDetector .loose) d) := ⟨hcode, rfl⟩
  have hcovers : (c.withDetector .strict).detector.Covers (c.withDetector .loose).detector :=
    Detector.strict_covers_loose
  exact {
    events_eq := hstep.unflagged_events ws
    flagged := fun i e e' he he' => hstep.disparityError_events_of hcovers he he'
    rd_eq := fun i => (hstep.after (ws.take i)).rd_eq
    counts := fun i => hstep.countsMore_after hcovers (.refl _) (ws.take i)
    encode_eq := fun s d => Codec.encode_of_sameCode hcode
    encodeAll_eq := fun d ss => by
      rw [Encoder.encodeAll_of_sameCode hcode]
      exact ⟨rfl, rfl⟩
    encodeTable_eq := Codec.encodeTable_eq_iff.2 hcode
    decodeTable_eq := Codec.decodeTable_of_sameCode hcode
    anomalies_eq := hcode.anomalies_eq }

end LineCode
