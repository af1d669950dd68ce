import LineCode.Proofs.Transmission

/-!
# Reception

What a decoder makes of words, one by one. The event of word `i` is what the decoder in
the state after the words before it makes of the word (`Decoder.getElem?_events`), the
counts are those of the events (`Decoder.stats_after`), and a decoder can be stopped
and taken up again anywhere (`Decoder.events_append`, `Decoder.after_append`).

A decoder that is in the disparity of the line reads each word as the symbol that was
sent (`Decoder.event_of_mem`), so it stays in the disparity of the line
(`Decoder.rd_after`).
-/

namespace LineCode

/-- Whether a word could not be decoded. -/
def Event.isFault : Event → Bool
  | .symbol _ => false
  | .fault _ => true

/-- An event is one word, one symbol or one fault, and one disparity error if it has one. -/
theorem Stats.add_eq (s : Stats) (e : Event) : s.add e =
    ⟨s.words + 1, s.symbols + (!e.isFault).toNat, s.decodeErrors + e.isFault.toNat,
      s.disparityErrors + e.disparityError.toNat⟩ := by
  cases e <;> rfl

namespace Decoder

variable {rx : Decoder} {w : Codeword} {us ws : List Codeword}

/-- What a decoder makes of words. -/
def events (rx : Decoder) (ws : List Codeword) : List Event := (rx.decodeAll ws).1

/-- A decoder after some words. -/
def after (rx : Decoder) (ws : List Codeword) : Decoder := (rx.decodeAll ws).2

@[simp] theorem events_nil : rx.events [] = [] := rfl

@[simp] theorem events_cons : rx.events (w :: ws) = rx.event w :: (rx.push w).2.events ws := rfl

@[simp] theorem after_nil : rx.after [] = rx := rfl

@[simp] theorem after_cons : rx.after (w :: ws) = (rx.push w).2.after ws := rfl

@[simp] theorem codec_push : (rx.push w).2.codec = rx.codec := rfl

@[simp] theorem rd_push : (rx.push w).2.rd = rx.next w := rfl

@[simp] theorem stats_push : (rx.push w).2.stats = rx.stats.add (rx.event w) := rfl

/-! ### Runs -/

@[simp] theorem length_events : (rx.events ws).length = ws.length := by
  induction ws generalizing rx with
  | nil => rfl
  | cons w ws ih => simp [ih]

@[simp] theorem codec_after : (rx.after ws).codec = rx.codec := by
  induction ws generalizing rx with
  | nil => rfl
  | cons w ws ih => rw [after_cons, ih, codec_push]

theorem after_append : rx.after (us ++ ws) = (rx.after us).after ws := by
  induction us generalizing rx with
  | nil => rfl
  | cons u us ih => exact ih

theorem events_append : rx.events (us ++ ws) = rx.events us ++ (rx.after us).events ws := by
  induction us generalizing rx with
  | nil => rfl
  | cons u us ih => simp [ih]

/-- The first `i` events are those of the first `i` words, -/
theorem take_events (i : Nat) : (rx.events ws).take i = rx.events (ws.take i) := by
  induction ws generalizing rx i with
  | nil => simp
  | cons w ws ih =>
    cases i with
    | zero => rfl
    | succ i => simp [ih]

/-- and the later events are those of the later words, to the decoder after the first `i`. -/
theorem drop_events (i : Nat) :
    (rx.events ws).drop i = (rx.after (ws.take i)).events (ws.drop i) := by
  induction ws generalizing rx i with
  | nil => simp
  | cons w ws ih =>
    cases i with
    | zero => rfl
    | succ i => simp [ih]

/-- The event of a word is what the decoder makes of it after the words before. -/
theorem getElem?_events (i : Nat) :
    (rx.events ws)[i]? = ws[i]?.map (rx.after (ws.take i)).event := by
  induction ws generalizing rx i with
  | nil => simp
  | cons w ws ih =>
    cases i with
    | zero => rfl
    | succ i => simp [ih]

/-- The counts of a run are those of its events. -/
theorem stats_after : (rx.after ws).stats =
    ⟨rx.stats.words + ws.length,
      rx.stats.symbols + (rx.events ws).countP (!·.isFault),
      rx.stats.decodeErrors + (rx.events ws).countP Event.isFault,
      rx.stats.disparityErrors + (rx.events ws).countP Event.disparityError⟩ := by
  induction ws generalizing rx with
  | nil => rfl
  | cons w ws ih =>
    simp only [after_cons, ih, stats_push, Stats.add_eq, events_cons, List.length_cons,
      List.countP_cons, Stats.mk.injEq]
    cases (rx.event w).isFault <;> cases (rx.event w).disparityError <;> simp <;> omega

/-! ### Words of the table -/

theorem event_eq_symbol_iff {r : Decoded} :
    rx.event w = .symbol r ↔ rx.codec.decode w rx.rd = .ok r := by
  unfold event
  cases rx.codec.decode w rx.rd <;> simp

theorem event_eq_fault_iff {r : Rejected} :
    rx.event w = .fault r ↔ rx.codec.decode w rx.rd = .error r := by
  unfold event
  cases rx.codec.decode w rx.rd <;> simp

/-- A word that may stand where it is received is read as its symbol. -/
theorem event_of_mem {s : Symbol} {e : Disparity}
    (h : ⟨rx.rd, s, e, w⟩ ∈ rx.codec.table.productions) : rx.event w =
      .symbol ⟨s, rx.rd, e, e ≠ rx.rd, rx.codec.detector.flags rx.rd w⟩ := by
  unfold event
  rw [Codec.decode_of_mem h]

theorem next_of_mem {s : Symbol} {e : Disparity}
    (h : ⟨rx.rd, s, e, w⟩ ∈ rx.codec.table.productions) : rx.next w = e := by
  unfold next
  rw [Codec.decode_of_mem h]

/-- An event of a transmission is what the decoder, after the words before, makes of a word that
was sent. -/
theorem exists_of_getElem?_events {t : Table} {d e : Disparity} {ss : List Symbol} {i : Nat}
    {ev : Event} (h : t.Sends d ss ws e) (hev : (rx.events ws)[i]? = some ev) :
    ∃ m s m' w, ss[i]? = some s ∧ ⟨m, s, m', w⟩ ∈ t.productions ∧
      (rx.after (ws.take i)).event w = ev := by
  rw [getElem?_events, Option.map_eq_some_iff] at hev
  obtain ⟨w, hw, hev⟩ := hev
  have hlt : i < ss.length := h.length_eq ▸ (List.getElem?_eq_some_iff.1 hw).1
  have hs := List.getElem?_eq_getElem hlt
  obtain ⟨m, m', w', hw', hp, -, -⟩ := h.getElem? hs
  obtain rfl : w' = w := Option.some.inj (hw'.symm.trans hw)
  exact ⟨m, ss[i], m', w', hs, hp, hev⟩

/-- A decoder in the disparity of the line stays in it. -/
theorem rd_after {d e : Disparity} {ss : List Symbol}
    (h : rx.codec.table.Sends d ss ws e) (hd : rx.rd = d) : (rx.after ws).rd = e := by
  generalize ht : rx.codec.table = t at h
  induction h generalizing rx with
  | nil => exact hd
  | @cons _ e _ _ w _ _ hp _ ih =>
    subst ht hd
    have hnext : (rx.push w).2.rd = e := next_of_mem hp
    rw [after_cons]
    exact ih hnext rfl

/-- A decoder in the disparity of the line reads each word as the symbol it was sent for. -/
theorem exists_of_mem_events {d e : Disparity} {ss : List Symbol}
    (h : rx.codec.table.Sends d ss ws e) (hd : rx.rd = d) {ev : Event} (hev : ev ∈ rx.events ws) :
    ∃ p ∈ rx.codec.table.productions, ev =
      .symbol ⟨p.symbol, p.rdIn, p.rdOut, p.rdOut ≠ p.rdIn,
        rx.codec.detector.flags p.rdIn p.word⟩ := by
  generalize ht : rx.codec.table = t at h
  induction h generalizing rx with
  | nil => simp at hev
  | @cons _ e _ _ w _ _ hp _ ih =>
    subst ht hd
    have hnext : (rx.push w).2.rd = e := next_of_mem hp
    rw [events_cons, event_of_mem hp] at hev
    rcases List.mem_cons.1 hev with rfl | hev
    · exact ⟨_, hp, rfl⟩
    · obtain ⟨p, hmem, rfl⟩ := ih hnext hev rfl
      exact ⟨p, hmem, rfl⟩

/-- A decoder in the disparity of the line sees no fault. -/
theorem isFault_of_mem_events {d e : Disparity} {ss : List Symbol}
    (h : rx.codec.table.Sends d ss ws e) (hd : rx.rd = d) :
    ∀ ev ∈ rx.events ws, ev.isFault = false := by
  intro ev hev
  obtain ⟨p, -, rfl⟩ := exists_of_mem_events h hd hev
  rfl

theorem countP_isFault_eq_zero {d e : Disparity} {ss : List Symbol}
    (h : rx.codec.table.Sends d ss ws e) (hd : rx.rd = d) :
    (rx.events ws).countP Event.isFault = 0 :=
  List.countP_eq_zero.2 fun ev hev => by simp [isFault_of_mem_events h hd ev hev]

end Decoder

end LineCode
