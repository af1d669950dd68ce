import LineCode.Proofs.Reception

/-!
# Accounts

Words reach a decoder in deliveries, one word at a time or many. How they are divided makes
no difference (`Decoder.receiveAll_eq`): the events, put together, and the decoder at the end
are those of one delivery of all the words. So every word is accounted for
(`accounts_of_deliveries`). It has one event, made in the disparity that the words before it
lead to, and it is counted once, as a symbol or as a fault. A fault makes the decoder look at
the word in the other disparity too, to find out where to go on; what it finds there is
neither reported nor counted.
-/

namespace LineCode

/-! ### Deliveries -/

/-- Words that are handed to a decoder at once. -/
inductive Delivery
  | word (w : Codeword)
  | batch (ws : List Codeword)

/-- The words of a delivery. -/
def Delivery.words : Delivery → List Codeword
  | .word w => [w]
  | .batch ws => ws

namespace Decoder

variable {rx : Decoder} {us ws : List Codeword} {ds : List Delivery}

/-- What a decoder makes of a delivery. -/
def receive (rx : Decoder) : Delivery → List Event × Decoder
  | .word w =>
    let (e, rx') := rx.push w
    ([e], rx')
  | .batch ws => rx.decodeAll ws

/-- What a decoder makes of deliveries, all events put together. -/
def receiveAll (rx : Decoder) : List Delivery → List Event × Decoder
  | [] => ([], rx)
  | d :: ds =>
    let (es, rx') := rx.receive d
    let (es', rx'') := rx'.receiveAll ds
    (es ++ es', rx'')

theorem decodeAll_append : rx.decodeAll (us ++ ws) =
    ((rx.decodeAll us).1 ++ ((rx.decodeAll us).2.decodeAll ws).1,
      ((rx.decodeAll us).2.decodeAll ws).2) :=
  Prod.ext events_append after_append

/-- A delivery is the words in it. -/
theorem receive_eq (d : Delivery) : rx.receive d = rx.decodeAll d.words := by
  cases d with
  | word w => rfl
  | batch ws => rfl

/-- Deliveries are the words in them, however they are divided. -/
theorem receiveAll_eq : rx.receiveAll ds = rx.decodeAll (ds.flatMap Delivery.words) := by
  induction ds generalizing rx with
  | nil => rfl
  | cons d ds ih =>
    rw [List.flatMap_cons, decodeAll_append, ← receive_eq, ← ih]
    rfl

end Decoder

/-! ### Events -/

/-- The event is what the codec `c` makes of the word `w` entered in `d`. A symbol carries that
disparity, a fault the word too, and both the detector's flag for the two. -/
inductive Event.Reports (c : Codec) (d : Disparity) (w : Codeword) : Event → Prop
  | symbol {r : Decoded} (decoded : c.decode w d = .ok r) (prior_eq : r.prior = d)
      (flag_eq : r.disparityError = c.detector.flags d w) : Reports c d w (.symbol r)
  | fault (refused : c.decode w d = .error ⟨w, d, c.detector.flags d w⟩) :
      Reports c d w (.fault ⟨w, d, c.detector.flags d w⟩)

/-- A decoder reports each word in its own disparity. -/
theorem Decoder.reports_event (rx : Decoder) (w : Codeword) :
    (rx.event w).Reports rx.codec rx.rd w := by
  cases h : rx.event w with
  | symbol r =>
    have hr : rx.codec.decode w rx.rd = .ok r := event_eq_symbol_iff.1 h
    have hshape := (Codec.decode_eq_ok_iff.1 hr).2
    refine .symbol hr (Codec.prior_of_decode hr) ?_
    rw [hshape]
  | fault q =>
    have hq : rx.codec.decode w rx.rd = .error q := event_eq_fault_iff.1 h
    obtain ⟨-, rfl⟩ := Codec.decode_eq_error_iff.1 hq
    exact .fault hq

/-- How a decoder of `c` that starts in `d` accounts for deliveries of the words `ws`, by the events
`es` and by what `rx`, the decoder after them, has counted. -/
structure Accounts (c : Codec) (d : Disparity) (ws : List Codeword) (es : List Event)
    (rx : Decoder) : Prop where
  /-- Events and decoder are those of one delivery. -/
  decodeAll_eq : (Decoder.start c d).decodeAll ws = (es, rx)
  /-- There is one event for each word. -/
  length_events : es.length = ws.length
  /-- The event of a word reports it in the disparity that the words before it lead to. -/
  reports : ∀ i w, ws[i]? = some w → ∃ e : Event, es[i]? = some e ∧
    e.Reports c ((Decoder.start c d).decodeAll (ws.take i)).2.rd w
  words_eq : rx.stats.words = ws.length
  /-- Every word is counted either as a symbol or as a decode error. -/
  words_eq_add : rx.stats.words = rx.stats.symbols + rx.stats.decodeErrors
  symbols_eq : rx.stats.symbols = es.countP (!·.isFault)
  decodeErrors_eq : rx.stats.decodeErrors = es.countP Event.isFault
  /-- Flags are counted on symbols and on faults. -/
  disparityErrors_eq : rx.stats.disparityErrors = es.countP Event.disparityError
  /-- Counters of 64 bits suffice for fewer words than that. -/
  fits : ws.length < UInt64.size → rx.stats.words < UInt64.size ∧ rx.stats.symbols < UInt64.size ∧
    rx.stats.decodeErrors < UInt64.size ∧ rx.stats.disparityErrors < UInt64.size

/-- **Accounts**: a decoder of any codec that starts in either disparity accounts for every word
that it is given, one by one or in batches. -/
theorem accounts_of_deliveries (c : Codec) (d : Disparity) (ds : List Delivery) :
    Accounts c d (ds.flatMap Delivery.words) ((Decoder.start c d).receiveAll ds).1
      ((Decoder.start c d).receiveAll ds).2 := by
  generalize hws : ds.flatMap Delivery.words = ws
  rw [Decoder.receiveAll_eq, hws]
  change Accounts c d ws ((Decoder.start c d).events ws) ((Decoder.start c d).after ws)
  have hstats : ((Decoder.start c d).after ws).stats =
      ⟨ws.length, ((Decoder.start c d).events ws).countP (!·.isFault),
        ((Decoder.start c d).events ws).countP Event.isFault,
        ((Decoder.start c d).events ws).countP Event.disparityError⟩ := by
    rw [Decoder.stats_after]
    simp only [Decoder.start, Stats.zero, Nat.zero_add]
  have hlength : ((Decoder.start c d).events ws).length = ws.length := Decoder.length_events
  have hle : ∀ p : Event → Bool, ((Decoder.start c d).events ws).countP p ≤ ws.length :=
    fun p => hlength ▸ List.countP_le_length
  have hsplit : ws.length = ((Decoder.start c d).events ws).countP (!·.isFault) +
      ((Decoder.start c d).events ws).countP Event.isFault := by
    rw [← hlength, List.length_eq_countP_add_countP Event.isFault, Nat.add_comm]
    simp
  exact {
    decodeAll_eq := rfl
    length_events := hlength
    reports := fun i w hw => by
      refine ⟨_, by rw [Decoder.getElem?_events, hw, Option.map_some], ?_⟩
      have hreports := ((Decoder.start c d).after (ws.take i)).reports_event w
      rw [Decoder.codec_after] at hreports
      exact hreports
    words_eq := by rw [hstats]
    words_eq_add := by
      rw [hstats]
      exact hsplit
    symbols_eq := by rw [hstats]
    decodeErrors_eq := by rw [hstats]
    disparityErrors_eq := by rw [hstats]
    fits := fun hlt => by
      rw [hstats]
      exact ⟨hlt, Nat.lt_of_le_of_lt (hle _) hlt, Nat.lt_of_le_of_lt (hle _) hlt,
        Nat.lt_of_le_of_lt (hle _) hlt⟩ }

end LineCode
