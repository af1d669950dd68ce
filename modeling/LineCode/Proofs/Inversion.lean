import LineCode.Proofs.StandardWords

/-!
# Inversion

A codec that rows make keeps to the rows, and its two directions undo each other
(`inversion_of_ofTable`): a symbol is sent as the word that its row writes, the word stands for
the symbol, and what is neither listed nor sent is refused, with the reason.
-/

namespace LineCode

/-- The codec `c` answers both ways as the rows and their table `t` say. -/
structure Inversion (rows : List Row) (t : Table) (c : Codec) : Prop where
  /-- A symbol is sent as its row writes it, -/
  encode_iff_row : ∀ s d w e, c.encode s d = .ok ⟨w, e⟩ ↔
    ∃ r ∈ rows, r.symbol = s ∧ r.word d = w ∧ evolve d w = some e
  /-- which is what its entry in the table says, -/
  encode_iff_get? : ∀ s d w e, c.encode s d = .ok ⟨w, e⟩ ↔
    ∃ n, t.get? s = some n ∧ (n.encoding d).word = w ∧ (n.encoding d).rdOut = e
  /-- and what the word, entered in the same disparity, is read as. -/
  encode_iff_decode : ∀ s d w e, c.encode s d = .ok ⟨w, e⟩ ↔
    ∃ r, c.decode w d = .ok r ∧ r.symbol = s ∧ r.rd = e
  /-- What is read says where the word was entered, and whether it left in the other disparity. -/
  decoded : ∀ w d r, c.decode w d = .ok r → r.prior = d ∧ (r.changed = true ↔ r.rd ≠ d)
  /-- A symbol is refused when it is not listed, from either disparity. -/
  unsupported : ∀ s d u, c.encode s d = .error u ↔ t.get? s = none ∧ u = ⟨s⟩
  /-- A word is refused when nothing is sent as it from the disparity that it is entered in. -/
  rejected : ∀ w d r, c.decode w d = .error r ↔
    (∀ s e, c.encode s d ≠ .ok ⟨w, e⟩) ∧ r = ⟨w, d, c.detector.flags d w⟩
  /-- A word is valid where it is read. -/
  isValid_iff : ∀ w d, c.isValid w d = true ↔ ∃ r, c.decode w d = .ok r
  /-- From one disparity no two symbols are sent as one word. -/
  symbol_eq : ∀ d s s' x x', c.encode s d = .ok x → c.encode s' d = .ok x' → x.word = x'.word →
    s = s'

namespace Codec

variable {c : Codec} {s s' : Symbol} {d e : Disparity} {w : Codeword}

/-- A symbol is sent as a word when the word is read as the symbol. -/
theorem encode_eq_ok_iff_decode : c.encode s d = .ok ⟨w, e⟩ ↔
    ∃ r, c.decode w d = .ok r ∧ r.symbol = s ∧ r.rd = e := by
  rw [encode_eq_ok_iff]
  constructor
  · intro h
    exact ⟨_, decode_of_mem h, rfl, rfl⟩
  · rintro ⟨r, hr, rfl, rfl⟩
    exact (decode_eq_ok_iff.1 hr).1

/-- From one disparity no two symbols are sent as one word: it is read as one of them only. -/
theorem symbol_eq_of_encode {x x' : Encoded} (h : c.encode s d = .ok x)
    (h' : c.encode s' d = .ok x') (hw : x.word = x'.word) : s = s' := by
  obtain ⟨r, hr, rfl, -⟩ := encode_eq_ok_iff_decode.1 h
  obtain ⟨r', hr', rfl, -⟩ := encode_eq_ok_iff_decode.1 h'
  rw [hw, hr'] at hr
  cases hr
  rfl

end Codec

/-- **Inversion**: whatever rows make a codec, and with either detector, encoding and decoding
are inverse to each other and say what the rows write. -/
theorem inversion_of_ofTable {rows : List Row} {t : Table} {c : Codec}
    (ht : Table.ofRows rows = .ok t) (hc : Codec.ofTable t = .ok c) (detector : Detector) :
    Inversion rows t (c.withDetector detector) := by
  have htable : (c.withDetector detector).table = t := (Codec.table_ofTable hc : c.table = t)
  generalize c.withDetector detector = k at htable
  subst htable
  refine {
    encode_iff_row := fun s d w e => ?_
    encode_iff_get? := fun s d w e => Codec.encode_eq_ok_iff.trans Table.mem_productions_iff_get?
    encode_iff_decode := fun s d w e => Codec.encode_eq_ok_iff_decode
    decoded := fun w d r h => ?_
    unsupported := fun s d u => Codec.encode_eq_error_iff
    rejected := fun w d r => ?_
    isValid_iff := fun w d => Codec.isValid_eq_true_iff
    symbol_eq := fun d s s' x x' => Codec.symbol_eq_of_encode }
  · rw [Codec.encode_eq_ok_iff, Table.mem_productions_ofRows ht]
    refine exists_congr fun r => and_congr_right fun _ => ?_
    exact and_congr eq_comm (and_congr eq_comm Iff.rfl)
  · rw [(Codec.decode_eq_ok_iff.1 h).2]
    exact ⟨rfl, decide_eq_true_iff⟩
  · simp only [Codec.decode_eq_error_iff, ne_eq, Codec.encode_eq_ok_iff]

theorem inversion_standardRows : Table.ofRows standardRows = .ok .standard ∧
    Codec.ofTable .standard = .ok .standard ∧
      Inversion standardRows .standard (Codec.standard.withDetector .loose) :=
  ⟨Table.ofRows_standardRows, Codec.ofTable_standard,
    inversion_of_ofTable Table.ofRows_standardRows Codec.ofTable_standard .loose⟩

end LineCode
