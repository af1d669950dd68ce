import LineCode.Proofs.DecodeRows
import LineCode.Proofs.EncodeRows
import LineCode.Proofs.Producers

/-!
# Look-up tables in place of a codec

Hardware that reads the two look-up tables does what the codec does
(`lookupTables_refine`). For the encode table that holds of every codec. For the decode
table the code must have no anomaly: a row names one symbol, so it cannot serve a word that
stands for two.
-/

namespace LineCode

variable {c : Codec} {s : Symbol} {w : Codeword} {d : Disparity}

/-- What a row of the encode table says of sending `s` from `d`. -/
structure SaysEncoding (c : Codec) (s : Symbol) (d : Disparity) (row : Masked .u16) : Prop where
  /-- A symbol that is refused leaves the row empty. -/
  refused : ∀ u, c.encode s d = .error u → row.value = 0 ∧ row.mask = 0
  /-- What is sent has the word in bits 0 to 9 and the exit disparity in bit 10. -/
  sent : ∀ x, c.encode s d = .ok x → row.mask = 0x7FF ∧
    (∀ i < 10, row.bit i = some (x.word.bit i)) ∧ row.bit 10 = some x.rd.isPositive

/-- What a row of the decode table says of reading `w` in `d`. -/
structure SaysDecoding (c : Codec) (w : Codeword) (d : Disparity) (row : Masked .u16) : Prop where
  /-- The error bit is set for a word that is refused. -/
  rejected : ∀ r, c.decode w d = .error r → row.bit (errorBit d) = some true
  /-- It is clear for a word that is read; then the symbol is in the row, and the swap bit leads
  to the exit disparity. -/
  decoded : ∀ r, c.decode w d = .ok r → row.bit (errorBit d) = some false ∧
    (∀ i < 8, row.bit i = some (r.symbol.value.getLsbD i)) ∧
    row.bit controlBit = some r.symbol.control ∧
    ∃ swap, row.bit swapBit = some swap ∧ (if swap then d.flip else d) = r.rd
  /-- The disparity-error bit is what the strict detector says, -/
  strict : row.bit (disparityErrorBit d) = some (Detector.strict.flags d w)
  /-- so it is what a codec with that detector reports, whether the word is read or refused. -/
  disparityError : c.detector = .strict →
    (∀ r, c.decode w d = .ok r → row.bit (disparityErrorBit d) = some r.disparityError) ∧
    ∀ r, c.decode w d = .error r → row.bit (disparityErrorBit d) = some r.disparityError
  /-- All fourteen outputs are specified for a word that is read from some disparity, -/
  legal : (∃ e r, c.decode w e = .ok r) → row.mask = 0x3FFF
  /-- and bits 9 to 12 alone for any other. -/
  illegal : (∀ e r, c.decode w e ≠ .ok r) → row.mask = 0x1E00

theorem saysEncoding_row (c : Codec) (s : Symbol) (d : Disparity) :
    SaysEncoding c s d (c.encodeTable.rows.get (encodeAddress s d)) where
  refused := by
    intro u h
    rw [Codec.row_of_encode_error h]
    exact ⟨rfl, rfl⟩
  sent := by
    intro x h
    rw [Codec.row_of_encode_ok h]
    refine ⟨mask_encodeRow x, fun i hi => ?_, ?_⟩
    · rw [bit_encodeRow, if_pos hi]
    · rw [bit_encodeRow]
      rfl

/-- Without anomalies the decoding that a row holds names the symbol for both disparities. -/
theorem Codec.exists_held_symbol (hc : c.table.anomalies = []) {r : Decoded}
    (h : c.decode w d = .ok r) : ∃ r', c.held w = some r' ∧ r'.symbol = r.symbol := by
  obtain ⟨r', hr', e, h'⟩ := exists_held h
  have hp := (decode_eq_ok_iff.1 h).1
  have hp' := (decode_eq_ok_iff.1 h').1
  exact ⟨r', hr', Table.anomalies_eq_nil_iff.1 hc _ hp' _ hp rfl⟩

theorem saysDecoding_row (hc : c.table.anomalies = []) (w : Codeword) (d : Disparity) :
    SaysDecoding c w d (c.decodeTable.rows.get w.index) := by
  rw [row_decodeTable]
  exact {
    rejected := by
      intro r h
      rw [bit_decodeRow_errorBit, Codec.isValid_eq_false_iff.2 ⟨r, h⟩]
      rfl
    decoded := by
      intro r h
      obtain ⟨r', hr', hsymbol⟩ := Codec.exists_held_symbol hc h
      rw [bit_decodeRow_errorBit, Codec.isValid_eq_true_iff.2 ⟨r, h⟩, ← hsymbol]
      exact ⟨rfl, fun i hi => bit_decodeRow_of_lt hr' hi, bit_decodeRow_controlBit hr',
        r.changed, bit_decodeRow_swapBit h, Codec.exit_of_decode h⟩
    strict := bit_decodeRow_disparityErrorBit c w d
    disparityError := by
      intro hstrict
      rw [bit_decodeRow_disparityErrorBit, ← hstrict]
      refine ⟨fun r h => ?_, fun r h => ?_⟩
      · rw [(Codec.decode_eq_ok_iff.1 h).2]
      · rw [(Codec.decode_eq_error_iff.1 h).2]
    legal := by
      rintro ⟨e, r, h⟩
      obtain ⟨r', hr', -⟩ := Codec.exists_held h
      exact mask_decodeRow_of_held hr'
    illegal := by
      intro h
      refine mask_decodeRow_of_not_held (Codec.held_of_error fun e => ?_)
      cases he : c.decode w e with
      | ok r => exact absurd he (h e r)
      | error r => exact ⟨r, rfl⟩ }

/-- **Refinement**: the encode table of a codec says what the codec sends, each symbol and
disparity in a row of its own; and when its table has no anomaly, the decode table says for
every word and either disparity what the codec reads. -/
theorem lookupTables_refine (c : Codec) :
    (∀ s d, SaysEncoding c s d (c.encodeTable.rows.get (encodeAddress s d))) ∧
    (∀ s s' d d', encodeAddress s d = encodeAddress s' d' → s = s' ∧ d = d') ∧
    (c.table.anomalies = [] → ∀ w d, SaysDecoding c w d (c.decodeTable.rows.get w.index)) :=
  ⟨saysEncoding_row c, fun _ _ _ _ => encodeAddress_inj.1, fun hc => saysDecoding_row hc⟩

/-- The standard sends K28.5 from a negative disparity and reads it there; it has no K00.0. -/
theorem lookupTables_refine_standard : Codec.standard.table.anomalies = [] ∧
    (Codec.standard.encodeTable.rows.get (encodeAddress (.k 0x00) .negative)).mask = 0 ∧
    (Codec.standard.encodeTable.rows.get (encodeAddress (.k 0xBC) .negative)).bit 10 = some true ∧
    (Codec.standard.decodeTable.rows.get (Codeword.index ⟨0x17C⟩)).bit (errorBit .negative) =
      some false := by
  have hclear := Codec.anomalies_standard
  have hcomma := Codec.comma_mem_standard
  have hno : Codec.standard.encode (.k 0x00) .negative = .error ⟨.k 0x00⟩ := by
    rw [Codec.encode_eq_error_iff, Codec.table_standard, ← Option.isNone_iff_eq_none,
      ← Option.isSome_eq_false_iff, Table.isSome_get?_standard]
    exact ⟨by decide, rfl⟩
  obtain ⟨hencode, -, hdecode⟩ := lookupTables_refine .standard
  refine ⟨hclear, ((hencode _ _).refused _ hno).2, ?_, ?_⟩
  · exact ((hencode _ _).sent _ (Codec.encode_eq_ok_iff.2 hcomma)).2.2
  · exact ((hdecode hclear _ _).decoded _ (Codec.decode_of_mem hcomma)).1

end LineCode
