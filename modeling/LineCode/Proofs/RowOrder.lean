import LineCode.Proofs.InStep
import LineCode.Proofs.RowFaults

/-!
# The order of rows

Rows are written in some order, and a table is built in that order: symbols are compared
with those before them, productions are listed, words are taken and rows of look-up tables
are filled one after the other. None of it matters. Rows are accepted for what each of
them says and for their symbols being distinct (`Table.exists_ofRows_iff`), so rows in
another order are accepted too, and state the same facts (`Table.sameCode_of_perm`). All
that is made from the table follows from the facts (`rowOrder_of_perm`).
-/

namespace LineCode

namespace Table

variable {rows rows' : List Row} {t t' : Table}

/-- Rows in another order make a table if these do, -/
theorem exists_ofRows_iff_of_perm (h : rows.Perm rows') :
    (∃ t, ofRows rows = .ok t) ↔ ∃ t, ofRows rows' = .ok t := by
  rw [exists_ofRows_iff, exists_ofRows_iff, (h.map Row.symbol).nodup_iff]
  simp only [h.mem_iff]

/-- and it states the same facts. -/
theorem sameCode_of_perm (h : rows.Perm rows') (ht : ofRows rows = .ok t)
    (ht' : ofRows rows' = .ok t') : t.SameCode t' := by
  intro p
  rw [mem_productions_ofRows ht, mem_productions_ofRows ht']
  simp only [h.mem_iff]

end Table

/-! ### The same answers -/

/-- Two codecs that cannot be told apart by what they answer. -/
structure Codec.Agrees (c c' : Codec) : Prop where
  encode : ∀ s d, c.encode s d = c'.encode s d
  decode : ∀ w d, c.decode w d = c'.decode w d
  isValid : ∀ w d, c.isValid w d = c'.isValid w d
  /-- Encoders give the same words or the same refusal, and end in the same disparity. -/
  encodeAll : ∀ d ss, ((Encoder.mk c d).encodeAll ss).1 = ((Encoder.mk c' d).encodeAll ss).1 ∧
    ((Encoder.mk c d).encodeAll ss).2.rd = ((Encoder.mk c' d).encodeAll ss).2.rd
  /-- Decoders give the same events, end in the same disparity and have counted the same. -/
  decodeAll : ∀ d stats ws,
    ((Decoder.mk c d stats).decodeAll ws).1 = ((Decoder.mk c' d stats).decodeAll ws).1 ∧
    ((Decoder.mk c d stats).decodeAll ws).2.rd = ((Decoder.mk c' d stats).decodeAll ws).2.rd ∧
    ((Decoder.mk c d stats).decodeAll ws).2.stats = ((Decoder.mk c' d stats).decodeAll ws).2.stats

/-- Codecs of the same code with the same detector cannot be told apart. -/
theorem Codec.agrees_of_sameCode {c c' : Codec} (h : c.table.SameCode c'.table)
    (hd : c.detector = c'.detector) : c.Agrees c' where
  encode _ _ := encode_of_sameCode h
  decode _ _ := decode_eq_of_sameCode h hd
  isValid _ _ := isValid_of_sameCode h
  encodeAll d ss := by
    rw [Encoder.encodeAll_of_sameCode h]
    exact ⟨rfl, rfl⟩
  decodeAll d stats ws := by
    have hstep : Decoder.InStep ⟨c, d, stats⟩ ⟨c', d, stats⟩ := ⟨h, rfl⟩
    have hevents : (Decoder.mk c d stats).events ws = (Decoder.mk c' d stats).events ws :=
      hstep.events_eq hd ws
    refine ⟨hevents, (hstep.after ws).rd_eq, ?_⟩
    change ((Decoder.mk c d stats).after ws).stats = ((Decoder.mk c' d stats).after ws).stats
    rw [Decoder.stats_after, Decoder.stats_after, hevents]

/-! ### Rows in another order -/

/-- Two lists of rows that are as good as each other. -/
structure RowOrder (rows rows' : List Row) : Prop where
  /-- One is accepted if the other is. -/
  accepted_iff : (∃ t, Table.ofRows rows = .ok t) ↔ ∃ t, Table.ofRows rows' = .ok t
  /-- Their tables have the same anomalies, in the same order and each with the same producers. -/
  anomalies_eq : ∀ t t', Table.ofRows rows = .ok t → Table.ofRows rows' = .ok t' →
    t.anomalies = t'.anomalies
  /-- One table has a codec if the other has, -/
  codec_iff : ∀ t t', Table.ofRows rows = .ok t → Table.ofRows rows' = .ok t' →
    ((∃ c, Codec.ofTable t = .ok c) ↔ ∃ c, Codec.ofTable t' = .ok c)
  /-- and the codecs cannot be told apart, -/
  agrees : ∀ t t' c c', Table.ofRows rows = .ok t → Table.ofRows rows' = .ok t' →
    Codec.ofTable t = .ok c → Codec.ofTable t' = .ok c' → c.Agrees c'
  /-- nor when they are given another detector. -/
  agrees_withDetector : ∀ t t' c c', Table.ofRows rows = .ok t → Table.ofRows rows' = .ok t' →
    Codec.ofTable t = .ok c → Codec.ofTable t' = .ok c' →
    ∀ detector, (c.withDetector detector).Agrees (c'.withDetector detector)

/-- **Row order**: rows put in another order are accepted or not as they were, and what is made
from them finds the same anomalies and gives the same answers. -/
theorem rowOrder_of_perm {rows rows' : List Row} (h : rows.Perm rows') : RowOrder rows rows' := by
  have hcodes : ∀ {t t' c c'}, Table.ofRows rows = .ok t → Table.ofRows rows' = .ok t' →
      Codec.ofTable t = .ok c → Codec.ofTable t' = .ok c' → c.table.SameCode c'.table := by
    intro t t' c c' ht ht' hc hc'
    rw [Codec.table_ofTable hc, Codec.table_ofTable hc']
    exact Table.sameCode_of_perm h ht ht'
  refine {
    accepted_iff := Table.exists_ofRows_iff_of_perm h
    anomalies_eq := fun t t' ht ht' => (Table.sameCode_of_perm h ht ht').anomalies_eq
    codec_iff := fun t t' ht ht' => (Table.sameCode_of_perm h ht ht').exists_ofTable_iff
    agrees := fun t t' c c' ht ht' hc hc' => ?_
    agrees_withDetector := fun t t' c c' ht ht' hc hc' detector => ?_ }
  · refine Codec.agrees_of_sameCode (hcodes ht ht' hc hc') ?_
    rw [Codec.detector_ofTable hc, Codec.detector_ofTable hc']
  · have hcode : c.table.SameCode c'.table := hcodes ht ht' hc hc'
    rw [← c.table_withDetector detector, ← c'.table_withDetector detector] at hcode
    exact Codec.agrees_of_sameCode hcode rfl

/-- The standard written from its last row to its first is the standard. -/
theorem rowOrder_reverse_standardRows : standardRows.Perm standardRows.reverse ∧
    ∃ t c, Table.ofRows standardRows.reverse = .ok t ∧ t.anomalies = [] ∧
      Codec.ofTable t = .ok c ∧ Codec.standard.Agrees c := by
  have hperm : standardRows.Perm standardRows.reverse := (List.reverse_perm _).symm
  have horder : RowOrder standardRows standardRows.reverse := rowOrder_of_perm hperm
  have hstandard := Table.ofRows_standardRows
  obtain ⟨t, ht⟩ := horder.accepted_iff.1 ⟨_, hstandard⟩
  obtain ⟨c, hc⟩ := (horder.codec_iff _ t hstandard ht).1 ⟨_, Codec.ofTable_standard⟩
  refine ⟨hperm, t, c, ht, ?_, hc, horder.agrees _ t _ c hstandard ht Codec.ofTable_standard hc⟩
  rw [← horder.anomalies_eq _ t hstandard ht, Table.anomalies_standard]

end LineCode
