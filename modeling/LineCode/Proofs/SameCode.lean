import LineCode.Proofs.Ambiguity
import LineCode.Proofs.CrossCheck

/-!
# Tables with the same code

Two tables may state the same facts in another order (`Table.SameCode`). Nothing that is
made from the tables shows the order: their words have the same producers, so the analysis
finds the same anomalies (`Table.SameCode.anomalies_eq`), and one has a codec if the other
has (`Table.SameCode.exists_ofTable_iff`). The codecs send the same and read the same, up
to what their detectors say (`Codec.decode_of_sameCode`), and have the same look-up tables
(`Codec.encodeTable_eq_iff`, `Codec.decodeTable_of_sameCode`).
-/

namespace LineCode

namespace Table.SameCode

variable {t t' : Table}

theorem refl (t : Table) : t.SameCode t := fun _ => Iff.rfl

theorem symm (h : t.SameCode t') : t'.SameCode t := fun p => (h p).symm

/-- A word has the same producers, as they are kept in an order of their own. -/
theorem producers_eq (h : t.SameCode t') (w : Codeword) : t.producers w = t'.producers w := by
  refine Producer.eq_of_sorted (producersIn_sorted _ w) (producersIn_sorted _ w) fun a => ?_
  rw [mem_producers, mem_producers]
  exact h _

/-- The analysis finds the same. -/
theorem anomalies_eq (h : t.SameCode t') : t.anomalies = t'.anomalies := by
  unfold anomalies
  refine List.filterMap_congr fun w _ => ?_
  have hproducers : producersIn t.productions w = producersIn t'.productions w := h.producers_eq w
  unfold anomalyIn
  rw [hproducers]

/-- One table has a codec if the other has. -/
theorem exists_ofTable_iff (h : t.SameCode t') :
    (∃ c, Codec.ofTable t = .ok c) ↔ ∃ c, Codec.ofTable t' = .ok c := by
  have hone : ∀ {u u' : Table}, u.SameCode u' → (∃ c, Codec.ofTable u = .ok c) →
      ∃ c, Codec.ofTable u' = .ok c := by
    intro u u' hsame hclear
    rw [Codec.exists_ofTable_iff, nodup_claims_iff] at hclear ⊢
    intro p hp q hq
    exact hclear p ((hsame p).2 hp) q ((hsame q).2 hq)
  exact ⟨hone h, hone h.symm⟩

end Table.SameCode

namespace Codec

variable {c c' : Codec} {w : Codeword} {d : Disparity} {s : Symbol}

/-! ### Sending and reading -/

theorem encode_of_sameCode (h : c.table.SameCode c'.table) : c.encode s d = c'.encode s d :=
  encode_eq_iff_sameCode.2 h s d

/-- The outcome of reading a word, with what a detector says put in its place. -/
def flagged (fired : Bool) : Except Rejected Decoded → Except Rejected Decoded
  | .ok r => .ok { r with disparityError := fired }
  | .error q => .error { q with disparityError := fired }

/-- A word is read the same up to what the detector says. -/
theorem decode_of_sameCode (h : c.table.SameCode c'.table) :
    c'.decode w d = flagged (c'.detector.flags d w) (c.decode w d) := by
  cases hw : c.decode w d with
  | ok r =>
    obtain ⟨hp, hr⟩ := decode_eq_ok_iff.1 hw
    rw [hr]
    exact decode_of_mem ((h _).1 hp)
  | error q =>
    obtain ⟨hno, rfl⟩ := decode_eq_error_iff.1 hw
    exact decode_eq_error_iff.2 ⟨fun s e hp => hno s e ((h _).2 hp), rfl⟩

/-- With the same detector it is read the same. -/
theorem decode_eq_of_sameCode (h : c.table.SameCode c'.table) (hd : c.detector = c'.detector) :
    c.decode w d = c'.decode w d := by
  rw [decode_of_sameCode h, decode_of_sameCode (.refl c.table), hd]
  cases c.decode w d <;> rfl

theorem isValid_of_sameCode (h : c.table.SameCode c'.table) : c.isValid w d = c'.isValid w d := by
  rw [Bool.eq_iff_iff, isValid_eq_true_iff, isValid_eq_true_iff, decode_of_sameCode h]
  cases c.decode w d <;> simp [flagged]

/-! ### Look-up tables -/

/-- The encode tables are the same when the codes are: checked against the other codec, each
would show a difference. -/
theorem encodeTable_eq_iff : c.encodeTable = c'.encodeTable ↔ c.table.SameCode c'.table := by
  constructor
  · intro h
    have hnil := checkEncode_encodeTable c'
    rw [← h] at hnil
    exact encode_eq_iff_sameCode.1 (checkEncode_eq_nil_iff.1 hnil)
  · intro h
    have hrow : ∀ a, c.encodeTable.rows.get a = c'.encodeTable.rows.get a := by
      intro a
      rw [← encodeAddress_ofAddress a]
      cases ha : c.encode (Symbol.ofAddress a).1 (Symbol.ofAddress a).2 with
      | ok x => rw [row_of_encode_ok ha, row_of_encode_ok ((encode_of_sameCode h).symm.trans ha)]
      | error u =>
        rw [row_of_encode_error ha, row_of_encode_error ((encode_of_sameCode h).symm.trans ha)]
    have hrows : c.encodeTable.rows = c'.encodeTable.rows :=
      Vector.ext fun i hi => hrow ⟨i, hi⟩
    exact congrArg (LookupTable.mk _) hrows

/-- The detector has no part in a row: the disparity-error bits are the strict one's. -/
theorem decodeRow_of_sameCode (h : c.table.SameCode c'.table) : decodeRow c w = decodeRow c' w := by
  unfold decodeRow errorRow
  simp only [isValid_of_sameCode h, decode_of_sameCode h]
  cases c.decode w .positive <;> cases c.decode w .negative <;> rfl

theorem decodeTable_of_sameCode (h : c.table.SameCode c'.table) :
    c.decodeTable = c'.decodeTable := by
  unfold decodeTable
  simp only [decodeRow_of_sameCode h]

end Codec

end LineCode
