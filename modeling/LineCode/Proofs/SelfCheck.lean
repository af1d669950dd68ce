import LineCode.Proofs.AnomalyReport
import LineCode.Proofs.DecodeRows
import LineCode.Proofs.EncodeRows
import Mathlib.Data.List.Sort

/-!
# Self checks

A codec's look-up tables can be checked against the codec, and its code table can be
analysed for anomalies. The two find the same words (`selfCheck_agrees`).

In the table of a codec a word has no more than two producers, one for each entering
disparity (`Codec.producers_eq`), so an anomaly is a word that stands for one symbol from a
negative disparity and for another from a positive one: a clash (`Codec.clash`). The row of
such a word holds the symbol of the positive side. Checked for the positive disparity it is
therefore right, and for the negative one wrong; every other row is right for both.
-/

namespace LineCode

/-- The decoding's part in the set of producers of its word. -/
def Decoded.producer (r : Decoded) : Producer := ⟨r.prior, r.symbol, r.rd⟩

/-- A producer comes before one that is entered in a later disparity. -/
theorem Producer.rank_lt_of_rdIn {a b : Producer} (h : a.rdIn.index < b.rdIn.index) :
    a.rank < b.rank := by
  have hvalue := a.symbol.value.isLt
  have hcontrol := a.symbol.control.toNat_lt
  have hout := a.rdOut.index_lt
  unfold rank
  omega

/-- Ordered sets of producers are equal when they have the same members. -/
theorem Producer.eq_of_sorted {as bs : List Producer}
    (ha : as.Pairwise fun a b => a.rank < b.rank) (hb : bs.Pairwise fun a b => a.rank < b.rank)
    (h : ∀ a, a ∈ as ↔ a ∈ bs) : as = bs := by
  have : Std.Antisymm fun a b : Producer => a.rank < b.rank :=
    ⟨fun _ _ hlt hgt => absurd hlt (Nat.lt_asymm hgt)⟩
  have : Std.Irrefl fun a b : Producer => a.rank < b.rank := ⟨fun _ => Nat.lt_irrefl _⟩
  exact ha.eq_of_mem_iff hb h

namespace Codec

variable {c : Codec} {w : Codeword} {d : Disparity} {r r' : Decoded}

/-- What a word stands for from a negative and from a positive disparity, when that is not the
same symbol. -/
def clash (c : Codec) (w : Codeword) : Option (Decoded × Decoded) :=
  match c.decode w .negative, c.decode w .positive with
  | .ok r, .ok r' => if r.symbol = r'.symbol then none else some (r, r')
  | _, _ => none

theorem clash_eq_some_iff : c.clash w = some (r, r') ↔
    c.decode w .negative = .ok r ∧ c.decode w .positive = .ok r' ∧ r.symbol ≠ r'.symbol := by
  unfold clash
  cases c.decode w .negative with
  | error _ => simp
  | ok q =>
    cases c.decode w .positive with
    | error _ => simp
    | ok q' =>
      simp only [Option.ite_none_left_eq_some, Option.some_inj, Prod.mk.injEq, Except.ok.injEq]
      constructor
      · rintro ⟨hne, rfl, rfl⟩
        exact ⟨rfl, rfl, hne⟩
      · rintro ⟨rfl, rfl, hne⟩
        exact ⟨hne, rfl, rfl⟩

theorem clash_eq_none_iff : c.clash w = none ↔ ∀ r r', c.decode w .negative = .ok r →
    c.decode w .positive = .ok r' → r.symbol = r'.symbol := by
  simp only [Option.eq_none_iff_forall_ne_some, Prod.forall, ne_eq, clash_eq_some_iff]
  constructor
  · intro h r r' hr hr'
    by_contra hne
    exact h r r' ⟨hr, hr', hne⟩
  · rintro h r r' ⟨hr, hr', hne⟩
    exact hne (h r r' hr hr')

/-! ### Anomalies of a codec's table -/

/-- A producer of a word is a decoding of it. -/
theorem mem_producers {a : Producer} :
    a ∈ c.table.producers w ↔ ∃ d r, c.decode w d = .ok r ∧ r.producer = a := by
  rw [Table.mem_producers]
  constructor
  · intro h
    exact ⟨_, _, decode_of_mem h, rfl⟩
  · rintro ⟨d, r, h, rfl⟩
    obtain ⟨hp, hr⟩ := decode_eq_ok_iff.1 h
    rw [hr]
    exact hp

/-- The producers of a word are its decodings, that of the negative disparity first. -/
theorem producers_eq (c : Codec) (w : Codeword) : c.table.producers w =
    Disparity.all.filterMap fun d => (c.decode w d).toOption.map Decoded.producer := by
  have hmem : ∀ {d a}, (c.decode w d).toOption.map Decoded.producer = some a ↔
      ∃ r, c.decode w d = .ok r ∧ r.producer = a := by
    intro d a
    rw [Option.map_eq_some_iff]
    cases c.decode w d <;> simp [Except.toOption]
  refine Producer.eq_of_sorted (producersIn_sorted _ w) ?_ fun a => ?_
  · have hall : Disparity.all.Pairwise fun d e => d.index < e.index := by decide
    refine hall.filterMap _ fun d e hlt a ha b hb => Producer.rank_lt_of_rdIn ?_
    obtain ⟨r, hr, rfl⟩ := hmem.1 ha
    obtain ⟨r', hr', rfl⟩ := hmem.1 hb
    rw [show r.producer.rdIn = d from prior_of_decode hr,
      show r'.producer.rdIn = e from prior_of_decode hr']
    exact hlt
  · rw [mem_producers, List.mem_filterMap]
    simp only [Disparity.mem_all, true_and, hmem]

/-- The anomaly that a clash makes. -/
def clashAnomaly (w : Codeword) (p : Decoded × Decoded) : Anomaly :=
  ⟨w, .differentDecode, [p.1.producer, p.2.producer]⟩

/-- A word of a codec's table is an anomaly when it has a clash. -/
theorem anomalyIn_eq (c : Codec) (w : Codeword) :
    anomalyIn c.table.productions w = (c.clash w).map (clashAnomaly w) := by
  have hps : producersIn c.table.productions w =
      [Disparity.negative, .positive].filterMap fun d =>
        (c.decode w d).toOption.map Decoded.producer := c.producers_eq w
  unfold anomalyIn clash clashAnomaly
  rw [hps]
  cases hn : c.decode w .negative with
  | error q =>
    cases hp : c.decode w .positive <;>
      simp [hn, hp, Except.toOption, AnomalyKind.ofProducers]
  | ok r =>
    cases hp : c.decode w .positive with
    | error q => simp [hn, hp, Except.toOption, AnomalyKind.ofProducers]
    | ok r' =>
      have hr : r.prior = r.rd := by
        rw [prior_of_decode hn, rd_eq_of_decode hn hp (by decide)]
      have hr' : r'.prior = r'.rd := by
        rw [prior_of_decode hp, rd_eq_of_decode hp hn (by decide)]
      by_cases hs : r.symbol = r'.symbol
      · simp [hn, hp, Except.toOption, AnomalyKind.ofProducers, AnomalyKind.ofPair,
          Decoded.producer, hr, hr', hs]
      · simp [hn, hp, Except.toOption, AnomalyKind.ofProducers, AnomalyKind.ofPair,
          Decoded.producer, hs]

/-- The analysis of a codec's table reports the clashes, in ascending order of their words. -/
theorem anomalies_eq (c : Codec) :
    c.table.anomalies = Codeword.all.filterMap fun w => (c.clash w).map (clashAnomaly w) :=
  List.filterMap_congr fun w _ => c.anomalyIn_eq w

end Codec

/-! ### Checking rows -/

variable {c : Codec} {w : Codeword} {d : Disparity} {r r' : Decoded}

theorem decodeDiscrepancy_of_error {q : Rejected} (h : c.decode w d = .error q) :
    decodeDiscrepancy c w (decodeRow c w) d = none := by
  unfold decodeDiscrepancy
  rw [bit_decodeRow_errorBit, Codec.isValid_eq_false_iff.2 ⟨q, h⟩, h]
  rfl

/-- The row of a word that is read departs from the codec if it holds another symbol. -/
theorem decodeDiscrepancy_of_ok (h : c.decode w d = .ok r) (hheld : c.held w = some r') :
    decodeDiscrepancy c w (decodeRow c w) d =
      if r'.symbol = r.symbol then none else some (.otherDecoding w d r.symbol r.rd) := by
  unfold decodeDiscrepancy
  rw [bit_decodeRow_errorBit, Codec.isValid_eq_true_iff.2 ⟨r, h⟩, h]
  simp [rowSymbol?_decodeRow hheld, rowExit?_decodeRow h]

/-- The detector's bits are right in the row of any codec, so only what is decoded can be wrong. -/
theorem rowDiscrepancies_eq (c c' : Codec) (w : Codeword) : rowDiscrepancies c' w (decodeRow c w) =
    Disparity.all.filterMap (decodeDiscrepancy c' w (decodeRow c w)) := by
  have hdetector : ∀ d, detectorDiscrepancy w (decodeRow c w) d = none := by
    intro d
    unfold detectorDiscrepancy
    rw [if_pos (bit_decodeRow_disparityErrorBit c w d)]
  unfold rowDiscrepancies
  rw [List.filterMap_eq_nil_iff.2 fun d _ => hdetector d, List.nil_append]

/-- The row of a word with a clash is wrong for the negative disparity; no other row is wrong. -/
theorem rowDiscrepancies_decodeRow (c : Codec) (w : Codeword) :
    rowDiscrepancies c w (decodeRow c w) =
      ((c.clash w).map fun p => .otherDecoding w .negative p.1.symbol p.1.rd).toList := by
  rw [rowDiscrepancies_eq]
  unfold Codec.clash
  simp only [Disparity.all, List.filterMap_cons, List.filterMap_nil]
  -- The positive side first: it decides which decoding the row holds.
  cases hp : c.decode w .positive with
  | error q =>
    rw [decodeDiscrepancy_of_error hp]
    cases hn : c.decode w .negative with
    | error q' => rw [decodeDiscrepancy_of_error hn]; rfl
    | ok r =>
      rw [decodeDiscrepancy_of_ok hn (Codec.held_of_negative hp hn), if_pos rfl]
      rfl
  | ok r' =>
    have hheld : c.held w = some r' := Codec.held_of_positive hp
    rw [decodeDiscrepancy_of_ok hp hheld, if_pos rfl]
    cases hn : c.decode w .negative with
    | error q' => rw [decodeDiscrepancy_of_error hn]; rfl
    | ok r =>
      rw [decodeDiscrepancy_of_ok hn hheld]
      by_cases hs : r.symbol = r'.symbol
      · simp [hs]
      · simp [hs, Ne.symm hs]

/-! ### Both lists -/

theorem Codeword.all_eq : all = (List.finRange count).map fun a => ⟨.ofFin a⟩ := by
  unfold all
  rw [← List.map_coe_finRange_eq_range, List.map_map]
  refine List.map_congr_left fun a _ => congrArg mk (BitVec.eq_of_toNat_eq ?_)
  rw [BitVec.toNat_ofNat]
  exact Nat.mod_eq_of_lt a.isLt

/-- The mismatch that a clash makes. -/
def clashMismatch (w : Codeword) (p : Decoded × Decoded) : Mismatch :=
  ⟨.decode, w.toNat, .otherDecoding w .negative p.1.symbol p.1.rd⟩

/-- The check of a codec's decode table goes through the words in ascending order. -/
theorem checkDecode_eq_flatMap (c c' : Codec) : c.decodeTable.checkDecode c' =
    Codeword.all.flatMap fun w =>
      (rowDiscrepancies c' w (decodeRow c w)).map fun x => ⟨.decode, w.toNat, x⟩ := by
  unfold LookupTable.checkDecode
  rw [Codeword.all_eq, List.flatMap_map]
  refine List.flatMap_congr fun a _ => ?_
  have hrow : c.decodeTable.rows.get a = decodeRow c ⟨.ofFin a⟩ := row_decodeTable c ⟨.ofFin a⟩
  rw [hrow]
  rfl

/-- The check of the decode table reports the clashes, in ascending order of their words. -/
theorem checkDecode_decodeTable (c : Codec) : c.decodeTable.checkDecode c =
    Codeword.all.filterMap fun w => (c.clash w).map (clashMismatch w) := by
  rw [checkDecode_eq_flatMap, List.filterMap_eq_flatMap_toList]
  refine List.flatMap_congr fun w _ => ?_
  rw [rowDiscrepancies_decodeRow]
  cases c.clash w <;> rfl

theorem mem_checkDecode {m : Mismatch} : m ∈ c.decodeTable.checkDecode c ↔
    ∃ w p, c.clash w = some p ∧ clashMismatch w p = m := by
  rw [checkDecode_decodeTable, List.mem_filterMap]
  simp only [Codeword.mem_all, true_and, Option.map_eq_some_iff]

/-- Mismatches are found at the words of the anomalies. -/
theorem addresses_checkDecode (c : Codec) :
    (c.decodeTable.checkDecode c).map Mismatch.address =
      c.table.anomalies.map fun a => a.word.toNat := by
  rw [checkDecode_decodeTable, c.anomalies_eq, List.map_filterMap, List.map_filterMap]
  refine List.filterMap_congr fun w _ => ?_
  cases c.clash w <;> rfl

/-- A clash makes one mismatch, and its word has no other. -/
theorem filter_checkDecode {p : Decoded × Decoded} (h : c.clash w = some p) :
    (c.decodeTable.checkDecode c).filter (·.address = w.toNat) = [clashMismatch w p] := by
  have hnodup : (c.decodeTable.checkDecode c).Nodup := by
    have hasc := c.table.anomalies_ascending
    rw [← addresses_checkDecode] at hasc
    have haddresses : ((c.decodeTable.checkDecode c).map Mismatch.address).Nodup :=
      hasc.imp Nat.ne_of_lt
    exact haddresses.of_map
  refine List.perm_singleton.1 ((List.perm_ext_iff_of_nodup (hnodup.filter _)
    (List.nodup_singleton _)).2 fun m => ?_)
  rw [List.mem_filter, mem_checkDecode, List.mem_singleton, decide_eq_true_iff]
  constructor
  · rintro ⟨⟨v, q, hq, rfl⟩, hv⟩
    obtain rfl : v = w := Codeword.toNat_inj.1 hv
    rw [h] at hq
    cases hq
    rfl
  · rintro rfl
    exact ⟨⟨w, p, h, rfl⟩, rfl⟩

/-- The checks of a codec's look-up tables find what the analysis of its code table finds. -/
structure SelfCheck (c : Codec) : Prop where
  /-- The encode table passes. -/
  encode : c.encodeTable.checkEncode c = []
  /-- The addresses at which the decode table fails are the words of the anomalies, in order. -/
  addresses : (c.decodeTable.checkDecode c).map Mismatch.address =
    c.table.anomalies.map fun a => a.word.toNat
  /-- An anomaly is a word with two producers, one for each entering disparity; it makes one
  mismatch, that of the negative one. -/
  anomaly : ∀ a ∈ c.table.anomalies, a.kind = .differentDecode ∧
    ∃ p q, a.producers = [p, q] ∧ p.rdIn = .negative ∧ q.rdIn = .positive ∧
      (c.decodeTable.checkDecode c).filter (·.address = a.word.toNat) =
        [⟨.decode, a.word.toNat, .otherDecoding a.word .negative p.symbol p.rdOut⟩]
  /-- The decode table passes when no word is read as different symbols. -/
  decode_iff : c.decodeTable.checkDecode c = [] ↔ ∀ w r r', c.decode w .negative = .ok r →
    c.decode w .positive = .ok r' → r.symbol = r'.symbol

/-- **Self check**: for every codec the encode table passes its check, and the decode table
fails its own at the words that the analysis reports, once each and for a negative disparity. -/
theorem selfCheck_agrees (c : Codec) : SelfCheck c where
  encode := checkEncode_encodeTable c
  addresses := addresses_checkDecode c
  anomaly := by
    intro a ha
    rw [c.anomalies_eq, List.mem_filterMap] at ha
    obtain ⟨w, -, hw⟩ := ha
    obtain ⟨⟨r, r'⟩, hclash, rfl⟩ := Option.map_eq_some_iff.1 hw
    obtain ⟨hr, hr', -⟩ := Codec.clash_eq_some_iff.1 hclash
    exact ⟨rfl, r.producer, r'.producer, rfl, Codec.prior_of_decode hr,
      Codec.prior_of_decode hr', filter_checkDecode hclash⟩
  decode_iff := by
    simp only [← Codec.clash_eq_none_iff, checkDecode_decodeTable, List.filterMap_eq_nil_iff,
      Codeword.mem_all, true_imp_iff, Option.map_eq_none_iff]

end LineCode
