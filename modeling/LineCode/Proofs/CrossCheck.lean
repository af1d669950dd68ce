import LineCode.Proofs.LookupRefinement
import LineCode.Proofs.SelfCheck

/-!
# Cross checks

The look-up tables of one codec can be checked against another codec. The encode table is
found wrong at the addresses at which the two codecs send different things
(`mem_addresses_checkEncode`). The decode table, if its code has no anomaly, is found wrong
once for each word and entering disparity that the two codecs read differently
(`places_checkDecode`): in one of them only, or as two symbols. The exit disparity of a word
is compared as well and is never found wrong, because the word itself decides it
(`Codec.rd_eq_of_decode_ok`).

So each check is silent when the two codes state the same facts, and only then
(`crossCheck_exact`). With an anomaly the decode check can fail even then, as the row of a
word holds one of its two symbols only.
-/

namespace LineCode

/-- Two tables state the same facts, be it in another order. -/
def Table.SameCode (t t' : Table) : Prop := ∀ p, p ∈ t.productions ↔ p ∈ t'.productions

/-- The entering disparity that a departure names, if it names one. -/
def Discrepancy.rd? : Discrepancy → Option Disparity
  | .incomplete _ rd | .otherEncoding _ rd _ _ | .otherDisparityError _ rd
  | .flaggedInvalid _ rd _ | .otherDecoding _ rd _ _ | .flaggedValid _ rd | .unspecified _ rd =>
    some rd
  | .unsupported _ => none

namespace Codec

variable {c c' : Codec} {w : Codeword} {d : Disparity} {s : Symbol}

/-- The symbol that a word is read as, if it is read. -/
def symbol? (c : Codec) (w : Codeword) (d : Disparity) : Option Symbol :=
  (c.decode w d).toOption.map Decoded.symbol

/-- How what `c` reads departs from what `c'` reads, if it does. -/
def decodeDeparture (c c' : Codec) (w : Codeword) (d : Disparity) : Option Discrepancy :=
  match c.decode w d, c'.decode w d with
  | .error _, .error _ => none
  | .error _, .ok r' => some (.flaggedInvalid w d r'.symbol)
  | .ok _, .error _ => some (.flaggedValid w d)
  | .ok r, .ok r' =>
    if r.symbol = r'.symbol then none else some (.otherDecoding w d r'.symbol r'.rd)

/-! ### Codecs of the same code -/

theorem symbol?_eq_some_iff : c.symbol? w d = some s ↔ ∃ e, ⟨d, s, e, w⟩ ∈ c.table.productions := by
  unfold symbol?
  cases h : c.decode w d with
  | error q =>
    have hno := (decode_eq_error_iff.1 h).1 s
    simp [Except.toOption, hno]
  | ok r =>
    have hr := (decode_eq_ok_iff.1 h).1
    simp only [Except.toOption, Option.map_some, Option.some_inj]
    constructor
    · rintro rfl
      exact ⟨r.rd, hr⟩
    · rintro ⟨e, he⟩
      rw [decode_of_mem he] at h
      cases h
      rfl

/-- Where a word leads does not depend on what it is read as. -/
theorem rd_eq_of_decode_ok {r r' : Decoded} (h : c.decode w d = .ok r)
    (h' : c'.decode w d = .ok r') : r.rd = r'.rd := by
  have hr : evolve d w = some r.rd := Table.evolve_of_mem (decode_eq_ok_iff.1 h).1
  have hr' : evolve d w = some r'.rd := Table.evolve_of_mem (decode_eq_ok_iff.1 h').1
  exact Option.some.inj (hr.symm.trans hr')

/-- Two codecs send the same when their codes are the same. -/
theorem encode_eq_iff_sameCode :
    (∀ s d, c.encode s d = c'.encode s d) ↔ c.table.SameCode c'.table := by
  constructor
  · rintro h ⟨d, s, e, w⟩
    rw [← encode_eq_ok_iff, h, encode_eq_ok_iff]
  · intro h s d
    cases hs : c.encode s d with
    | ok x => exact (encode_eq_ok_iff.2 ((h _).1 (encode_eq_ok_iff.1 hs))).symm
    | error u =>
      obtain ⟨hno, rfl⟩ := encode_eq_error_iff.1 hs
      cases hs' : c'.encode s d with
      | ok x' =>
        rw [encode_eq_ok_iff.2 ((h _).2 (encode_eq_ok_iff.1 hs'))] at hs
        cases hs
      | error u' =>
        obtain ⟨-, rfl⟩ := encode_eq_error_iff.1 hs'
        rfl

/-- Two codecs read the same symbols when their codes are the same. -/
theorem symbol?_eq_iff_sameCode :
    (∀ w d, c.symbol? w d = c'.symbol? w d) ↔ c.table.SameCode c'.table := by
  constructor
  · -- The symbol is all that a reading has to say: the exit disparity follows.
    have hsub : ∀ {c c' : Codec}, (∀ w d, c.symbol? w d = c'.symbol? w d) →
        ∀ p ∈ c.table.productions, p ∈ c'.table.productions := by
      intro c c' h p hp
      have hsymbol : c'.symbol? p.word p.rdIn = some p.symbol := by
        rw [← h]
        exact symbol?_eq_some_iff.2 ⟨p.rdOut, hp⟩
      obtain ⟨e, he⟩ := symbol?_eq_some_iff.1 hsymbol
      have hexit : evolve p.rdIn p.word = some e := Table.evolve_of_mem he
      rw [Table.evolve_of_mem hp] at hexit
      cases hexit
      exact he
    exact fun h p => ⟨hsub h p, hsub (fun w d => (h w d).symm) p⟩
  · intro h w d
    ext s
    rw [symbol?_eq_some_iff, symbol?_eq_some_iff]
    exact exists_congr fun e => h _

/-! ### Departures -/

theorem decodeDeparture_eq_none_iff :
    c.decodeDeparture c' w d = none ↔ c.symbol? w d = c'.symbol? w d := by
  unfold decodeDeparture symbol?
  cases c.decode w d <;> cases c'.decode w d <;> simp [Except.toOption]

theorem rd?_of_decodeDeparture {x : Discrepancy} (h : c.decodeDeparture c' w d = some x) :
    x.rd? = some d := by
  unfold decodeDeparture at h
  split at h
  · cases h
  · cases h; rfl
  · cases h; rfl
  · split at h
    · cases h
    · cases h; rfl

end Codec

variable {c c' : Codec} {w : Codeword} {d : Disparity}

/-! ### The encode table -/

/-- Mismatches are reported in ascending order of their addresses, one for each. -/
theorem checkEncode_ascending (t : LookupTable 11) (c : Codec) :
    ((t.checkEncode c).map Mismatch.address).Pairwise (· < ·) := by
  unfold LookupTable.checkEncode
  rw [List.pairwise_map]
  refine (List.pairwise_lt_finRange 1024).filterMap _ fun a b hlt m hm m' hm' => ?_
  obtain ⟨x, -, rfl⟩ := Option.map_eq_some_iff.1 hm
  obtain ⟨x', -, rfl⟩ := Option.map_eq_some_iff.1 hm'
  exact hlt

/-- They are found where the two codecs send different things. -/
theorem mem_addresses_checkEncode {n : Nat} :
    n ∈ (c.encodeTable.checkEncode c').map Mismatch.address ↔
      ∃ s d, c.encode s d ≠ c'.encode s d ∧ (encodeAddress s d).val = n := by
  simp only [LookupTable.checkEncode, List.mem_map, List.mem_filterMap, List.mem_finRange, true_and,
    Option.map_eq_some_iff]
  constructor
  · rintro ⟨_, ⟨a, x, hx, rfl⟩, rfl⟩
    refine ⟨(Symbol.ofAddress a).1, (Symbol.ofAddress a).2, fun h => ?_, ?_⟩
    · rw [← encodeDiscrepancy_eq_none_iff, encodeAddress_ofAddress, hx] at h
      cases h
    · rw [encodeAddress_ofAddress]
  · rintro ⟨s, d, hne, rfl⟩
    obtain ⟨x, hx⟩ := Option.ne_none_iff_exists'.1 (mt encodeDiscrepancy_eq_none_iff.1 hne)
    exact ⟨_, ⟨_, x, hx, rfl⟩, rfl⟩

theorem checkEncode_eq_nil_iff :
    c.encodeTable.checkEncode c' = [] ↔ ∀ s d, c.encode s d = c'.encode s d := by
  have hnone : c.encodeTable.checkEncode c' = [] ↔
      ∀ n, n ∉ (c.encodeTable.checkEncode c').map Mismatch.address := by
    rw [← List.eq_nil_iff_forall_not_mem, List.map_eq_nil_iff]
  simp only [hnone, mem_addresses_checkEncode]
  constructor
  · intro h s d
    by_contra hne
    exact h _ ⟨s, d, hne, rfl⟩
  · rintro h _ ⟨s, d, hne, -⟩
    exact hne (h s d)

/-! ### The decode table -/

/-- Without anomalies a row departs from a codec as the codec it was made from does. -/
theorem decodeDiscrepancy_of_clear (hc : c.table.anomalies = []) :
    decodeDiscrepancy c' w (decodeRow c w) d = c.decodeDeparture c' w d := by
  unfold decodeDiscrepancy Codec.decodeDeparture
  rw [bit_decodeRow_errorBit]
  cases h : c.decode w d with
  | error q =>
    rw [Codec.isValid_eq_false_iff.2 ⟨q, h⟩]
    cases c'.decode w d <;> rfl
  | ok r =>
    obtain ⟨held, hheld, hsymbol⟩ := Codec.exists_held_symbol hc h
    rw [Codec.isValid_eq_true_iff.2 ⟨r, h⟩]
    cases h' : c'.decode w d with
    | error q => rfl
    | ok r' =>
      have hrd : r.rd = r'.rd := Codec.rd_eq_of_decode_ok h h'
      simp [rowSymbol?_decodeRow hheld, rowExit?_decodeRow h, hsymbol, hrd]

/-- Without anomalies the check of the decode table reports the departures of the two codecs, word
by word and for a negative disparity first. -/
theorem checkDecode_of_clear (hc : c.table.anomalies = []) : c.decodeTable.checkDecode c' =
    Codeword.all.flatMap fun w =>
      (Disparity.all.filterMap (c.decodeDeparture c' w)).map fun x => ⟨.decode, w.toNat, x⟩ := by
  rw [checkDecode_eq_flatMap]
  refine List.flatMap_congr fun w _ => ?_
  rw [rowDiscrepancies_eq, List.filterMap_congr fun d _ => decodeDiscrepancy_of_clear hc]

/-- They are where the two codecs read different symbols. -/
theorem places_checkDecode (hc : c.table.anomalies = []) :
    (c.decodeTable.checkDecode c').map (fun m => (m.address, m.discrepancy.rd?)) =
      Codeword.all.flatMap fun w =>
        (Disparity.all.filter fun d => c.symbol? w d ≠ c'.symbol? w d).map fun d =>
          (w.toNat, some d) := by
  rw [checkDecode_of_clear hc, List.map_flatMap]
  refine List.flatMap_congr fun w _ => ?_
  rw [List.map_map, List.map_filterMap, ← List.filterMap_eq_map, List.filterMap_filter]
  refine List.filterMap_congr fun d _ => ?_
  by_cases heq : c.symbol? w d = c'.symbol? w d
  · rw [Codec.decodeDeparture_eq_none_iff.2 heq, if_neg (by simpa using heq)]
    rfl
  · obtain ⟨x, hx⟩ := Option.ne_none_iff_exists'.1 (mt Codec.decodeDeparture_eq_none_iff.1 heq)
    rw [hx, if_pos (by simpa using heq)]
    simp [Codec.rd?_of_decodeDeparture hx]

theorem checkDecode_eq_nil_iff (hc : c.table.anomalies = []) :
    c.decodeTable.checkDecode c' = [] ↔ ∀ w d, c.symbol? w d = c'.symbol? w d := by
  simp only [checkDecode_of_clear hc, List.flatMap_eq_nil_iff, List.map_eq_nil_iff,
    List.filterMap_eq_nil_iff, Codec.decodeDeparture_eq_none_iff, Codeword.mem_all,
    Disparity.mem_all, true_imp_iff]

/-! ### Both tables -/

/-- What the checks of the look-up tables of one codec against another find. -/
structure CrossCheck (c c' : Codec) : Prop where
  /-- The encode table fails once at an address, in ascending order, -/
  encode_ascending : ((c.encodeTable.checkEncode c').map Mismatch.address).Pairwise (· < ·)
  /-- at the addresses of what the codecs send differently. -/
  encode : ∀ n, n ∈ (c.encodeTable.checkEncode c').map Mismatch.address ↔
    ∃ s d, c.encode s d ≠ c'.encode s d ∧ (encodeAddress s d).val = n
  /-- Without anomalies the decode table fails once for each word and disparity that the codecs
  read differently, in ascending order and a negative disparity first. -/
  decode : c.table.anomalies = [] →
    (c.decodeTable.checkDecode c').map (fun m => (m.address, m.discrepancy.rd?)) =
      Codeword.all.flatMap fun w =>
        (Disparity.all.filter fun d => c.symbol? w d ≠ c'.symbol? w d).map fun d =>
          (w.toNat, some d)
  /-- The encode table passes when the codes are the same, -/
  encode_nil_iff : c.encodeTable.checkEncode c' = [] ↔ c.table.SameCode c'.table
  /-- and so does the decode table, without anomalies. -/
  decode_nil_iff : c.table.anomalies = [] →
    (c.decodeTable.checkDecode c' = [] ↔ c.table.SameCode c'.table)

/-- **Cross check**: checked against any codec, the look-up tables of a codec fail where the
two codecs differ, and nowhere else; the decode table if its code has no anomaly. -/
theorem crossCheck_exact (c c' : Codec) : CrossCheck c c' where
  encode_ascending := checkEncode_ascending c.encodeTable c'
  encode _ := mem_addresses_checkEncode
  decode := places_checkDecode
  encode_nil_iff := checkEncode_eq_nil_iff.trans Codec.encode_eq_iff_sameCode
  decode_nil_iff hc := (checkDecode_eq_nil_iff hc).trans Codec.symbol?_eq_iff_sameCode

/-- Another detector makes no difference to the checks; to have no symbols does. -/
theorem crossCheck_exact_standard : Codec.standard.table.anomalies = [] ∧
    Codec.standard.decodeTable.checkDecode (Codec.standard.withDetector .loose) = [] ∧
    ∃ c, Codec.ofTable ⟨[], .nil⟩ = .ok c ∧ Codec.standard.encodeTable.checkEncode c ≠ [] ∧
      Codec.standard.decodeTable.checkDecode c ≠ [] := by
  have hclear := Codec.anomalies_standard
  have hloose : Codec.standard.table.SameCode (Codec.standard.withDetector .loose).table := by
    rw [Codec.table_withDetector]
    exact fun _ => Iff.rfl
  obtain ⟨c, hc⟩ : ∃ c, Codec.ofTable ⟨[], .nil⟩ = .ok c :=
    ⟨_, Codec.ofTable_ofClearTable (t := ⟨[], .nil⟩) .nil⟩
  have hdiffer : ¬ Codec.standard.table.SameCode c.table := by
    rw [Codec.table_standard, Codec.table_ofTable hc]
    intro h
    cases (h _).1 Table.comma_mem_standard
  refine ⟨hclear, ?_, c, hc, ?_, ?_⟩
  · exact ((crossCheck_exact .standard (.withDetector .standard .loose)).decode_nil_iff hclear).2
      hloose
  · exact mt (crossCheck_exact .standard c).encode_nil_iff.1 hdiffer
  · exact mt ((crossCheck_exact .standard c).decode_nil_iff hclear).1 hdiffer

end LineCode
