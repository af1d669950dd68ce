import LineCode.Proofs.SelfCheck

/-!
# Ambiguous tables

The codec of a table is made by entering its productions one by one, and it is refused at
the first whose word is taken (`Maps.addAll_eq_error_iff`). So a table has a codec when no two
symbols are sent as one word from the same disparity (`Table.nodup_claims_iff`), and a refusal
names the first two that are (`Codec.exists_refused`).

The analysis of anomalies looks at all productions of a word at once and knows no order.
It sees every refusal all the same (`refusals_exact`): the two symbols are both among the
producers of their word.
-/

namespace LineCode

/-! ### Entering productions -/

namespace Maps

variable {m m' : Maps} {p q : Production} {ps : List Production} {f : TableFault}

/-- A production is refused when its word is taken, and the fault says by which symbol. -/
theorem add_eq_error_iff : m.add q = .error f ↔
    ∃ taken, m.reverse.get (decodeAddress q.word q.rdIn) = some taken ∧
      f = .ambiguousWord q.word q.rdIn taken.symbol q.symbol := by
  unfold add
  split
  · rename_i taken h
    simp [h, eq_comm]
  · rename_i h
    simp [h]

/-- Productions that are all entered claim no word twice, and none that was taken before. -/
theorem nodup_of_addAll (h : m.addAll ps = .ok m') : (ps.map Production.claim).Nodup ∧
    ∀ p ∈ ps, m.reverse.get (decodeAddress p.word p.rdIn) = none := by
  induction ps generalizing m with
  | nil => simp
  | cons p ps ih =>
    obtain ⟨m₁, hp, h₁⟩ := addAll_cons_eq_ok_iff.1 h
    obtain ⟨hnd, hfree⟩ := ih h₁
    -- What is free after `p` was free before it, and is not what `p` takes.
    have hlater : ∀ q ∈ ps, decodeAddress p.word p.rdIn ≠ decodeAddress q.word q.rdIn ∧
        m.reverse.get (decodeAddress q.word q.rdIn) = none := by
      intro q hq
      have hget := hfree q hq
      rw [reverse_of_add hp] at hget
      split at hget
      · cases hget
      · exact ⟨‹_›, hget⟩
    rw [List.map_cons, List.nodup_cons, List.forall_mem_cons]
    refine ⟨⟨fun hmem => ?_, hnd⟩, exists_add_iff.1 ⟨m₁, hp⟩, fun q hq => (hlater q hq).2⟩
    obtain ⟨q, hq, hclaim⟩ := List.mem_map.1 hmem
    obtain ⟨hw, hd⟩ := Prod.mk.inj hclaim
    exact (hlater q hq).1 (decodeAddress_inj.2 ⟨hw.symm, hd.symm⟩)

/-- A run stops at the first production that is refused. -/
theorem addAll_eq_error_iff : m.addAll ps = .error f ↔
    ∃ pre q post m₁, ps = pre ++ q :: post ∧ m.addAll pre = .ok m₁ ∧ m₁.add q = .error f := by
  induction ps generalizing m with
  | nil => simp [addAll]
  | cons p ps ih =>
    rw [addAll]
    constructor
    · intro h
      cases hp : m.add p with
      | error g =>
        rw [hp] at h
        cases h
        exact ⟨[], p, ps, m, rfl, rfl, hp⟩
      | ok m₁ =>
        rw [hp] at h
        obtain ⟨pre, q, post, m₂, rfl, hpre, hq⟩ := ih.1 h
        exact ⟨p :: pre, q, post, m₂, rfl, addAll_cons_eq_ok_iff.2 ⟨m₁, hp, hpre⟩, hq⟩
    · rintro ⟨pre, q, post, m₂, hps, hpre, hq⟩
      cases pre with
      | nil =>
        cases hpre
        cases hps
        rw [hq]
        rfl
      | cons r pre =>
        cases hps
        obtain ⟨m₁, hp, hpre⟩ := addAll_cons_eq_ok_iff.1 hpre
        rw [hp]
        exact ih.2 ⟨pre, q, post, m₂, rfl, hpre, hq⟩

/-- Productions have maps when no word is claimed twice, and only then. -/
theorem exists_ofProductions_iff :
    (∃ m, ofProductions ps = .ok m) ↔ (ps.map Production.claim).Nodup :=
  ⟨fun ⟨_, h⟩ => (nodup_of_addAll h).1, exists_ofProductions⟩

end Maps

/-! ### Accepted tables -/

/-- Two productions claim the same when their words and their entering disparities are equal. -/
theorem Production.claim_inj {p q : Production} :
    p.claim = q.claim ↔ p.word = q.word ∧ p.rdIn = q.rdIn :=
  Prod.mk.injEq .. ▸ Iff.rfl

namespace Table

variable {t : Table} {p q : Production}

/-- A table claims no word twice when no two symbols share one from the same disparity. -/
theorem nodup_claims_iff : (t.productions.map Production.claim).Nodup ↔
    ∀ p ∈ t.productions, ∀ q ∈ t.productions, p.word = q.word → p.rdIn = q.rdIn →
      p.symbol = q.symbol := by
  constructor
  · intro h p hp q hq hw hd
    rw [List.inj_on_of_nodup_map h hp hq (Production.claim_inj.2 ⟨hw, hd⟩)]
  · intro h
    refine t.nodup_productions.map_on fun p hp q hq hclaim => ?_
    obtain ⟨hw, hd⟩ := Production.claim_inj.1 hclaim
    exact production_inj hp hq (h p hp q hq hw hd) hd

/-- Two symbols with one word are both reported, as a failure of the code. -/
theorem exists_anomaly (hp : p ∈ t.productions) (hq : q ∈ t.productions) (hw : p.word = q.word)
    (hne : p.symbol ≠ q.symbol) : ∃ a ∈ t.anomalies, a.word = q.word ∧
      a.kind.isCorrectnessFailure = true ∧ p.producer ∈ a.producers ∧ q.producer ∈ a.producers := by
  have hword : q.word ∈ t.anomalies.map Anomaly.word :=
    mem_words_anomalies.2 ⟨p, hp, q, hq, hw, rfl, hne⟩
  obtain ⟨a, ha, haw⟩ := List.mem_map.1 hword
  obtain ⟨hkind, hps⟩ := mem_anomalies.1 ha
  refine ⟨a, ha, haw, ?_, ?_, ?_⟩
  · rw [kind_of_producers hkind]
    split <;> rfl
  · rw [hps, haw, ← hw, mem_producers]
    exact hp
  · rw [hps, haw, mem_producers]
    exact hq

end Table

namespace Codec

variable {t : Table} {f : TableFault}

theorem exists_ofTable_iff :
    (∃ c, ofTable t = .ok c) ↔ (t.productions.map Production.claim).Nodup := by
  rw [← Maps.exists_ofProductions_iff]
  unfold ofTable
  split <;> simp_all

theorem ofTable_eq_error_iff :
    ofTable t = .error f ↔ Maps.ofProductions t.productions = .error f := by
  unfold ofTable
  split <;> simp_all

/-- A word of a codec's table has no more than two producers. -/
theorem kind_eq_of_mem_anomalies {c : Codec} {a : Anomaly} (h : a ∈ c.table.anomalies) :
    a.kind = .differentDecode := by
  rw [c.anomalies_eq, List.mem_filterMap] at h
  obtain ⟨w, -, hw⟩ := h
  obtain ⟨r, -, rfl⟩ := Option.map_eq_some_iff.1 hw
  rfl

end Codec

/-! ### Refused tables -/

/-- How a table comes to be refused with the fault `f`: `q` is the first production whose word is
taken, and `p` is the one that took it. -/
structure Refused (t : Table) (f : TableFault) (p q : Production) : Prop where
  /-- Before `q` no word is claimed twice, and what `q` claims is claimed by `p` alone. -/
  first : ∃ pre post, t.productions = pre ++ q :: post ∧ (pre.map Production.claim).Nodup ∧
    p ∈ pre ∧ ∀ r ∈ pre, r.claim = q.claim ↔ r = p
  symbol_ne : p.symbol ≠ q.symbol
  /-- The fault names the word, where it is entered, and both symbols in their order. -/
  fault_eq : f = .ambiguousWord q.word q.rdIn p.symbol q.symbol
  /-- The analysis reports the word as a failure of the code, with both symbols. -/
  reported : ∃ a ∈ t.anomalies, a.word = q.word ∧ a.kind.isCorrectnessFailure = true ∧
    ⟨q.rdIn, p.symbol, p.rdOut⟩ ∈ a.producers ∧ ⟨q.rdIn, q.symbol, q.rdOut⟩ ∈ a.producers

theorem Codec.exists_refused {t : Table} {f : TableFault} (h : ofTable t = .error f) :
    ∃ p q, Refused t f p q := by
  obtain ⟨pre, q, post, m, hps, hpre, hq⟩ :=
    Maps.addAll_eq_error_iff.1 (ofTable_eq_error_iff.1 h)
  obtain ⟨taken, htaken, rfl⟩ := Maps.add_eq_error_iff.1 hq
  have hnd := (Maps.nodup_of_addAll hpre).1
  obtain hempty | ⟨p, hp, ha, rfl⟩ := (Maps.reverse_addAll hpre _ _).1 htaken
  · cases hempty.symm.trans (get_replicate ..)
  obtain ⟨hw, hd⟩ := decodeAddress_inj.1 ha
  have hclaim : p.claim = q.claim := Production.claim_inj.2 ⟨hw, hd⟩
  have hpt : p ∈ t.productions := by simp [hps, hp]
  have hqt : q ∈ t.productions := by simp [hps]
  have hne : p.symbol ≠ q.symbol := by
    intro hs
    obtain rfl := Table.production_inj hpt hqt hs hd
    have hnodup := t.nodup_productions
    rw [hps, List.nodup_append] at hnodup
    exact hnodup.2.2 p hp p (by simp) rfl
  refine ⟨p, q, ⟨pre, post, hps, hnd, hp, fun r hr => ⟨fun hrq => ?_, fun hrp => ?_⟩⟩, hne, rfl, ?_⟩
  · exact List.inj_on_of_nodup_map hnd hr hp (hrq.trans hclaim.symm)
  · rw [hrp, hclaim]
  · obtain ⟨a, ha, haw, hfails, hpa, hqa⟩ := Table.exists_anomaly hpt hqt hw hne
    exact ⟨a, ha, haw, hfails, hd ▸ hpa, hqa⟩

/-- Tables with a codec and tables without one, and what the analysis makes of them. -/
structure RefusalsExact (t : Table) : Prop where
  /-- A table has a codec when no two symbols have one word for the same entering disparity. -/
  accepted_iff : (∃ c, Codec.ofTable t = .ok c) ↔ ∀ p ∈ t.productions, ∀ q ∈ t.productions,
    p.word = q.word → p.rdIn = q.rdIn → p.symbol = q.symbol
  /-- Otherwise the first two that do are named, and the analysis sees them. -/
  refused : ∀ f, Codec.ofTable t = .error f → ∃ p q, Refused t f p q
  /-- A table without anomalies has a codec. -/
  accepted_of_clear : t.anomalies = [] → ∃ c, Codec.ofTable t = .ok c
  /-- In a table with a codec no word has too many producers. -/
  kind_ne : ∀ c, Codec.ofTable t = .ok c → ∀ a ∈ t.anomalies, a.kind ≠ .tooManyProducers

/-- **Refusals**: a table has no codec exactly when two of its symbols have one word for the same
entering disparity; the refusal names the first such pair in the order of the rows, and the
analysis of the table reports the pair too. -/
theorem refusals_exact (t : Table) : RefusalsExact t where
  accepted_iff := Codec.exists_ofTable_iff.trans Table.nodup_claims_iff
  refused := fun _ => Codec.exists_refused
  accepted_of_clear := by
    intro h
    refine Codec.exists_ofTable_iff.2 (Table.nodup_claims_iff.2 fun p hp q hq hw _ => ?_)
    exact Table.anomalies_eq_nil_iff.1 h p hp q hq hw
  kind_ne := by
    intro c hc a ha
    rw [← Codec.table_ofTable hc] at ha
    rw [Codec.kind_eq_of_mem_anomalies ha]
    decide

/-- The third row takes the words of both others; the clash with the second comes first. -/
example :
    ((Table.ofRows [⟨.data 0x00, 0b100111_0100, 0b011000_1011⟩,
      ⟨.data 0x01, 0b011101_0100, 0b100010_1011⟩,
      ⟨.data 0x02, 0b011101_0100, 0b011000_1011⟩]).bind fun t =>
        (Codec.ofTable t).map fun _ => ()) =
      .error (.ambiguousWord ⟨0x0AE⟩ .negative (.data 0x01) (.data 0x02)) := by
  decide +kernel

end LineCode
