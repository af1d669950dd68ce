import LineCode.Proofs.Producers

/-!
# The anomaly report

The analysis of a table misses nothing and reports nothing else (`anomalies_exact`). The
producers of a word are its productions, sorted (`Table.producers_eq_sort`), those of all
words together are the productions of the table, and the words reported are those that two
symbols are sent as.

Two producers of one symbol are never reported, so of the four kinds of anomaly a table
that rows can write has only the two that make a word stand for several symbols
(`Table.kind_of_producers`).
-/

namespace LineCode

/-! ### Kinds -/

/-- Producers of several symbols make an anomaly whose kind is known by how many they are. -/
theorem AnomalyKind.eq_of_ofProducers {as : List Producer} {k : AnomalyKind} {a b : Producer}
    (h : ofProducers as = some k) (ha : a ∈ as) (hb : b ∈ as) (hne : a.symbol ≠ b.symbol) :
    k = if 3 ≤ as.length then .tooManyProducers else .differentDecode := by
  match as with
  | [] => cases ha
  | [_] => cases h
  | [p, q] =>
    have hpq : p.symbol ≠ q.symbol := by
      intro hpq
      rw [List.mem_pair] at ha hb
      obtain rfl | rfl := ha <;> obtain rfl | rfl := hb
      · exact hne rfl
      · exact hne hpq
      · exact hne hpq.symm
      · exact hne rfl
    have hpair : ofPair p q = some .differentDecode := if_pos hpq
    rw [ofProducers, hpair] at h
    cases h
    rfl
  | _ :: _ :: _ :: _ =>
    cases h
    exact (if_pos (by simp)).symm

/-! ### All producers -/

/-- The fact that a producer of a word states. -/
def Producer.production (a : Producer) (w : Codeword) : Production := ⟨a.rdIn, a.symbol, a.rdOut, w⟩

theorem Producer.production_inj {a b : Producer} {v w : Codeword} :
    a.production v = b.production w ↔ a = b ∧ v = w := by
  cases a
  cases b
  simp only [production, Production.mk.injEq, Producer.mk.injEq]
  tauto

theorem Codeword.all_ascending : all.Pairwise fun v w => v.toNat < w.toNat := by
  refine List.pairwise_map.2 (List.pairwise_lt_range.imp_of_mem fun hi hj h => ?_)
  rw [List.mem_range] at hi hj
  rw [toNat_ofNat, toNat_ofNat, Nat.mod_eq_of_lt hi, Nat.mod_eq_of_lt hj]
  exact h

namespace Table

variable {t : Table} {w : Codeword}

theorem length_productions (t : Table) : t.productions.length = 2 * t.size := by
  unfold productions size
  rw [List.length_flatMap]
  induction t.entries with
  | nil => rfl
  | cons n ns ih =>
    have hn : n.productions.length = 2 := rfl
    rw [List.map_cons, List.sum_cons, hn, ih, List.length_cons]
    omega

/-- No production is listed twice. -/
theorem nodup_productions (t : Table) : t.productions.Nodup := by
  refine List.nodup_flatMap.2 ⟨fun n _ => ?_, ?_⟩
  · simp [Entry.productions, Disparity.all, Entry.production]
  · refine (List.pairwise_map.1 t.nodup).imp fun hne p hp hq => ?_
    rw [Entry.mem_productions] at hp hq
    have := congrArg Production.symbol (hp.trans hq.symm)
    exact hne this

theorem mem_producers {a : Producer} : a ∈ t.producers w ↔ a.production w ∈ t.productions := by
  unfold producers
  rw [mem_producersIn]
  constructor
  · rintro ⟨p, hp, rfl, rfl⟩
    exact hp
  · intro h
    exact ⟨_, h, rfl, rfl⟩

/-- The producers of all words, each with its word, are the productions. -/
theorem producers_perm (t : Table) :
    (Codeword.all.flatMap fun w => (t.producers w).map (Producer.production · w)).Perm
      t.productions := by
  -- Neither list has a production twice, so it is enough that they have the same ones.
  refine (List.perm_ext_iff_of_nodup ?_ t.nodup_productions).2 fun p => ?_
  · refine List.nodup_flatMap.2 ⟨fun w _ => ?_, ?_⟩
    · exact (nodup_producersIn _ w).map fun a b h => (Producer.production_inj.1 h).1
    · refine Codeword.all_ascending.imp fun hlt p hp hq => ?_
      obtain ⟨a, -, rfl⟩ := List.mem_map.1 hp
      obtain ⟨b, -, hb⟩ := List.mem_map.1 hq
      rw [(Producer.production_inj.1 hb).2] at hlt
      exact Nat.lt_irrefl _ hlt
  · simp only [List.mem_flatMap, List.mem_map, Codeword.mem_all, true_and, mem_producers]
    constructor
    · rintro ⟨w, a, ha, rfl⟩
      exact ha
    · intro hp
      exact ⟨p.word, p.producer, hp, rfl⟩

/-- A word's producers are its productions, sorted. -/
theorem producers_eq_sort (t : Table) (w : Codeword) : t.producers w =
    Producer.sort ((t.productions.filter (·.word = w)).map Production.producer) := by
  -- Productions of one word are told apart by their producers, so no producer is listed twice.
  have hnodup : ((t.productions.filter (·.word = w)).map Production.producer).Nodup := by
    refine (t.nodup_productions.filter _).map_on fun p hp q hq h => ?_
    have hpq : p.word = q.word := by
      rw [of_decide_eq_true (List.mem_filter.1 hp).2, of_decide_eq_true (List.mem_filter.1 hq).2]
    exact Producer.production_inj.2 ⟨h, hpq⟩
  refine (Producer.sort_eq ?_ ((producersIn_sorted _ w).imp Nat.le_of_lt)).symm
  refine (List.perm_ext_iff_of_nodup hnodup (nodup_producersIn _ w)).2 fun a => ?_
  rw [mem_producersIn]
  simp [and_assoc]

/-- The used words are those that a production sends. -/
theorem mem_usedWords : w ∈ t.usedWords ↔ ∃ p ∈ t.productions, p.word = w := by
  have hempty : (!(producersIn t.productions w).isEmpty) = true ↔
      ∃ a, a ∈ producersIn t.productions w := by
    rw [Bool.not_eq_true', List.isEmpty_eq_false_iff_exists_mem]
  rw [usedWords, List.mem_filter, and_iff_right w.mem_all, hempty]
  constructor
  · rintro ⟨a, ha⟩
    obtain ⟨p, hp, hw, -⟩ := mem_producersIn.1 ha
    exact ⟨p, hp, hw⟩
  · rintro ⟨p, hp, hw⟩
    exact ⟨p.producer, mem_producersIn.2 ⟨p, hp, hw, rfl⟩⟩

theorem usedWords_ascending (t : Table) :
    (t.usedWords.map Codeword.toNat).Pairwise (· < ·) := by
  rw [usedWords, List.pairwise_map]
  exact Codeword.all_ascending.filter _

/-! ### Several symbols -/

/-- Producers of a word that make an anomaly are of two symbols. -/
theorem exists_symbol_ne {k : AnomalyKind} (h : AnomalyKind.ofProducers (t.producers w) = some k) :
    ∃ a ∈ t.producers w, ∃ b ∈ t.producers w, a.symbol ≠ b.symbol := by
  by_contra hall
  have hnone : AnomalyKind.ofProducers (t.producers w) = none := by
    refine ofProducers_eq_none fun a ha b hb => ?_
    by_contra hne
    exact hall ⟨a, ha, b, hb, hne⟩
  rw [hnone] at h
  cases h

/-- A word stands for several symbols when it has an anomaly: two producers, or more. -/
theorem kind_of_producers {k : AnomalyKind}
    (h : AnomalyKind.ofProducers (t.producers w) = some k) :
    k = if 3 ≤ (t.producers w).length then .tooManyProducers else .differentDecode := by
  obtain ⟨a, ha, b, hb, hne⟩ := exists_symbol_ne h
  exact AnomalyKind.eq_of_ofProducers h ha hb hne

/-! ### Anomalies -/

/-- An anomaly is a word with all its producers. -/
theorem mem_anomalies {a : Anomaly} : a ∈ t.anomalies ↔
    AnomalyKind.ofProducers (t.producers a.word) = some a.kind ∧
      a.producers = t.producers a.word := by
  unfold anomalies anomalyIn
  simp only [List.mem_filterMap, Codeword.mem_all, true_and, Option.map_eq_some_iff]
  constructor
  · rintro ⟨w, k, hk, rfl⟩
    exact ⟨hk, rfl⟩
  · rintro ⟨hk, hps⟩
    exact ⟨a.word, a.kind, hk, by rw [← producers, ← hps]⟩

/-- Words are reported in ascending order, each once. -/
theorem anomalies_ascending (t : Table) :
    (t.anomalies.map fun a => a.word.toNat).Pairwise (· < ·) := by
  have hword : ∀ {v : Codeword} {a : Anomaly}, anomalyIn t.productions v = some a → a.word = v := by
    intro v a h
    obtain ⟨k, -, rfl⟩ := Option.map_eq_some_iff.1 h
    rfl
  unfold anomalies
  rw [List.pairwise_map]
  refine Codeword.all_ascending.filterMap _ fun v v' hlt a ha a' ha' => ?_
  rw [hword ha, hword ha']
  exact hlt

/-- A word is reported when two symbols are sent as it, from one disparity or from two. -/
theorem mem_words_anomalies : w ∈ t.anomalies.map Anomaly.word ↔
    ∃ p ∈ t.productions, ∃ q ∈ t.productions, p.word = w ∧ q.word = w ∧ p.symbol ≠ q.symbol := by
  rw [List.mem_map]
  constructor
  · rintro ⟨a, ha, rfl⟩
    obtain ⟨x, hx, y, hy, hne⟩ := exists_symbol_ne (mem_anomalies.1 ha).1
    exact ⟨_, mem_producers.1 hx, _, mem_producers.1 hy, rfl, rfl, hne⟩
  · rintro ⟨p, hp, q, hq, rfl, hqw, hne⟩
    cases hk : AnomalyKind.ofProducers (t.producers p.word) with
    | none =>
      have hmem : p.producer ∈ t.producers p.word := mem_producers.2 hp
      have hmem' : q.producer ∈ t.producers p.word := hqw ▸ mem_producers.2 hq
      exact absurd (AnomalyKind.symbol_eq_of_ofProducers hk hmem hmem') hne
    | some k => exact ⟨⟨p.word, k, t.producers p.word⟩, mem_anomalies.2 ⟨hk, rfl⟩, rfl⟩

end Table

/-! ### The report -/

/-- The anomalies of a table are what they should be. -/
structure AnomaliesExact (t : Table) : Prop where
  /-- A table has two productions for each symbol, -/
  length_productions : t.productions.length = 2 * t.size
  /-- and they are the producers of all words, each with its word: none is merged or lost. -/
  producers_perm : (Codeword.all.flatMap fun w =>
    (t.producers w).map (Producer.production · w)).Perm t.productions
  /-- Words are reported in ascending order, each once. -/
  ascending : (t.anomalies.map fun a => a.word.toNat).Pairwise (· < ·)
  /-- They are the words that two symbols are sent as, from one disparity or from two. -/
  reported_iff : ∀ w, w ∈ t.anomalies.map Anomaly.word ↔
    ∃ p ∈ t.productions, ∃ q ∈ t.productions, p.word = w ∧ q.word = w ∧ p.symbol ≠ q.symbol
  /-- Each comes with all its producers, -/
  producers_iff : ∀ a ∈ t.anomalies, ∀ b, b ∈ a.producers ↔ b.production a.word ∈ t.productions
  /-- in order, each once. -/
  sorted : ∀ a ∈ t.anomalies, a.producers.Pairwise fun b b' => b.rank < b'.rank
  /-- Three producers are too many; two decode differently. -/
  kind_eq : ∀ a ∈ t.anomalies,
    a.kind = if 3 ≤ a.producers.length then .tooManyProducers else .differentDecode
  /-- The other kinds are never reported, -/
  kind_ne : ∀ a ∈ t.anomalies, a.kind ≠ .notAlwaysSwap ∧ a.kind ≠ .alwaysChanges
  /-- so every anomaly makes the table fail, under either policy. -/
  fails : ∀ a ∈ t.anomalies, ∀ policy, a.kind.fails policy = true

/-- **Anomalies**: for every table the analysis keeps each production, reports the words that
stand for several symbols and no others, in order and with all their producers, and gives each
the kind that the number of its producers makes it. -/
theorem anomalies_exact (t : Table) : AnomaliesExact t := by
  have hkind : ∀ a ∈ t.anomalies,
      a.kind = if 3 ≤ a.producers.length then .tooManyProducers else .differentDecode := by
    intro a ha
    obtain ⟨hk, hps⟩ := Table.mem_anomalies.1 ha
    rw [hps]
    exact Table.kind_of_producers hk
  refine {
    length_productions := t.length_productions
    producers_perm := t.producers_perm
    ascending := t.anomalies_ascending
    reported_iff := fun w => Table.mem_words_anomalies
    producers_iff := fun a ha b => ?_
    sorted := fun a ha => ?_
    kind_eq := hkind
    kind_ne := fun a ha => ?_
    fails := fun a ha policy => ?_ }
  · rw [(Table.mem_anomalies.1 ha).2]
    exact Table.mem_producers
  · rw [(Table.mem_anomalies.1 ha).2]
    exact producersIn_sorted _ _
  · rw [hkind a ha]
    split <;> decide
  · rw [hkind a ha]
    split <;> cases policy <;> rfl

/-- Two symbols that swap their words make an anomaly of each word. -/
example :
    (Table.ofRows [⟨.data 0x00, 0b100111_0100, 0b011000_1011⟩,
      ⟨.data 0x01, 0b011000_1011, 0b100111_0100⟩]).map
        (fun t => t.anomalies.map fun a => (a.word, a.kind)) =
      .ok [(⟨0x0B9⟩, .differentDecode), (⟨0x346⟩, .differentDecode)] := by
  decide +kernel

end LineCode
