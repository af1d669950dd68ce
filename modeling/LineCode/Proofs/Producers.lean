import LineCode.Anomaly
import LineCode.Proofs.StandardWords

/-!
# Producers and anomalies

The producers of a word are the productions with that word, without the word, each once
and in order (`mem_producersIn`, `producersIn_sorted`); there is one such order, and producers
that are listed in any other are sorted into it (`Producer.sort_eq`).

Two producers of one symbol enter in different disparities, so the word is balanced and the
pair harmless. Hence a table has no anomaly exactly when no word stands for two symbols,
whatever disparity it is entered in (`Table.anomalies_eq_nil_iff`). The standard has none
(`Table.anomalies_standard`).
-/

namespace LineCode

/-! ### Ordered sets of producers -/

namespace Producer

theorem mem_insert {p q : Producer} {qs : List Producer} :
    q ∈ insert p qs ↔ q = p ∨ q ∈ qs := by
  induction qs with
  | nil => simp [insert]
  | cons r qs ih =>
    rw [insert]
    split
    · simp
    · split
      · rename_i hr
        obtain rfl := rank_inj.1 hr
        exact ⟨.inr, fun h => h.elim (fun hq => hq ▸ List.mem_cons_self) id⟩
      · rw [List.mem_cons, ih, List.mem_cons]
        exact or_left_comm

/-- Inserting keeps producers in order, each once. -/
theorem insert_sorted {p : Producer} {qs : List Producer}
    (h : qs.Pairwise fun a b => a.rank < b.rank) :
    (insert p qs).Pairwise fun a b => a.rank < b.rank := by
  induction qs with
  | nil => simp [insert]
  | cons r qs ih =>
    obtain ⟨hr, hqs⟩ := List.pairwise_cons.1 h
    rw [insert]
    split
    · rename_i hlt
      refine List.pairwise_cons.2 ⟨fun a ha => ?_, h⟩
      rcases List.mem_cons.1 ha with rfl | ha
      · exact hlt
      · exact Nat.lt_trans hlt (hr a ha)
    · split
      · exact h
      · refine List.pairwise_cons.2 ⟨fun a ha => ?_, ih hqs⟩
        rcases mem_insert.1 ha with rfl | ha
        · omega
        · exact hr a ha

/-- Sorting keeps every producer as often as it is listed. -/
theorem sort_perm (ps : List Producer) : (sort ps).Perm ps := List.mergeSort_perm ps _

theorem sort_sorted (ps : List Producer) : (sort ps).Pairwise fun a b => a.rank ≤ b.rank := by
  have htrans : ∀ a b c : Producer, decide (a.rank ≤ b.rank) = true →
      decide (b.rank ≤ c.rank) = true → decide (a.rank ≤ c.rank) = true := by
    intro a b c hab hbc
    exact decide_eq_true (Nat.le_trans (of_decide_eq_true hab) (of_decide_eq_true hbc))
  have htotal : ∀ a b : Producer,
      (decide (a.rank ≤ b.rank) || decide (b.rank ≤ a.rank)) = true := by
    intro a b
    rw [Bool.or_eq_true, decide_eq_true_eq, decide_eq_true_eq]
    exact Nat.le_total a.rank b.rank
  exact (List.pairwise_mergeSort htrans htotal ps).imp fun h => of_decide_eq_true h

/-- Producers have one order: a list that is in order is what its producers are sorted into,
however they are listed. -/
theorem sort_eq {ps qs : List Producer} (hperm : ps.Perm qs)
    (hsorted : qs.Pairwise fun a b => a.rank ≤ b.rank) : sort ps = qs :=
  ((sort_perm ps).trans hperm).eq_of_pairwise
    (fun _ _ _ _ hab hba => rank_inj.1 (Nat.le_antisymm hab hba)) (sort_sorted ps) hsorted

end Producer

theorem mem_producersIn {ps : List Production} {w : Codeword} {a : Producer} :
    a ∈ producersIn ps w ↔ ∃ p ∈ ps, p.word = w ∧ p.producer = a := by
  have h : ∀ as : List Producer, a ∈ as.foldr Producer.insert [] ↔ a ∈ as := by
    intro as
    induction as with
    | nil => simp
    | cons b as ih => simp only [List.foldr_cons, Producer.mem_insert, ih, List.mem_cons]
  unfold producersIn
  simp [h, and_assoc]

theorem producersIn_sorted (ps : List Production) (w : Codeword) :
    (producersIn ps w).Pairwise fun a b => a.rank < b.rank := by
  unfold producersIn
  induction (ps.filter (·.word = w)).map Production.producer with
  | nil => exact List.Pairwise.nil
  | cons a as ih => exact Producer.insert_sorted ih

/-- No producer of a word is listed twice. -/
theorem nodup_producersIn (ps : List Production) (w : Codeword) : (producersIn ps w).Nodup := by
  refine (producersIn_sorted ps w).imp fun hlt h => ?_
  rw [h] at hlt
  exact Nat.lt_irrefl _ hlt

/-! ### Harmless words -/

/-- Producers that make no anomaly are of one symbol. -/
theorem AnomalyKind.symbol_eq_of_ofProducers {as : List Producer} (h : ofProducers as = none)
    {a b : Producer} (ha : a ∈ as) (hb : b ∈ as) : a.symbol = b.symbol := by
  match as with
  | [] => simp at ha
  | [c] => simp_all
  | [c, d] =>
    have hcd : c.symbol = d.symbol := by
      by_contra hne
      simp [ofProducers, ofPair, hne] at h
    simp only [List.mem_cons, List.not_mem_nil, or_false] at ha hb
    rcases ha with rfl | rfl <;> rcases hb with rfl | rfl <;> simp [hcd]
  | _ :: _ :: _ :: _ => simp [ofProducers] at h

namespace Table

variable {t : Table}

/-- Two producers of a word that are of one symbol enter in different disparities. -/
theorem rdIn_ne_of_producers {w : Codeword} {a b : Producer}
    (ha : a ∈ t.producers w) (hb : b ∈ t.producers w) (hs : a.symbol = b.symbol)
    (hlt : a.rank < b.rank) : a.rdIn ≠ b.rdIn := by
  intro hd
  obtain ⟨p, hp, -, rfl⟩ := mem_producersIn.1 ha
  obtain ⟨q, hq, -, rfl⟩ := mem_producersIn.1 hb
  rw [production_inj hp hq hs hd] at hlt
  exact Nat.lt_irrefl _ hlt

/-- A word whose producers are all of one symbol is no anomaly. -/
theorem ofProducers_eq_none {w : Codeword}
    (h : ∀ a ∈ t.producers w, ∀ b ∈ t.producers w, a.symbol = b.symbol) :
    AnomalyKind.ofProducers (t.producers w) = none := by
  have hne : (t.producers w).Pairwise fun a b => a.rdIn ≠ b.rdIn := by
    refine (producersIn_sorted _ w).imp_of_mem fun ha hb => ?_
    exact rdIn_ne_of_producers ha hb (h _ ha _ hb)
  match has : t.producers w with
  | [] => rfl
  | [_] => rfl
  | [a, b] =>
    rw [has] at h hne
    have ha : a ∈ t.producers w := by simp [has]
    have hb : b ∈ t.producers w := by simp [has]
    obtain ⟨p, hp, hpw, rfl⟩ := mem_producersIn.1 ha
    obtain ⟨q, hq, hqw, rfl⟩ := mem_producersIn.1 hb
    have hd : p.rdIn ≠ q.rdIn := by simpa [Production.producer] using hne
    have hout : p.rdOut = p.rdIn := rdOut_eq_rdIn hp hq (hpw.trans hqw.symm) hd
    have hout' : q.rdOut = q.rdIn := rdOut_eq_rdIn hq hp (hqw.trans hpw.symm) hd.symm
    have hs : p.symbol = q.symbol := h p.producer (by simp) q.producer (by simp)
    simp [AnomalyKind.ofProducers, AnomalyKind.ofPair, Production.producer, hs, hout, hout']
  | a :: b :: c :: _ =>
    -- There are only two disparities to enter in.
    rw [has] at hne
    simp only [List.pairwise_cons, List.mem_cons, forall_eq_or_imp] at hne
    obtain ⟨⟨hab, hac, -⟩, ⟨hbc, -⟩, -⟩ := hne
    rw [Disparity.eq_flip_of_ne hab, Disparity.eq_flip_of_ne hbc] at hac
    simp at hac

/-- A table has no anomaly when no word stands for two symbols, and only then. -/
theorem anomalies_eq_nil_iff : t.anomalies = [] ↔
    ∀ p ∈ t.productions, ∀ q ∈ t.productions, p.word = q.word → p.symbol = q.symbol := by
  have hnil : t.anomalies = [] ↔ ∀ w, AnomalyKind.ofProducers (t.producers w) = none := by
    unfold anomalies anomalyIn producers
    simp [List.filterMap_eq_nil_iff, Codeword.mem_all]
  rw [hnil]
  constructor
  · intro h p hp q hq hw
    have hmem : p.producer ∈ t.producers q.word := mem_producersIn.2 ⟨p, hp, hw, rfl⟩
    have hmem' : q.producer ∈ t.producers q.word := mem_producersIn.2 ⟨q, hq, rfl, rfl⟩
    exact AnomalyKind.symbol_eq_of_ofProducers (h q.word) hmem hmem'
  · intro h w
    refine ofProducers_eq_none fun a ha b hb => ?_
    obtain ⟨p, hp, hpw, rfl⟩ := mem_producersIn.1 ha
    obtain ⟨q, hq, hqw, rfl⟩ := mem_producersIn.1 hb
    exact h p hp q hq (hpw.trans hqw.symm)

/-- The standard has no anomaly. -/
theorem anomalies_standard : Table.standard.anomalies = [] :=
  anomalies_eq_nil_iff.2 fun _ hp _ hq => symbol_eq_of_mem_standard hp hq

end Table

theorem Codec.anomalies_standard : Codec.standard.table.anomalies = [] := by
  rw [table_standard, Table.anomalies_standard]

end LineCode
