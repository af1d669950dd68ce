import LineCode.Proofs.Productions

/-!
# Faults of rows

All that can be wrong with a row is listed by `Row.faults`, in the order in which it is looked
for. A table is built from rows one after the other, and the construction stops at the first
fault of the first row that has one (`Table.ofRows_eq_error_iff`). So rows make a table when
each is sound and no symbol has two (`Table.exists_ofRows_iff`).
-/

namespace LineCode

/-! ### What is wrong with a row -/

/-- All that is wrong with the word that a row writes for a disparity. -/
def Row.wordFaults (r : Row) (d : Disparity) : List TableFault :=
  (if (r.written d).toNat < Codeword.count then [] else [.wordTooWide r.symbol (r.written d)]) ++
    if (evolve d (r.word d)).isSome then [] else [.cannotFollow r.symbol d (r.word d)]

/-- All that is wrong with a row after rows for the symbols `before`: what is wrong with its two
words, the one for negative disparity first, and then that its symbol is listed again. -/
def Row.faults (before : List Symbol) (r : Row) : List TableFault :=
  r.wordFaults .negative ++ r.wordFaults .positive ++
    if r.symbol ∈ before then [.duplicateSymbol r.symbol] else []

section Faults

variable {r : Row} {d : Disparity} {before : List Symbol} {f : TableFault}

/-- The order of the symbols before a row does not matter. -/
theorem Row.faults_reverse : r.faults before.reverse = r.faults before := by
  simp only [faults, List.mem_reverse]

theorem head?_append_eq_some_iff {fs gs : List TableFault} :
    (fs ++ gs).head? = some f ↔ fs.head? = some f ∨ fs = [] ∧ gs.head? = some f := by
  rw [List.head?_append, Option.or_eq_some_iff, List.head?_eq_none_iff]

/-- Nothing is wrong with a word that fits. -/
theorem Row.wordFaults_eq_nil_iff : r.wordFaults d = [] ↔ Row.Fits d (r.written d) := by
  have hrange : ∀ {c : Prop} [Decidable c] {g : TableFault}, (if c then [] else [g]) = [] ↔ c := by
    intro c _ g
    split <;> simp_all
  rw [wordFaults, List.append_eq_nil_iff, hrange, hrange]
  exact Iff.rfl

/-- A word is refused for the first thing that is wrong with it. -/
theorem Encoding.ofWritten_eq_error_iff :
    ofWritten r.symbol d (r.written d) = .error f ↔ (r.wordFaults d).head? = some f := by
  rw [ofWritten, Row.wordFaults, head?_append_eq_some_iff]
  by_cases hwide : (r.written d).toNat < Codeword.count
  · rw [if_pos hwide, if_pos hwide]
    dsimp only
    split
    · rename_i rdOut h
      simp [Row.word, h]
    · rename_i h
      simp [Row.word, h]
  · simp [hwide]

/-- Of two words the first that is refused decides. -/
theorem Entry.ofRow_eq_error_iff : ofRow r = .error f ↔
    (r.wordFaults .negative ++ r.wordFaults .positive).head? = some f := by
  rw [head?_append_eq_some_iff, ← Encoding.ofWritten_eq_error_iff, ← Encoding.ofWritten_eq_error_iff,
    Row.wordFaults_eq_nil_iff, ← Encoding.exists_ofWritten_iff (s := r.symbol), ofRow]
  show _ ↔ Encoding.ofWritten r.symbol .negative r.minus = _ ∨
    (∃ e, Encoding.ofWritten r.symbol .negative r.minus = .ok e) ∧
      Encoding.ofWritten r.symbol .positive r.plus = _
  cases Encoding.ofWritten r.symbol .negative r.minus with
  | error g => simp [Except.bind]
  | ok minus => cases Encoding.ofWritten r.symbol .positive r.plus <;> simp [Except.bind, Except.map]

end Faults

/-- Nothing is wrong with a sound row for a new symbol. -/
theorem Row.faults_eq_nil_iff {r : Row} {before : List Symbol} :
    r.faults before = [] ↔ r.Sound ∧ r.symbol ∉ before := by
  have hnew : (if r.symbol ∈ before then [TableFault.duplicateSymbol r.symbol] else []) = [] ↔
      r.symbol ∉ before := by
    split <;> simp_all
  rw [faults, List.append_eq_nil_iff, List.append_eq_nil_iff, wordFaults_eq_nil_iff,
    wordFaults_eq_nil_iff, hnew]
  exact Iff.rfl

namespace Table

variable {before : List Symbol} {r : Row} {rows rs : List Row} {f : TableFault} {t : Table}

/-! ### The first fault -/

/-- Rows make entries when nothing is wrong with the first of them and the others do. -/
theorem exists_entriesOf_cons_iff : (∃ es, entriesOf before (r :: rs) = .ok es) ↔
    r.faults before = [] ∧ ∃ es, entriesOf (r.symbol :: before) rs = .ok es := by
  rw [Row.faults_eq_nil_iff, ← Entry.exists_ofRow_iff]
  constructor
  · rintro ⟨_, h⟩
    obtain ⟨e, es, he, hs, hes, rfl⟩ := entriesOf_cons_eq_ok_iff.1 h
    rw [Entry.symbol_of_ofRow he] at hs hes
    exact ⟨⟨⟨e, he⟩, hs⟩, es, hes⟩
  · rintro ⟨⟨⟨e, he⟩, hs⟩, es, hes⟩
    rw [← Entry.symbol_of_ofRow he] at hs hes
    exact ⟨e :: es, entriesOf_cons_eq_ok_iff.2 ⟨e, es, he, hs, hes, rfl⟩⟩

/-- They are refused for the first thing that is wrong with the first of them or, if nothing is,
for what is wrong with the others. -/
theorem entriesOf_cons_eq_error_iff : entriesOf before (r :: rs) = .error f ↔
    (r.faults before).head? = some f ∨
      r.faults before = [] ∧ entriesOf (r.symbol :: before) rs = .error f := by
  rw [entriesOf]
  cases h : Entry.ofRow r with
  | error g =>
    obtain ⟨gs, hgs⟩ := List.head?_eq_some_iff.1 (Entry.ofRow_eq_error_iff.1 h)
    simp [Row.faults, hgs, Except.bind]
  | ok e =>
    have hsound := Entry.exists_ofRow_iff.1 ⟨e, h⟩
    have hminus : r.wordFaults .negative = [] := Row.wordFaults_eq_nil_iff.2 hsound.1
    have hplus : r.wordFaults .positive = [] := Row.wordFaults_eq_nil_iff.2 hsound.2
    rw [← Entry.symbol_of_ofRow h, Row.faults, ← Entry.symbol_of_ofRow h, hminus, hplus]
    simp only [Except.bind]
    by_cases hs : e.symbol ∈ before
    · simp [hs]
    · cases entriesOf (e.symbol :: before) rs <;> simp [hs, Except.map]

/-- Rows are refused at the first of them that does not go with those before it, for the first
thing that is wrong with it. -/
theorem entriesOf_eq_error_iff : entriesOf before rows = .error f ↔
    ∃ pre r post, rows = pre ++ r :: post ∧ (∃ es, entriesOf before pre = .ok es) ∧
      (r.faults ((pre.map Row.symbol).reverse ++ before)).head? = some f := by
  induction rows generalizing before with
  | nil => simp [entriesOf]
  | cons q rs ih =>
    rw [entriesOf_cons_eq_error_iff, ih]
    constructor
    · rintro (hq | ⟨hq, pre, r, post, rfl, hpre, hr⟩)
      · exact ⟨[], q, rs, rfl, ⟨[], rfl⟩, hq⟩
      · refine ⟨q :: pre, r, post, rfl, exists_entriesOf_cons_iff.2 ⟨hq, hpre⟩, ?_⟩
        simpa using hr
    · rintro ⟨pre, r, post, hrows, hpre, hr⟩
      cases pre with
      | nil =>
        cases hrows
        exact .inl hr
      | cons p pre =>
        cases hrows
        obtain ⟨hq, hpre⟩ := exists_entriesOf_cons_iff.1 hpre
        refine .inr ⟨hq, pre, r, post, rfl, hpre, ?_⟩
        simpa using hr

theorem exists_ofRows_iff_entriesOf :
    (∃ t, ofRows rows = .ok t) ↔ ∃ es, entriesOf [] rows = .ok es := by
  unfold ofRows
  split <;> simp_all

theorem ofRows_eq_error_iff_entriesOf : ofRows rows = .error f ↔ entriesOf [] rows = .error f := by
  unfold ofRows
  split <;> simp_all

/-- Rows are refused at the first of them that does not go with those before it,
for the first thing that is wrong with it. -/
theorem ofRows_eq_error_iff : ofRows rows = .error f ↔
    ∃ pre r post, rows = pre ++ r :: post ∧ (∃ t, ofRows pre = .ok t) ∧
      (r.faults (pre.map Row.symbol)).head? = some f := by
  rw [ofRows_eq_error_iff_entriesOf, entriesOf_eq_error_iff]
  refine exists_congr fun pre => exists_congr fun r => exists_congr fun post => ?_
  rw [exists_ofRows_iff_entriesOf, List.append_nil, Row.faults_reverse]

/-! ### Rows without a fault -/

/-- Rows make a table when each is sound and no symbol has two. -/
theorem exists_ofRows_iff : (∃ t, ofRows rows = .ok t) ↔
    (∀ r ∈ rows, r.Sound) ∧ (rows.map Row.symbol).Nodup := by
  constructor
  · rintro ⟨t, ht⟩
    have hes := ofRows_eq_ok_iff.1 ht
    refine ⟨fun r hr => ?_, ?_⟩
    · obtain ⟨e, -, he⟩ := exists_entry_of_mem hes hr
      exact Entry.exists_ofRow_iff.1 ⟨e, he⟩
    · rw [← (symbols_of_entriesOf hes).1]
      exact t.nodup
  · rintro ⟨hs, hnd⟩
    exact ⟨_, ofRows_ofSoundRows hs hnd⟩

end Table

end LineCode
