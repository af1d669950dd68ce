import LineCode.Proofs.RowFaults

/-!
# Construction

Rows that have no fault make a table, and the table says what they write, entry by entry
(`Table.transcribes_of_ofRows`).

A table finds the entry of a symbol by going through its entries. It can as well be drafted
with an index beside the entries, from symbols to places (`Draft`). Every row that is entered
keeps the two in step (`Draft.Indexed.enter`), so the index finds the same entries
(`Draft.Indexed.get?_eq`).
-/

namespace LineCode

/-! ### What the table says -/

/-- The production that a row writes for a disparity, if the word may follow it. -/
def Row.production? (r : Row) (d : Disparity) : Option Production :=
  (evolve d (r.word d)).map fun e => ⟨d, r.symbol, e, r.word d⟩

theorem Entry.production?_of_ofRow {r : Row} {e : Entry} (h : ofRow r = .ok e) (d : Disparity) :
    r.production? d = some (e.production d) := by
  have hword : (e.production d).word = r.word d := Entry.word_of_ofRow h d
  have hfollows : evolve d (e.production d).word = some (e.production d).rdOut :=
    e.evolve_production d
  rw [Row.production?, ← hword, hfollows, ← Entry.symbol_of_ofRow h]
  rfl

namespace Table

variable {rows : List Row} {t : Table}

/-- The productions are those of the rows, in their order. -/
theorem productions_of_entriesOf {before : List Symbol} {es : List Entry}
    (h : entriesOf before rows = .ok es) : (es.flatMap Entry.productions).map some =
      rows.flatMap fun r => [r.production? .negative, r.production? .positive] := by
  induction rows generalizing before es with
  | nil => cases h; rfl
  | cons r rs ih =>
    obtain ⟨e, es', he, -, hes, rfl⟩ := entriesOf_cons_eq_ok_iff.1 h
    rw [List.flatMap_cons, List.map_append, List.flatMap_cons, ih hes,
      Entry.production?_of_ofRow he, Entry.production?_of_ofRow he]
    rfl

end Table

/-- The table `t` says what the rows write. -/
structure Transcribes (rows : List Row) (t : Table) : Prop where
  /-- The entries are for the symbols of the rows, in their order. -/
  symbols_eq : t.entries.map Entry.symbol = rows.map Row.symbol
  /-- A symbol is found when a row is for it, -/
  get?_isSome_iff : ∀ s, (t.get? s).isSome ↔ s ∈ rows.map Row.symbol
  /-- and what is found is the entry at the place of the row. -/
  get?_eq : ∀ (i : Nat) (r : Row), rows[i]? = some r → t.get? r.symbol = t.entries[i]?
  /-- That entry has for each disparity the word that the row writes, from the highest of ten bits
  to the lowest, and the disparity that it leads to. -/
  entry : ∀ (i : Nat) (r : Row), rows[i]? = some r → ∃ e, t.entries[i]? = some e ∧
    e.symbol = r.symbol ∧ ∀ d, (e.production d).rdIn = d ∧
      (∀ k < 10, (e.encoding d).word.bit k = (r.written d).getLsbD (9 - k)) ∧
      evolve d (e.encoding d).word = some (e.encoding d).rdOut
  /-- The productions are those of the rows, negative disparity first. -/
  productions_eq : t.productions.map some =
    rows.flatMap fun r => [r.production? .negative, r.production? .positive]

theorem Table.transcribes_of_ofRows {rows : List Row} {t : Table} (h : ofRows rows = .ok t) :
    Transcribes rows t := by
  have hes : entriesOf [] rows = .ok t.entries := ofRows_eq_ok_iff.1 h
  have hsymbols : t.entries.map Entry.symbol = rows.map Row.symbol := (symbols_of_entriesOf hes).1
  refine {
    symbols_eq := hsymbols
    get?_isSome_iff := fun s => ?_
    get?_eq := fun i r hr => ?_
    entry := fun i r hr => ?_
    productions_eq := productions_of_entriesOf hes }
  · rw [← hsymbols, List.mem_map, Option.isSome_iff_exists]
    simp only [get?_eq_some_iff]
  · obtain ⟨e, he, hre⟩ := exists_getElem?_entriesOf hes hr
    rw [he, ← Entry.symbol_of_ofRow hre]
    exact get?_eq_some_iff.2 ⟨List.mem_of_getElem? he, rfl⟩
  · obtain ⟨e, he, hre⟩ := exists_getElem?_entriesOf hes hr
    refine ⟨e, he, Entry.symbol_of_ofRow hre, fun d => ⟨rfl, fun k hk => ?_, e.evolve_production d⟩⟩
    have hword : (e.encoding d).word = r.word d := Entry.word_of_ofRow hre d
    rw [hword]
    exact Codeword.bit_ofWritten _ hk

/-! ### An index beside the entries -/

/-- A table in the making, with the place of the entry of each symbol. -/
structure Draft where
  entries : List Entry
  place : Symbol → Option Nat

namespace Draft

variable {b b' : Draft} {e : Entry} {rows : List Row} {before : List Symbol} {t : Table}

/-- Nothing is entered yet. -/
def empty : Draft := ⟨[], fun _ => none⟩

/-- Puts an entry behind the others and remembers its place. -/
def enter (b : Draft) (e : Entry) : Draft where
  entries := b.entries ++ [e]
  place := Function.update b.place e.symbol (some b.entries.length)

/-- Enters what a row writes, unless something is wrong with it or its symbol has a place. -/
def add (b : Draft) (r : Row) : Except TableFault Draft :=
  (Entry.ofRow r).bind fun e =>
    if (b.place e.symbol).isSome then .error (.duplicateSymbol e.symbol) else .ok (b.enter e)

/-- Enters rows one by one, up to the first that is refused. -/
def addAll : Draft → List Row → Except TableFault Draft
  | b, [] => .ok b
  | b, r :: rs => (b.add r).bind (addAll · rs)

/-- The entry at the place of a symbol. -/
def get? (b : Draft) (s : Symbol) : Option Entry := (b.place s).bind (b.entries[·]?)

/-- The index says where the first entry for each symbol is. -/
def Indexed (b : Draft) : Prop := ∀ s, b.place s = b.entries.findIdx? (·.symbol = s)

theorem Indexed.empty : Draft.empty.Indexed := fun _ => rfl

/-- The symbols that have a place are those that are listed. -/
theorem Indexed.isSome_place_iff (hb : b.Indexed) {s : Symbol} :
    (b.place s).isSome ↔ s ∈ b.entries.map Entry.symbol := by
  rw [hb s, List.findIdx?_isSome, List.any_eq_true, List.mem_map]
  simp only [decide_eq_true_eq]

/-- An entry for a symbol that has no place keeps index and entries in step. -/
theorem Indexed.enter (hb : b.Indexed) (hnew : e.symbol ∉ b.entries.map Entry.symbol) :
    (b.enter e).Indexed := by
  intro s
  have hplace : (b.enter e).place s = if s = e.symbol then some b.entries.length else b.place s :=
    Function.update_apply ..
  rw [hplace, Draft.enter, List.findIdx?_append, List.findIdx?_singleton, hb s]
  by_cases hs : s = e.symbol
  · have hnone : b.entries.findIdx? (·.symbol = s) = none := by
      rw [← Option.not_isSome_iff_eq_none, ← hb s, hb.isSome_place_iff, hs]
      exact hnew
    rw [if_pos hs, hnone]
    simp [hs]
  · simp [hs, Ne.symm hs]

/-- The symbols of a draft that has entered one more entry. -/
theorem mem_symbols_enter_iff (hbefore : ∀ s, s ∈ b.entries.map Entry.symbol ↔ s ∈ before)
    (s : Symbol) : s ∈ (b.enter e).entries.map Entry.symbol ↔ s ∈ e.symbol :: before := by
  rw [enter, List.map_append, List.mem_append, hbefore, List.mem_cons, or_comm, List.map_singleton,
    List.mem_singleton]

/-- A draft takes the rows that the construction takes after the symbols of the draft, and keeps
index and entries in step. -/
theorem exists_addAll (hb : b.Indexed)
    (hbefore : ∀ s, s ∈ b.entries.map Entry.symbol ↔ s ∈ before) {es : List Entry}
    (h : Table.entriesOf before rows = .ok es) :
    ∃ b', b.addAll rows = .ok b' ∧ b'.Indexed ∧ b'.entries = b.entries ++ es := by
  induction rows generalizing b before es with
  | nil =>
    cases h
    exact ⟨b, rfl, hb, (List.append_nil _).symm⟩
  | cons r rs ih =>
    obtain ⟨e, es, he, hs, hes, rfl⟩ := Table.entriesOf_cons_eq_ok_iff.1 h
    rw [← hbefore] at hs
    obtain ⟨b', hb', hindexed, hentries⟩ := ih (hb.enter hs) (mem_symbols_enter_iff hbefore) hes
    refine ⟨b', ?_, hindexed, ?_⟩
    · rw [addAll, add, he]
      simp only [Except.bind, hb.isSome_place_iff, if_neg hs]
      exact hb'
    · rw [hentries, enter, List.append_assoc]
      rfl

/-- What the construction refuses, a draft refuses for the same fault. -/
theorem addAll_eq_error (hb : b.Indexed)
    (hbefore : ∀ s, s ∈ b.entries.map Entry.symbol ↔ s ∈ before) {f : TableFault}
    (h : Table.entriesOf before rows = .error f) : b.addAll rows = .error f := by
  induction rows generalizing b before with
  | nil => cases h
  | cons r rs ih =>
    rw [Table.entriesOf] at h
    rw [addAll, add]
    cases he : Entry.ofRow r with
    | error g =>
      rw [he] at h
      cases h
      rfl
    | ok e =>
      rw [he] at h
      simp only [Except.bind, hb.isSome_place_iff, hbefore] at h ⊢
      by_cases hs : e.symbol ∈ before
      · rw [if_pos hs] at h ⊢
        cases h
        rfl
      · rw [if_neg hs] at h ⊢
        have hnew : e.symbol ∉ b.entries.map Entry.symbol := fun h => hs ((hbefore _).1 h)
        refine ih (hb.enter hnew) (mem_symbols_enter_iff hbefore) ?_
        cases hes : Table.entriesOf (e.symbol :: before) rs with
        | error g =>
          rw [hes] at h
          exact h
        | ok es =>
          rw [hes] at h
          cases h

/-- In step, the index finds the entry that going through the entries finds. -/
theorem Indexed.get?_eq (hb : b.Indexed) (hentries : b.entries = t.entries) (s : Symbol) :
    b.get? s = t.get? s := by
  rw [get?, hb s, Table.get?, ← hentries]
  exact List.find?_eq_bind_findIdx?_getElem?.symm

end Draft

/-- How rows come to a table, or to the fault for which they are refused. -/
structure Construction (rows : List Row) : Prop where
  /-- Rows make a table when each is sound and no symbol has two. -/
  accepted_iff : (∃ t, Table.ofRows rows = .ok t) ↔
    (∀ r ∈ rows, r.Sound) ∧ (rows.map Row.symbol).Nodup
  /-- Otherwise the first row that does not go with those before it is refused, for the first thing
  that is wrong with it. -/
  refused_iff : ∀ f, Table.ofRows rows = .error f ↔ ∃ pre r post, rows = pre ++ r :: post ∧
    (∃ t, Table.ofRows pre = .ok t) ∧ (r.faults (pre.map Row.symbol)).head? = some f
  /-- A table says what the rows write. -/
  transcribes : ∀ t, Table.ofRows rows = .ok t → Transcribes rows t
  /-- With an index kept beside the entries, the same entries are found, -/
  drafted : ∀ t, Table.ofRows rows = .ok t → ∃ b, Draft.empty.addAll rows = .ok b ∧
    b.entries = t.entries ∧ ∀ s, b.get? s = t.get? s
  /-- and rows are refused for the same fault. -/
  draft_refused : ∀ f, Table.ofRows rows = .error f → Draft.empty.addAll rows = .error f

/-- **Construction**: whatever rows are written, they make a table exactly when nothing is wrong with
any of them, the table says what they write, and otherwise the first fault is reported. -/
theorem construction_exact (rows : List Row) : Construction rows := by
  have hseen : ∀ s, s ∈ Draft.empty.entries.map Entry.symbol ↔ s ∈ ([] : List Symbol) :=
    fun _ => Iff.rfl
  refine {
    accepted_iff := Table.exists_ofRows_iff
    refused_iff := fun f => Table.ofRows_eq_error_iff
    transcribes := fun t ht => Table.transcribes_of_ofRows ht
    drafted := fun t ht => ?_
    draft_refused := fun f hf => Draft.addAll_eq_error .empty hseen
      (Table.ofRows_eq_error_iff_entriesOf.1 hf) }
  obtain ⟨b, hb, hindexed, hentries⟩ := Draft.exists_addAll .empty hseen
    (Table.ofRows_eq_ok_iff.1 ht)
  rw [Draft.empty, List.nil_append] at hentries
  exact ⟨b, hb, hentries, hindexed.get?_eq hentries⟩

/-- The second row is refused for its first word, although its second word is too wide and its symbol
is listed again. -/
example : ((Table.ofRows [⟨.data 0x00, 0b100111_0100, 0b011000_1011⟩,
    ⟨.data 0x00, 0b111111_0100, 0x7FF⟩]).map fun _ => ()) =
      .error (.cannotFollow (.data 0x00) .negative ⟨0x0BF⟩) := by
  decide +kernel

end LineCode
