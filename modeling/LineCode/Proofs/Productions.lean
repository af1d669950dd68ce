import LineCode.Table
import Mathlib.Data.List.Nodup

/-!
# Productions

A table is read through its productions: the facts that a symbol, entered in one
disparity, is sent as a word and leaves the line in another. A listed symbol has one
production for each entering disparity and no other (`Table.exists_production_iff`,
`Table.production_inj`), and every production keeps the running-disparity rule
(`Table.evolve_of_mem`). The productions of a table that rows write are read off the
rows (`Table.mem_productions_ofRows`).
-/

namespace LineCode

/-! ### Words for both disparities -/

theorem Disparity.sign_eq_or (d : Disparity) : d.sign = 1 ∨ d.sign = -1 := by
  cases d <;> simp [sign]

/-- A word that may follow both disparities is balanced, so it changes neither. -/
theorem eq_of_evolve_flip {d e f : Disparity} {w : Codeword} (he : evolve d w = some e)
    (hf : evolve d.flip w = some f) : e = d := by
  rw [evolve_eq_some_iff] at he hf
  rw [Disparity.sign_flip] at hf
  rw [← Disparity.sign_inj]
  have := d.sign_eq_or
  have := e.sign_eq_or
  have := f.sign_eq_or
  omega

/-! ### Entries -/

@[simp] theorem Entry.symbol_production (e : Entry) (d : Disparity) :
    (e.production d).symbol = e.symbol := rfl

theorem Entry.mem_productions {e : Entry} {p : Production} :
    p ∈ e.productions ↔ e.production p.rdIn = p := by
  unfold Entry.productions
  rw [List.mem_map]
  constructor
  · rintro ⟨d, -, rfl⟩
    rfl
  · intro h
    exact ⟨p.rdIn, Disparity.mem_all _, h⟩

theorem Entry.evolve_production (e : Entry) (d : Disparity) :
    evolve d (e.production d).word = some (e.production d).rdOut := (e.encoding d).follows

namespace Table

variable {t : Table}

/-! ### Symbols of a table -/

theorem mem_productions {p : Production} :
    p ∈ t.productions ↔ ∃ e ∈ t.entries, e.production p.rdIn = p := by
  unfold productions
  simp only [List.mem_flatMap, Entry.mem_productions]

theorem get?_eq_some_iff {s : Symbol} {e : Entry} :
    t.get? s = some e ↔ e ∈ t.entries ∧ e.symbol = s := by
  constructor
  · intro h
    exact ⟨List.mem_of_find?_eq_some h, by simpa using List.find?_some h⟩
  · rintro ⟨he, rfl⟩
    have hex : (t.get? e.symbol).isSome := List.find?_isSome.2 ⟨e, he, by simp⟩
    obtain ⟨f, hf⟩ := Option.isSome_iff_exists.1 hex
    have hs : f.symbol = e.symbol := by simpa using List.find?_some hf
    rw [hf, List.inj_on_of_nodup_map t.nodup (List.mem_of_find?_eq_some hf) he hs]

/-- A word follows the disparity that it is listed for. -/
theorem evolve_of_mem {p : Production} (h : p ∈ t.productions) :
    evolve p.rdIn p.word = some p.rdOut := by
  obtain ⟨e, -, he⟩ := mem_productions.1 h
  have := e.evolve_production p.rdIn
  rwa [he] at this

/-- A word that is listed for both disparities changes neither. -/
theorem rdOut_eq_rdIn {p q : Production} (hp : p ∈ t.productions) (hq : q ∈ t.productions)
    (hw : p.word = q.word) (hd : p.rdIn ≠ q.rdIn) : p.rdOut = p.rdIn := by
  refine eq_of_evolve_flip (evolve_of_mem hp) (?_ : _ = some q.rdOut)
  rw [hw, ← Disparity.eq_flip_of_ne hd.symm]
  exact evolve_of_mem hq

/-- A symbol has one word for each entering disparity. -/
theorem production_inj {p q : Production} (hp : p ∈ t.productions) (hq : q ∈ t.productions)
    (hs : p.symbol = q.symbol) (hd : p.rdIn = q.rdIn) : p = q := by
  obtain ⟨e, he, hep⟩ := mem_productions.1 hp
  obtain ⟨f, hf, hfq⟩ := mem_productions.1 hq
  have hef : e = f := by
    refine List.inj_on_of_nodup_map t.nodup he hf ?_
    rw [← e.symbol_production p.rdIn, ← f.symbol_production q.rdIn, hep, hfq, hs]
  rw [← hep, ← hfq, hef, hd]

/-- A symbol is listed when it has a word for some entering disparity, and then for each. -/
theorem exists_production_iff {s : Symbol} (d : Disparity) :
    (∃ w e, ⟨d, s, e, w⟩ ∈ t.productions) ↔ (t.get? s).isSome := by
  constructor
  · rintro ⟨w, e, h⟩
    obtain ⟨f, hf, hp⟩ := mem_productions.1 h
    have hs : f.symbol = s := congrArg Production.symbol hp
    rw [get?_eq_some_iff.2 ⟨hf, hs⟩]
    rfl
  · intro h
    obtain ⟨f, hf⟩ := Option.isSome_iff_exists.1 h
    obtain ⟨he, rfl⟩ := get?_eq_some_iff.1 hf
    exact ⟨_, _, mem_productions.2 ⟨f, he, (rfl : f.production d = _)⟩⟩

/-- A production is what the entry of its symbol states for its entering disparity. -/
theorem mem_productions_iff_get? {s : Symbol} {d e : Disparity} {w : Codeword} :
    ⟨d, s, e, w⟩ ∈ t.productions ↔
      ∃ n, t.get? s = some n ∧ (n.encoding d).word = w ∧ (n.encoding d).rdOut = e := by
  simp only [mem_productions, get?_eq_some_iff]
  constructor
  · rintro ⟨n, hn, h⟩
    cases h
    exact ⟨n, ⟨hn, rfl⟩, rfl, rfl⟩
  · rintro ⟨n, ⟨hn, rfl⟩, rfl, rfl⟩
    exact ⟨n, hn, rfl⟩

end Table

/-! ### Symbols of rows -/

/-- The number that a row writes for an entering disparity. -/
def Row.written (r : Row) : Disparity → BitVec 16
  | .negative => r.minus
  | .positive => r.plus

/-- The word that a row lists for an entering disparity. -/
def Row.word (r : Row) (d : Disparity) : Codeword := .ofWritten (r.written d)

/-- The bits of that word in line order, which is the order they are written in. -/
def Row.lineBits (r : Row) (d : Disparity) : List Bool :=
  (List.range 10).map fun i => (r.written d).getLsbD (9 - i)

theorem Row.lineBits_word (r : Row) (d : Disparity) : (r.word d).lineBits = r.lineBits d :=
  List.map_congr_left fun _ hi => Codeword.bit_ofWritten _ (List.mem_range.1 hi)

theorem Entry.word_of_ofRow {r : Row} {e : Entry} (h : ofRow r = .ok e) (d : Disparity) :
    (e.production d).word = r.word d := by
  obtain ⟨-, hm, hp⟩ := Entry.ofRow_eq_ok_iff.1 h
  cases d
  · exact Encoding.word_of_ofWritten hm
  · exact Encoding.word_of_ofWritten hp

namespace Table

variable {t : Table}

/-- Entries are those of the rows. -/
theorem mem_entriesOf {seen : List Symbol} {rows : List Row} {es : List Entry}
    (h : entriesOf seen rows = .ok es) {e : Entry} :
    e ∈ es ↔ ∃ r ∈ rows, Entry.ofRow r = .ok e := by
  induction rows generalizing seen es with
  | nil => cases h; simp
  | cons r rs ih =>
    obtain ⟨f, fs, hf, -, hfs, rfl⟩ := entriesOf_cons_eq_ok_iff.1 h
    simp [ih hfs, hf, eq_comm]

/-- Each row makes the entry at its place. -/
theorem exists_getElem?_entriesOf {seen : List Symbol} {rows : List Row} {es : List Entry}
    (h : entriesOf seen rows = .ok es) {i : Nat} {r : Row} (hr : rows[i]? = some r) :
    ∃ e, es[i]? = some e ∧ Entry.ofRow r = .ok e := by
  induction rows generalizing seen es i with
  | nil => simp at hr
  | cons r' rs ih =>
    obtain ⟨f, fs, hf, -, hfs, rfl⟩ := entriesOf_cons_eq_ok_iff.1 h
    cases i with
    | zero =>
      cases hr
      exact ⟨f, rfl, hf⟩
    | succ i => exact ih hfs hr

/-- Every row makes an entry. -/
theorem exists_entry_of_mem {seen : List Symbol} {rows : List Row} {es : List Entry}
    (h : entriesOf seen rows = .ok es) {r : Row} (hr : r ∈ rows) :
    ∃ e ∈ es, Entry.ofRow r = .ok e := by
  obtain ⟨i, hi⟩ := List.getElem?_of_mem hr
  obtain ⟨e, he, hre⟩ := exists_getElem?_entriesOf h hi
  exact ⟨e, List.mem_of_getElem? he, hre⟩

/-- The productions of a table are the words of its rows, each followed. -/
theorem mem_productions_ofRows {rows : List Row} (h : ofRows rows = .ok t) {p : Production} :
    p ∈ t.productions ↔ ∃ r ∈ rows, p.symbol = r.symbol ∧ p.word = r.word p.rdIn ∧
      evolve p.rdIn p.word = some p.rdOut := by
  have hes := ofRows_eq_ok_iff.1 h
  constructor
  · intro hp
    obtain ⟨e, he, hep⟩ := mem_productions.1 hp
    obtain ⟨r, hr, hre⟩ := (mem_entriesOf hes).1 he
    refine ⟨r, hr, ?_, ?_, evolve_of_mem hp⟩
    · rw [← Entry.symbol_of_ofRow hre, ← e.symbol_production p.rdIn, hep]
    · rw [← Entry.word_of_ofRow hre, hep]
  · rintro ⟨r, hr, hs, hw, hrd⟩
    obtain ⟨e, he, hre⟩ := exists_entry_of_mem hes hr
    have hword : (e.production p.rdIn).word = p.word := by rw [Entry.word_of_ofRow hre, hw]
    have hout : (e.production p.rdIn).rdOut = p.rdOut := by
      have := e.evolve_production p.rdIn
      rw [hword, hrd] at this
      exact (Option.some.inj this).symm
    refine mem_productions.2 ⟨e, he, ?_⟩
    cases p
    simp only [Entry.production, Production.mk.injEq] at hword hout ⊢
    exact ⟨trivial, (Entry.symbol_of_ofRow hre).trans hs.symm, hout, hword⟩

end Table

end LineCode
