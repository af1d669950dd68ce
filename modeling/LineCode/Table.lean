import LineCode.RunningSum
import LineCode.Symbol

/-!
# Code tables

A code table assigns to each symbol one word per entering disparity. It is written as a
list of rows. `Table.ofRows` checks each row against the running-disparity rule and each
symbol against the earlier ones, and reports the first fault; a `Table` that exists is
therefore sound: every encoding carries the proof that its word may follow its entering
disparity, and no symbol is listed twice.
-/

namespace LineCode

/-! ### Rows and faults -/

/-- A line of a written table, the words in line order. -/
structure Row where
  symbol : Symbol
  /-- The word sent when the entering disparity is negative. -/
  minus : BitVec 16
  /-- The word sent when the entering disparity is positive. -/
  plus : BitVec 16
deriving DecidableEq

/-- Why a table, or the codec of a table, cannot be built. -/
inductive TableFault
  /-- The word can never follow the disparity that it is listed for. -/
  | cannotFollow (symbol : Symbol) (rd : Disparity) (word : Codeword)
  /-- A written word has more than ten bits. -/
  | wordTooWide (symbol : Symbol) (written : BitVec 16)
  /-- A symbol has two rows. -/
  | duplicateSymbol (symbol : Symbol)
  /-- Two symbols have the same word for the same entering disparity. -/
  | ambiguousWord (word : Codeword) (rd : Disparity) (first second : Symbol)
deriving DecidableEq

/-- What is said of a fault. -/
def TableFault.message : TableFault → String
  | .cannotFollow s rd w =>
    s.name ++ " encodes to " ++ w.text ++ " which cannot follow rd=" ++ rd.text
  | .wordTooWide s written =>
    s.name ++ " has a codeword wider than 10 bits: " ++ Text.hex written.toNat
  | .duplicateSymbol s => s.name ++ " is listed twice"
  | .ambiguousWord w rd first second =>
    w.text ++ " at rd=" ++ rd.text ++ " is produced by both " ++ first.name ++ " and " ++
      second.name

/-! ### Entries -/

/-- A word for one entering disparity, and where it leaves the line. -/
structure Encoding (rdIn : Disparity) where
  word : Codeword
  rdOut : Disparity
  follows : evolve rdIn word = some rdOut

namespace Encoding

variable {rdIn : Disparity}

/-- Whether the word changes the disparity. -/
def changes (e : Encoding rdIn) : Bool := rdIn ≠ e.rdOut

/-- The encoding that a row writes, or the row's fault. -/
def ofWritten (symbol : Symbol) (rdIn : Disparity) (written : BitVec 16) :
    Except TableFault (Encoding rdIn) :=
  if written.toNat < Codeword.count then
    let word := Codeword.ofWritten written
    match h : evolve rdIn word with
    | some rdOut => .ok ⟨word, rdOut, h⟩
    | none => .error (.cannotFollow symbol rdIn word)
  else .error (.wordTooWide symbol written)

/-- A word changes the disparity unless it has as many ones as zeros. -/
theorem changes_iff {e : Encoding rdIn} : e.changes = true ↔ e.word.excess ≠ 0 := by
  have hsign : rdIn.sign + e.word.excess = e.rdOut.sign := evolve_eq_some_iff.1 e.follows
  rw [changes, decide_eq_true_eq, ne_eq, ne_eq, ← Disparity.sign_inj]
  omega

end Encoding

/-- A symbol with its encoding for each entering disparity. -/
structure Entry where
  symbol : Symbol
  minus : Encoding .negative
  plus : Encoding .positive

namespace Entry

/-- The encoding for an entering disparity. -/
def encoding (e : Entry) : (rd : Disparity) → Encoding rd
  | .negative => e.minus
  | .positive => e.plus

/-- The entry that a row writes; of two faults the one of the negative side is reported. -/
def ofRow (r : Row) : Except TableFault Entry :=
  (Encoding.ofWritten r.symbol .negative r.minus).bind fun minus =>
    (Encoding.ofWritten r.symbol .positive r.plus).map fun plus => ⟨r.symbol, minus, plus⟩

end Entry

/-- One fact of a code: entering in `rdIn`, the symbol is sent as `word` and leaves the line
in `rdOut`. -/
structure Production where
  rdIn : Disparity
  symbol : Symbol
  rdOut : Disparity
  word : Codeword
deriving DecidableEq

/-- The fact that an entry states for an entering disparity. -/
def Entry.production (e : Entry) (rd : Disparity) : Production :=
  ⟨rd, e.symbol, (e.encoding rd).rdOut, (e.encoding rd).word⟩

/-- The two facts of an entry, negative entering disparity first. -/
def Entry.productions (e : Entry) : List Production := Disparity.all.map e.production

/-- The word of a fact and the disparity it is entered in: what a decoder goes by. -/
def Production.claim (p : Production) : Codeword × Disparity := (p.word, p.rdIn)

/-- The words of a row, each with the disparity it is listed for. -/
def Row.claims (r : Row) : List (Codeword × Disparity) :=
  [(.ofWritten r.minus, .negative), (.ofWritten r.plus, .positive)]

/-! ### Tables -/

/-- Entries without a symbol listed twice. -/
structure Table where
  entries : List Entry
  nodup : (entries.map Entry.symbol).Nodup

namespace Table

/-- The entries that rows write, after rows for the symbols `seen`; the first fault is reported,
a row's own before that it lists a symbol again. -/
def entriesOf (seen : List Symbol) : List Row → Except TableFault (List Entry)
  | [] => .ok []
  | r :: rs =>
    (Entry.ofRow r).bind fun e =>
      if e.symbol ∈ seen then .error (.duplicateSymbol e.symbol)
      else (entriesOf (e.symbol :: seen) rs).map (e :: ·)

end Table

/-! ### Sound rows -/

/-- A written word has ten bits and may follow a disparity. -/
def Row.Fits (rd : Disparity) (written : BitVec 16) : Prop :=
  written.toNat < Codeword.count ∧ (evolve rd (.ofWritten written)).isSome

/-- Both words of a row fit the disparities they are listed for. -/
def Row.Sound (r : Row) : Prop := Row.Fits .negative r.minus ∧ Row.Fits .positive r.plus

instance (rd : Disparity) (written : BitVec 16) : Decidable (Row.Fits rd written) :=
  inferInstanceAs (Decidable (_ ∧ _))

instance (r : Row) : Decidable r.Sound := inferInstanceAs (Decidable (_ ∧ _))

theorem Encoding.exists_ofWritten_iff {s : Symbol} {rd : Disparity} {written : BitVec 16} :
    (∃ e, ofWritten s rd written = .ok e) ↔ Row.Fits rd written := by
  unfold ofWritten Row.Fits
  split
  · dsimp only
    split <;> simp_all
  · simp_all [Nat.not_lt.2]

theorem Encoding.word_of_ofWritten {s : Symbol} {rd : Disparity} {written : BitVec 16}
    {e : Encoding rd} (h : ofWritten s rd written = .ok e) : e.word = .ofWritten written := by
  unfold ofWritten at h
  split at h
  · dsimp only at h
    split at h
    · cases h; rfl
    · cases h
  · cases h

theorem Entry.exists_ofRow_iff {r : Row} : (∃ e, ofRow r = .ok e) ↔ r.Sound := by
  unfold ofRow Row.Sound
  rw [← Encoding.exists_ofWritten_iff (s := r.symbol),
    ← Encoding.exists_ofWritten_iff (s := r.symbol)]
  cases Encoding.ofWritten r.symbol .negative r.minus <;>
    cases Encoding.ofWritten r.symbol .positive r.plus <;> simp [Except.bind, Except.map]

theorem Entry.ofRow_eq_ok_iff {r : Row} {e : Entry} : ofRow r = .ok e ↔
    e.symbol = r.symbol ∧ Encoding.ofWritten r.symbol .negative r.minus = .ok e.minus ∧
      Encoding.ofWritten r.symbol .positive r.plus = .ok e.plus := by
  unfold ofRow
  cases Encoding.ofWritten r.symbol .negative r.minus <;>
    cases Encoding.ofWritten r.symbol .positive r.plus <;> simp [Except.bind, Except.map]
  constructor
  · rintro rfl; simp
  · rintro ⟨h, rfl, rfl⟩; rw [← h]

theorem Entry.symbol_of_ofRow {r : Row} {e : Entry} (h : ofRow r = .ok e) : e.symbol = r.symbol :=
  (Entry.ofRow_eq_ok_iff.1 h).1

theorem Entry.claims_of_ofRow {r : Row} {e : Entry} (h : ofRow r = .ok e) :
    e.productions.map Production.claim = r.claims := by
  obtain ⟨-, hm, hp⟩ := Entry.ofRow_eq_ok_iff.1 h
  simp [productions, Disparity.all, production, encoding, Production.claim, Row.claims,
    Encoding.word_of_ofWritten hm, Encoding.word_of_ofWritten hp]

namespace Table

theorem entriesOf_cons_eq_ok_iff {seen : List Symbol} {r : Row} {rs : List Row} {es : List Entry} :
    entriesOf seen (r :: rs) = .ok es ↔
      ∃ e es', Entry.ofRow r = .ok e ∧ e.symbol ∉ seen ∧
        entriesOf (e.symbol :: seen) rs = .ok es' ∧ es = e :: es' := by
  rw [entriesOf]
  cases Entry.ofRow r with
  | error f => simp [Except.bind]
  | ok e =>
    simp only [Except.bind]
    split
    · simp_all
    · rename_i hs
      generalize hx : entriesOf (e.symbol :: seen) rs = x
      constructor
      · intro h
        cases x with
        | error f => cases h
        | ok es' => cases h; exact ⟨e, es', rfl, hs, hx, rfl⟩
      · rintro ⟨e', es', he, -, hes, rfl⟩
        cases he
        rw [hes] at hx
        subst hx
        rfl

/-- Entries have the symbols of their rows, none of them twice and none seen before. -/
theorem symbols_of_entriesOf {seen : List Symbol} {rows : List Row} {es : List Entry}
    (h : entriesOf seen rows = .ok es) :
    es.map Entry.symbol = rows.map Row.symbol ∧ (es.map Entry.symbol).Nodup ∧
      ∀ s ∈ seen, s ∉ es.map Entry.symbol := by
  induction rows generalizing seen es with
  | nil => cases h; simp
  | cons r rs ih =>
    obtain ⟨e, es', he, hs, hes, rfl⟩ := entriesOf_cons_eq_ok_iff.1 h
    obtain ⟨hmap, hnd, hdis⟩ := ih hes
    have hr := Entry.symbol_of_ofRow he
    refine ⟨by simp [hr, hmap], ?_, ?_⟩
    · exact List.nodup_cons.2 ⟨hdis e.symbol (by simp), hnd⟩
    · intro s hs'
      have := hdis s (by simp [hs'])
      simp only [List.map_cons, List.mem_cons, not_or]
      exact ⟨fun h => hs (h ▸ hs'), this⟩

/-- Entries have the words of their rows. -/
theorem claims_of_entriesOf {seen : List Symbol} {rows : List Row} {es : List Entry}
    (h : entriesOf seen rows = .ok es) :
    (es.flatMap Entry.productions).map Production.claim = rows.flatMap Row.claims := by
  induction rows generalizing seen es with
  | nil => cases h; rfl
  | cons r rs ih =>
    obtain ⟨e, es', he, -, hes, rfl⟩ := entriesOf_cons_eq_ok_iff.1 h
    rw [List.flatMap_cons, List.map_append, Entry.claims_of_ofRow he, ih hes, List.flatMap_cons]

/-- Rows make entries when each is sound and no symbol comes twice or was seen before. -/
theorem exists_entriesOf {seen : List Symbol} {rows : List Row} (hs : ∀ r ∈ rows, r.Sound)
    (hnd : (rows.map Row.symbol).Nodup) (hdis : ∀ s ∈ seen, s ∉ rows.map Row.symbol) :
    ∃ es, entriesOf seen rows = .ok es := by
  induction rows generalizing seen with
  | nil => exact ⟨[], rfl⟩
  | cons r rs ih =>
    obtain ⟨e, he⟩ := Entry.exists_ofRow_iff.2 (hs r (by simp))
    have hr := Entry.symbol_of_ofRow he
    rw [List.map_cons, List.nodup_cons] at hnd
    have hdis' : ∀ s ∈ e.symbol :: seen, s ∉ rs.map Row.symbol := by
      intro s h
      rcases List.mem_cons.1 h with rfl | h
      · exact hr ▸ hnd.1
      · exact fun h' => hdis s h (by simp [List.mem_map.1 h'])
    obtain ⟨es, hes⟩ := ih (fun r' h => hs r' (by simp [h])) hnd.2 hdis'
    refine ⟨e :: es, entriesOf_cons_eq_ok_iff.2 ⟨e, es, he, fun h => ?_, hes, rfl⟩⟩
    exact hdis _ h (by simp [hr])

/-! ### Building and reading a table -/

/-- The table that rows write, or their first fault. -/
def ofRows (rows : List Row) : Except TableFault Table :=
  match h : entriesOf [] rows with
  | .ok es => .ok ⟨es, (symbols_of_entriesOf h).2.1⟩
  | .error f => .error f

/-- The table of rows that are known to have no fault. -/
def ofSoundRows (rows : List Row) (hs : ∀ r ∈ rows, r.Sound)
    (hnd : (rows.map Row.symbol).Nodup) : Table :=
  match h : entriesOf [] rows with
  | .ok es => ⟨es, (symbols_of_entriesOf h).2.1⟩
  | .error f => absurd (@exists_entriesOf [] rows hs hnd (by simp)) (by simp [h])

/-- The number of entries. -/
def size (t : Table) : Nat := t.entries.length

/-- The entry of a symbol. -/
def get? (t : Table) (s : Symbol) : Option Entry := t.entries.find? (·.symbol = s)

/-- The entries of control characters, in row order. -/
def controls (t : Table) : List Entry := t.entries.filter (·.symbol.control)

/-- Every fact of the code, in row order, negative entering disparity first. -/
def productions (t : Table) : List Production := t.entries.flatMap Entry.productions

theorem ofRows_eq_ok_iff {rows : List Row} {t : Table} :
    ofRows rows = .ok t ↔ entriesOf [] rows = .ok t.entries := by
  unfold ofRows
  split
  · rename_i es h
    cases t
    simp [h]
  · rename_i f h
    simp [h]

theorem ofRows_ofSoundRows {rows : List Row} (hs : ∀ r ∈ rows, r.Sound)
    (hnd : (rows.map Row.symbol).Nodup) : ofRows rows = .ok (ofSoundRows rows hs hnd) := by
  rw [ofRows_eq_ok_iff]
  unfold ofSoundRows
  split
  · assumption
  · rename_i f h
    exact absurd (@exists_entriesOf [] rows hs hnd (by simp)) (by simp [h])

/-- A table has the words of its rows. -/
theorem claims_of_ofRows {rows : List Row} {t : Table} (h : ofRows rows = .ok t) :
    t.productions.map Production.claim = rows.flatMap Row.claims :=
  claims_of_entriesOf (ofRows_eq_ok_iff.1 h)

end Table

end LineCode
