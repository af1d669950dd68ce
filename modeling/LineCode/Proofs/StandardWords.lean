import LineCode.Codec.Standard
import LineCode.Proofs.Lookup
import Mathlib.Data.List.Pairwise

/-!
# The words of the standard

What the standard's words keep besides the running-disparity rule. Neither detector fires
on a word that is entered as the standard lists it (`flags_of_mem_standard`). No two
symbols share a word, even from different disparities (`symbol_eq_of_mem_standard`). And a
word met in the wrong disparity either is right there too or makes the strict detector
fire (`exists_or_flags_flip_standard`).

Each is checked once for all rows; `Table.forall_mem_standard` carries it over to the
productions.
-/

namespace LineCode

/-- What holds of every word that a row of the standard writes holds of every production. -/
theorem Table.forall_mem_standard {P : Symbol → Disparity → Codeword → Prop}
    (h : ∀ r ∈ standardRows, ∀ d ∈ Disparity.all, P r.symbol d (r.word d)) :
    ∀ p ∈ Table.standard.productions, P p.symbol p.rdIn p.word := by
  intro p hp
  obtain ⟨r, hr, hs, hw, -⟩ := (mem_productions_ofRows ofRows_standardRows).1 hp
  rw [hs, hw]
  exact h r hr p.rdIn (Disparity.mem_all _)

/-- The same of a word's bits, which a row's check reads off as they are written. -/
theorem Table.forall_lineBits_standard {P : Symbol → Disparity → List Bool → Prop}
    (h : ∀ r ∈ standardRows, ∀ d ∈ Disparity.all, P r.symbol d (r.lineBits d)) :
    ∀ p ∈ Table.standard.productions, P p.symbol p.rdIn p.word.lineBits :=
  forall_mem_standard (P := fun s d w => P s d w.lineBits) fun r hr d hd =>
    r.lineBits_word d ▸ h r hr d hd

theorem Table.mem_standard {r : Row} (hr : r ∈ standardRows) {d e : Disparity} {w : Codeword}
    (hw : r.word d = w) (he : evolve d w = some e) :
    ⟨d, r.symbol, e, w⟩ ∈ Table.standard.productions :=
  (mem_productions_ofRows ofRows_standardRows).2 ⟨r, hr, rfl, hw.symm, he⟩

/-- The comma, as it is sent from a negative disparity. -/
theorem Table.comma_mem_standard :
    ⟨.negative, .k 0xBC, .positive, ⟨0x17C⟩⟩ ∈ Table.standard.productions := by
  have hr : ⟨.k 0xBC, 0b001111_1010, 0b110000_0101⟩ ∈ standardRows :=
    List.mem_append_right _ (by decide)
  exact mem_standard hr (by decide) (by decide)

/-- A symbol of a row is sent from every disparity as the word that the row writes. -/
theorem Table.exists_mem_standard {r : Row} (hr : r ∈ standardRows) (d : Disparity) :
    ∃ e, ⟨d, r.symbol, e, r.word d⟩ ∈ Table.standard.productions := by
  have hfits : Row.Fits d (r.written d) := by
    cases d
    · exact (standardRows_sound r hr).1
    · exact (standardRows_sound r hr).2
  obtain ⟨e, he⟩ := Option.isSome_iff_exists.1 hfits.2
  exact ⟨e, mem_standard hr rfl he⟩

theorem Codec.ofTable_standard : Codec.ofTable .standard = .ok .standard :=
  Codec.ofTable_ofClearTable _

@[simp] theorem Codec.table_standard : Codec.standard.table = .standard :=
  Codec.table_ofTable Codec.ofTable_standard

theorem Codec.comma_mem_standard :
    ⟨.negative, .k 0xBC, .positive, ⟨0x17C⟩⟩ ∈ Codec.standard.table.productions := by
  rw [table_standard]
  exact Table.comma_mem_standard

@[simp] theorem Codec.detector_standard : Codec.standard.detector = .strict :=
  Codec.detector_ofTable Codec.ofTable_standard

/-- The standard lists every data character and the twelve control characters. -/
theorem Table.isSome_get?_standard (s : Symbol) :
    (Table.standard.get? s).isSome = s.isStandard := by
  have hrows : (Table.standard.get? s).isSome ↔ s ∈ standardRows.map Row.symbol := by
    rw [← exists_production_iff .negative, List.mem_map]
    constructor
    · rintro ⟨w, e, h⟩
      obtain ⟨r, hr, hs, -⟩ := (mem_productions_ofRows ofRows_standardRows).1 h
      exact ⟨r, hr, hs.symm⟩
    · rintro ⟨r, hr, rfl⟩
      obtain ⟨e, he⟩ := exists_mem_standard hr .negative
      exact ⟨_, e, he⟩
  rw [Bool.eq_iff_iff, hrows, standardRows_symbols]
  obtain ⟨v, c⟩ := s
  cases c
  · have hv : ∃ n < 256, BitVec.ofNat 8 n = v := ⟨v.toNat, v.isLt, by simp⟩
    simpa [Symbol.isStandard, Symbol.data, Symbol.k] using hv
  · simp [Symbol.isStandard, Symbol.data, Symbol.k]

/-! ### Detectors -/

/-- Neither detector fires on a word where the standard lists it. -/
theorem flags_of_mem_standard {p : Production} (hp : p ∈ Table.standard.productions)
    (t : Detector) : t.flags p.rdIn p.word = false := by
  have h : ∀ r ∈ standardRows, ∀ d ∈ Disparity.all,
      Detector.strict.flags d (r.word d) = false ∧ Detector.loose.flags d (r.word d) = false := by
    decide +kernel
  obtain ⟨hstrict, hloose⟩ := Table.forall_mem_standard
    (P := fun _ d w => Detector.strict.flags d w = false ∧ Detector.loose.flags d w = false) h p hp
  cases t
  · exact hstrict
  · exact hloose

/-- A word met in the other disparity than it was sent from may stand there too, or the strict
detector fires. -/
theorem exists_or_flags_flip_standard {p : Production} (hp : p ∈ Table.standard.productions) :
    (∃ s e, ⟨p.rdIn.flip, s, e, p.word⟩ ∈ Table.standard.productions) ∨
      Detector.strict.flags p.rdIn.flip p.word = true := by
  have h : ∀ r ∈ standardRows, r.minus = r.plus ∨
      ∀ d ∈ Disparity.all, Detector.strict.flags d.flip (r.word d) = true := by
    decide +kernel
  obtain ⟨r, hr, hs, hw, -⟩ := (Table.mem_productions_ofRows Table.ofRows_standardRows).1 hp
  rcases h r hr with hsame | hflags
  · left
    obtain ⟨e, he⟩ := Table.exists_mem_standard hr p.rdIn.flip
    have hword : r.word p.rdIn.flip = p.word := by
      rw [hw]
      unfold Row.word
      cases p.rdIn
      · exact congrArg Codeword.ofWritten hsame.symm
      · exact congrArg Codeword.ofWritten hsame
    exact ⟨r.symbol, e, hword ▸ he⟩
  · right
    rw [hw]
    exact hflags p.rdIn (Disparity.mem_all _)

/-! ### Words and symbols -/

/-- The words of a row, a word used from both disparities once. -/
def Row.words (r : Row) : List Codeword :=
  if r.minus = r.plus then [r.word .negative] else [r.word .negative, r.word .positive]

theorem Row.word_mem_words (r : Row) (d : Disparity) : r.word d ∈ r.words := by
  unfold Row.words
  split
  · rename_i h
    cases d
    · simp
    · simp [Row.word, Row.written, h]
  · cases d <;> simp

theorem standardRows_words : (standardRows.flatMap Row.words).Nodup := by
  have h : allNew 0 ((standardRows.flatMap Row.words).map Codeword.toNat) = true := by
    decide +kernel
  exact (nodup_of_allNew h).1.of_map

/-- Two symbols of the standard have no word in common. -/
theorem symbol_eq_of_mem_standard {p q : Production} (hp : p ∈ Table.standard.productions)
    (hq : q ∈ Table.standard.productions) (hw : p.word = q.word) : p.symbol = q.symbol := by
  obtain ⟨r, hr, hs, hpw, -⟩ := (Table.mem_productions_ofRows Table.ofRows_standardRows).1 hp
  obtain ⟨r', hr', hs', hqw, -⟩ := (Table.mem_productions_ofRows Table.ofRows_standardRows).1 hq
  by_cases hrow : r = r'
  · rw [hs, hs', hrow]
  · have : Std.Symm (Function.onFun List.Disjoint Row.words) :=
      ⟨fun _ _ h _ hw hw' => h hw' hw⟩
    have hdis := (List.nodup_flatMap.1 standardRows_words).2.forall hr hr' hrow
    refine absurd (r'.word_mem_words q.rdIn) (hdis ?_)
    rw [← hqw, ← hw, hpw]
    exact r.word_mem_words p.rdIn

end LineCode
