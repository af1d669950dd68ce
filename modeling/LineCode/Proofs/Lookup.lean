import LineCode.Codec
import LineCode.Proofs.Productions

/-!
# Looking up

The two arrays of a codec hold the productions of its table and nothing else
(`Codec.forward_eq_some_iff`, `Codec.reverse_eq_some_iff`). So a symbol is sent as the
word that the table lists for it (`Codec.encode_eq_ok_iff`), a word stands for the symbol
that is sent as it (`Codec.decode_eq_ok_iff`), and each direction undoes the other.

The array of the decoder is never written twice at one place: a production that finds
its word taken stops the construction. The array of the encoder has no such guard; there
it is the table that lists no symbol twice.
-/

namespace LineCode

/-! ### Arrays after a run of entries -/

namespace Maps

theorem addAll_cons_eq_ok_iff {m m' : Maps} {p : Production} {ps : List Production} :
    m.addAll (p :: ps) = .ok m' ↔ ∃ m₁, m.add p = .ok m₁ ∧ m₁.addAll ps = .ok m' := by
  rw [addAll]
  cases m.add p with
  | error f => simp [Except.bind]
  | ok m₁ => simp [Except.bind]

/-- The places of the words hold the productions entered, and what was there before. -/
theorem reverse_addAll {m m' : Maps} {ps : List Production} (h : m.addAll ps = .ok m')
    (a : Fin 2048) (slot : Slot) : m'.reverse.get a = some slot ↔
      m.reverse.get a = some slot ∨
        ∃ p ∈ ps, decodeAddress p.word p.rdIn = a ∧ slot = ⟨p.symbol, p.rdOut⟩ := by
  induction ps generalizing m with
  | nil => cases h; simp
  | cons p ps ih =>
    obtain ⟨m₁, hp, h₁⟩ := addAll_cons_eq_ok_iff.1 h
    have hfree := exists_add_iff.1 ⟨m₁, hp⟩
    rw [ih h₁, reverse_of_add hp a]
    by_cases ha : decodeAddress p.word p.rdIn = a
    · subst ha
      simp [hfree, eq_comm (a := slot)]
    · simp [ha]

/-- Nothing changes where no production entered has its place. -/
theorem forward_addAll_of_not_mem {m m' : Maps} {ps : List Production}
    (h : m.addAll ps = .ok m') {a : Fin 1024}
    (ha : ∀ p ∈ ps, encodeAddress p.symbol p.rdIn ≠ a) : m'.forward.get a = m.forward.get a := by
  induction ps generalizing m with
  | nil => cases h; rfl
  | cons p ps ih =>
    obtain ⟨m₁, hp, h₁⟩ := addAll_cons_eq_ok_iff.1 h
    rw [ih h₁ fun q hq => ha q (by simp [hq]), forward_of_add hp a,
      if_neg (ha p (by simp))]

/-- A production entered is found at its place, if no other one has that place. -/
theorem forward_addAll_of_mem {m m' : Maps} {ps : List Production} (h : m.addAll ps = .ok m')
    {p : Production} (hp : p ∈ ps)
    (hinj : ∀ q ∈ ps, encodeAddress q.symbol q.rdIn = encodeAddress p.symbol p.rdIn → q = p) :
    m'.forward.get (encodeAddress p.symbol p.rdIn) = some ⟨p.word, p.rdOut⟩ := by
  induction ps generalizing m with
  | nil => cases hp
  | cons r rs ih =>
    obtain ⟨m₁, hr, h₁⟩ := addAll_cons_eq_ok_iff.1 h
    by_cases hmem : p ∈ rs
    · exact ih h₁ hmem fun q hq => hinj q (by simp [hq])
    · obtain rfl : p = r := (List.mem_cons.1 hp).resolve_right hmem
      have hrest : ∀ q ∈ rs, encodeAddress q.symbol q.rdIn ≠ encodeAddress p.symbol p.rdIn :=
        fun q hq ha => hmem (hinj q (by simp [hq]) ha ▸ hq)
      rw [forward_addAll_of_not_mem h₁ hrest, forward_of_add hr, if_pos rfl]

end Maps

/-! ### What a codec finds -/

namespace Codec

variable {c : Codec} {s : Symbol} {d e : Disparity} {w : Codeword}

theorem reverse_eq_some_iff :
    c.maps.reverse.get (decodeAddress w d) = some ⟨s, e⟩ ↔ ⟨d, s, e, w⟩ ∈ c.table.productions := by
  rw [Maps.reverse_addAll c.maps_eq]
  constructor
  · rintro (h | ⟨p, hp, ha, hs⟩)
    · cases h.symm.trans (get_replicate ..)
    · obtain ⟨rfl, rfl⟩ := decodeAddress_inj.1 ha
      cases hs
      exact hp
  · intro h
    exact .inr ⟨_, h, rfl, rfl⟩

theorem forward_eq_some_iff :
    c.maps.forward.get (encodeAddress s d) = some ⟨w, e⟩ ↔ ⟨d, s, e, w⟩ ∈ c.table.productions := by
  have hmem : ∀ p ∈ c.table.productions,
      c.maps.forward.get (encodeAddress p.symbol p.rdIn) = some ⟨p.word, p.rdOut⟩ := by
    intro p hp
    refine Maps.forward_addAll_of_mem c.maps_eq hp fun q hq ha => ?_
    obtain ⟨hs, hd⟩ := encodeAddress_inj.1 ha
    exact Table.production_inj hq hp hs hd
  constructor
  · intro h
    by_cases hex : ∃ p ∈ c.table.productions, encodeAddress p.symbol p.rdIn = encodeAddress s d
    · obtain ⟨p, hp, ha⟩ := hex
      obtain ⟨rfl, rfl⟩ := encodeAddress_inj.1 ha
      rw [hmem p hp] at h
      cases h
      exact hp
    · rw [Maps.forward_addAll_of_not_mem c.maps_eq fun p hp ha => hex ⟨p, hp, ha⟩] at h
      cases h.symm.trans (get_replicate ..)
  · exact hmem _

/-- A symbol is sent as the word that the table lists for it. -/
theorem encode_eq_ok_iff :
    c.encode s d = .ok ⟨w, e⟩ ↔ ⟨d, s, e, w⟩ ∈ c.table.productions := by
  rw [← forward_eq_some_iff]
  unfold encode
  split <;> simp_all

/-- The array has nothing for a symbol when the table does not list it. -/
theorem forward_eq_none_iff :
    c.maps.forward.get (encodeAddress s d) = none ↔ c.table.get? s = none := by
  have hsome : (c.maps.forward.get (encodeAddress s d)).isSome ↔ (c.table.get? s).isSome := by
    rw [← Table.exists_production_iff d, Option.isSome_iff_exists]
    constructor
    · rintro ⟨⟨w, e⟩, h⟩
      exact ⟨w, e, forward_eq_some_iff.1 h⟩
    · rintro ⟨w, e, h⟩
      exact ⟨_, forward_eq_some_iff.2 h⟩
  rw [← Option.not_isSome_iff_eq_none, hsome, Option.not_isSome_iff_eq_none]

/-- A symbol is refused when the table does not list it, whichever disparity it is entered in. -/
theorem encode_eq_error_iff {u : Unsupported} :
    c.encode s d = .error u ↔ c.table.get? s = none ∧ u = ⟨s⟩ := by
  rw [← forward_eq_none_iff]
  unfold encode
  cases c.maps.forward.get (encodeAddress s d) <;> simp [eq_comm]

/-- A word stands for the symbol that is sent as it. -/
theorem decode_eq_ok_iff {r : Decoded} : c.decode w d = .ok r ↔
    ⟨d, r.symbol, r.rd, w⟩ ∈ c.table.productions ∧
      r = ⟨r.symbol, d, r.rd, r.rd ≠ d, c.detector.flags d w⟩ := by
  rw [← reverse_eq_some_iff]
  unfold decode
  split
  · rename_i slot h
    cases r
    cases slot
    simp only [h, Except.ok.injEq, Decoded.mk.injEq, Option.some.injEq, Slot.mk.injEq]
    constructor
    · rintro ⟨rfl, rfl, rfl, rfl, rfl⟩
      simp
    · rintro ⟨⟨rfl, rfl⟩, -, rfl, -, hc, hf⟩
      simp [hc, hf]
  · rename_i h
    simp [h]

theorem prior_of_decode {r : Decoded} (h : c.decode w d = .ok r) : r.prior = d := by
  rw [(decode_eq_ok_iff.1 h).2]

theorem decode_of_mem (h : ⟨d, s, e, w⟩ ∈ c.table.productions) :
    c.decode w d = .ok ⟨s, d, e, e ≠ d, c.detector.flags d w⟩ :=
  decode_eq_ok_iff.2 ⟨h, rfl⟩

/-- A word is refused when no symbol is sent as it, and the refusal repeats the question. -/
theorem decode_eq_error_iff {r : Rejected} : c.decode w d = .error r ↔
    (∀ s e, ⟨d, s, e, w⟩ ∉ c.table.productions) ∧ r = ⟨w, d, c.detector.flags d w⟩ := by
  simp only [← reverse_eq_some_iff]
  unfold decode
  split
  · rename_i slot h
    simp only [h, reduceCtorEq, false_iff, not_and]
    intro hnone
    exact absurd rfl (hnone slot.symbol slot.rdOut)
  · rename_i h
    simp [h, eq_comm]

theorem isValid_eq_true_iff : c.isValid w d = true ↔ ∃ r, c.decode w d = .ok r := by
  unfold isValid decode
  split <;> simp_all

theorem isValid_eq_false_iff : c.isValid w d = false ↔ ∃ r, c.decode w d = .error r := by
  unfold isValid decode
  split <;> simp_all

/-! ### Codecs of tables without shared words -/

theorem table_ofTable {t : Table} (h : ofTable t = .ok c) : c.table = t := by
  unfold ofTable at h
  split at h
  · cases h; rfl
  · cases h

theorem ofTable_ofClearTable {t : Table} (h : (t.productions.map Production.claim).Nodup) :
    ofTable t = .ok (ofClearTable t h) := by
  unfold ofTable ofClearTable
  split
  · rfl
  · rename_i f hf
    exact absurd (Maps.exists_ofProductions h) (by simp [hf])

theorem detector_ofTable {t : Table} (h : ofTable t = .ok c) : c.detector = .strict := by
  unfold ofTable at h
  split at h
  · cases h; rfl
  · cases h

@[simp] theorem table_withDetector (detector : Detector) :
    (c.withDetector detector).table = c.table := rfl

@[simp] theorem detector_withDetector (detector : Detector) :
    (c.withDetector detector).detector = detector := rfl

end Codec

end LineCode
