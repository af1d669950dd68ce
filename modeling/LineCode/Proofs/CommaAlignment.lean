import LineCode.Proofs.CommaSearch
import LineCode.Proofs.StandardWords
import LineCode.Proofs.Transmission

/-!
# Commas on a standard line

Where commas stand on a line that carries the standard's words. At a word boundary a comma
is the start of a `K28.1`, a `K28.5` or a `K28.7` (`commaAt_boundary_iff`). Anywhere else
it starts within a `K28.7` (`getElem?_of_commaAt`), because a comma that runs across a seam
asks for words that the standard lacks, or for a line that leans both ways
(`symbol_eq_of_seam`).

A receiver that joins a line finds the next boundary with a comma, unless it joins within a
`K28.7` (`Table.Sends.findComma_drop`). **`findComma_serialize_standard`** says this of
what an encoder sends.
-/

namespace LineCode

/-- The control character `K28.y`. -/
def Symbol.k28 (y : Nat) : Symbol := .ofXY 28 y true

/-- The characters whose words begin with a comma. -/
def commaSymbols : List Symbol := [.k28 1, .k28 5, .k28 7]

/-- Symbol `k` of a list is one of `cs`. -/
def SendsOneOf (cs ss : List Symbol) (k : Nat) : Prop := ∃ s ∈ cs, ss[k]? = some s

/-- What a search for commas finds on the line that carries `ss`. -/
structure CommaAligned (ss : List Symbol) (bits : List Bool) : Prop where
  /-- The first comma is the start of the first comma character. -/
  first : findComma bits = (ss.findIdx? (· ∈ [.k28 1, .k28 5, .k28 7])).map (10 * ·)
  /-- Without a `K28.7`, a receiver that joins anywhere finds the next comma character. -/
  found : .k28 7 ∉ ss → ∀ n k, IsLeast {k | n ≤ 10 * k ∧ SendsOneOf [.k28 1, .k28 5] ss k} k →
    findComma (bits.drop n) = some (10 * k - n)
  /-- It finds nothing where no such character is to come. -/
  missed : .k28 7 ∉ ss → ∀ n, (∀ k, n ≤ 10 * k → ¬ SendsOneOf [.k28 1, .k28 5] ss k) →
    findComma (bits.drop n) = none

/-! ### Words -/

section Words

variable {p q : Production} (hp : p ∈ Table.standard.productions) {b : Bool} {k : Nat}

include hp

/-- A word begins with a comma when it is a comma character's. -/
theorem commaAt_word_iff : CommaAt p.word.lineBits 0 ↔ p.symbol ∈ commaSymbols :=
  Table.forall_lineBits_standard (P := fun s _ bits => CommaAt bits 0 ↔ s ∈ commaSymbols)
    (by decide +kernel) p hp

/-- No comma lies within a word but at its start. -/
theorem not_commaAt_word (hk : 0 < k) : ¬ CommaAt p.word.lineBits k := by
  intro h
  have hlen := h.add_le_length
  rw [Codeword.length_lineBits, commaLength] at hlen
  refine Table.forall_lineBits_standard (P := fun _ _ bits => ∀ k ∈ List.range' 1 3,
    ¬ CommaAt bits k) (by decide +kernel) p hp k ?_ h
  rw [List.mem_range'_1]
  omega

/-- No word begins with what follows the first, second or third bit of a comma. -/
theorem not_isPrefix_word (hk : 0 < k ∧ k ≤ 3) : ¬ (comma b).drop k <+: p.word.lineBits := by
  refine Table.forall_lineBits_standard (P := fun _ _ bits => ∀ b, ∀ k ∈ List.range' 1 3,
    ¬ (comma b).drop k <+: bits) (by decide +kernel) p hp b k ?_
  rw [List.mem_range'_1]
  omega

/-- A word that ends with five or six bits of a comma is a `K28.7`. -/
theorem symbol_eq_of_drop_word (hk : 5 ≤ k ∧ k ≤ 6)
    (h : p.word.lineBits.drop (10 - k) = (comma b).take k) : p.symbol = .k28 7 := by
  refine Table.forall_lineBits_standard (P := fun s _ bits => ∀ b, ∀ k ∈ List.range' 5 2,
    bits.drop (10 - k) = (comma b).take k → s = .k28 7) (by decide +kernel) p hp b k ?_ h
  rw [List.mem_range'_1]
  omega

/-- A word that begins with three equal bits enters a line that leans the other way. -/
theorem rdIn_of_isPrefix_word (h : (comma b).drop 4 <+: p.word.lineBits) : p.rdIn = .ofBit !b :=
  Table.forall_lineBits_standard (P := fun _ d bits => ∀ b, (comma b).drop 4 <+: bits →
    d = .ofBit !b) (by decide +kernel) p hp b h

/-- A word that ends with two bits and two of the other kind leaves the line leaning to the
last. -/
theorem rdOut_of_drop_word (h : p.word.lineBits.drop 6 = (comma b).take 4) :
    p.rdOut = .ofBit b := by
  have hsum := Table.forall_lineBits_standard (P := fun _ d bits => ∀ b, bits.drop 6 =
    (comma b).take 4 → Disparity.ofSign? (d.sign + excess bits) = some (.ofBit b))
    (by decide +kernel) p hp b h
  exact Option.some.inj ((Table.evolve_of_mem hp).symm.trans hsum)

/-- A comma that runs from one word into the next starts in a `K28.7`. -/
theorem symbol_eq_of_seam (hq : q ∈ Table.standard.productions) (hpq : q.rdIn = p.rdOut)
    (hk : 0 < k ∧ k < commaLength) (hhead : p.word.lineBits.drop (10 - k) = (comma b).take k)
    (htail : (comma b).drop k <+: q.word.lineBits) : p.symbol = .k28 7 := by
  unfold commaLength at hk
  by_cases hlow : k ≤ 3
  · exact absurd htail (not_isPrefix_word hq ⟨hk.1, hlow⟩)
  · by_cases hhigh : 5 ≤ k
    · exact symbol_eq_of_drop_word hp ⟨hhigh, by omega⟩ hhead
    · -- the head leaves the line leaning to `b`, and the tail may not enter it so
      obtain rfl : k = 4 := by omega
      rw [rdIn_of_isPrefix_word hq htail, rdOut_of_drop_word hp hhead] at hpq
      cases b <;> cases hpq

end Words

/-! ### Lines -/

section Lines

variable {d e : Disparity} {ss : List Symbol} {ws : List Codeword} {j k n : Nat}
  (h : Table.standard.Sends d ss ws e)

include h

/-- A comma stands at a boundary where a comma character is sent. -/
theorem commaAt_boundary_iff : CommaAt (serialize ws) (10 * k) ↔ SendsOneOf commaSymbols ss k := by
  cases hs : ss[k]? with
  | none =>
    have hend : ss.length ≤ k := List.getElem?_eq_none_iff.1 hs
    have hno : ¬ CommaAt (serialize ws) (10 * k) := fun hcomma => by
      have hfits := hcomma.add_le_length
      rw [length_serialize, h.length_eq, commaLength] at hfits
      omega
    simp [SendsOneOf, hs, hno]
  | some s =>
    obtain ⟨m, m', w, hw, hp, -⟩ := h.getElem? hs
    rw [commaAt_serialize_mul_iff hw, commaAt_word_iff hp]
    simp [SendsOneOf, hs]

/-- A comma that stands at no boundary starts within a `K28.7`. -/
theorem getElem?_of_commaAt (hj : j % 10 ≠ 0) (hcomma : CommaAt (serialize ws) j) :
    ss[j / 10]? = some (.k28 7) := by
  obtain ⟨b, hb⟩ := hcomma
  obtain ⟨p, hp, hs, hword | ⟨hlong, hhead, q, hq, hpq, htail⟩⟩ :=
    h.exists_of_isPrefix_drop (by simp [comma]) (by simp [commaLength]) hb
  · exact absurd ⟨b, hword⟩ (not_commaAt_word hp (Nat.pos_of_ne_zero hj))
  · rw [hs, symbol_eq_of_seam hp hq hpq ⟨by omega, hlong⟩ ?_ htail]
    rw [← hhead]
    congr 1
    omega

/-- A receiver that joins a line, but not within a `K28.7`, finds the next comma character. -/
theorem Table.Sends.findComma_drop (hn : n % 10 ≠ 0 → ss[n / 10]? ≠ some (.k28 7)) :
    (∀ k, IsLeast {k | n ≤ 10 * k ∧ SendsOneOf commaSymbols ss k} k →
        findComma ((serialize ws).drop n) = some (10 * k - n)) ∧
      ((∀ k, n ≤ 10 * k → ¬ SendsOneOf commaSymbols ss k) →
        findComma ((serialize ws).drop n) = none) := by
  refine LineCode.findComma_drop (fun k => (commaAt_boundary_iff h).2) fun j hj hcomma => ?_
  by_cases haligned : j % 10 = 0
  · refine ⟨j / 10, by omega, by omega, (commaAt_boundary_iff h).1 ?_⟩
    rwa [show 10 * (j / 10) = j by omega]
  · -- the `K28.7` that the comma starts in has a comma of its own, seen from `n` too
    have hk := getElem?_of_commaAt h haligned hcomma
    refine ⟨j / 10, ?_, by omega, .k28 7, by simp [commaSymbols], hk⟩
    by_contra hlt
    have hsame : n / 10 = j / 10 := by omega
    exact hn (by omega) (hsame ▸ hk)

end Lines

/-! ### What an encoder sends -/

/-- The first symbol that is one of `cs`, as the least place of one. -/
theorem isLeast_of_findIdx? {cs ss : List Symbol} {k : Nat}
    (h : ss.findIdx? (· ∈ cs) = some k) : IsLeast {k | SendsOneOf cs ss k} k := by
  obtain ⟨hlt, hk, hbefore⟩ := List.findIdx?_eq_some_iff_getElem.1 h
  refine ⟨⟨ss[k], by simpa using hk, List.getElem?_eq_getElem hlt⟩, ?_⟩
  rintro i ⟨s, hs, hi⟩
  by_contra hik
  obtain ⟨_, rfl⟩ := List.getElem?_eq_some_iff.1 hi
  exact hbefore i (by omega) (by simpa using hs)

/-- Without a `K28.7`, the comma characters are the other two. -/
theorem sendsOneOf_commaSymbols_iff {ss : List Symbol} {k : Nat} (h : .k28 7 ∉ ss) :
    SendsOneOf commaSymbols ss k ↔ SendsOneOf [.k28 1, .k28 5] ss k := by
  refine exists_congr fun s => and_congr_left fun hk => ?_
  have hne : s ≠ .k28 7 := fun heq => h (heq ▸ List.mem_of_getElem? hk)
  simp [commaSymbols, hne]

theorem commaAligned_of_sends {d e : Disparity} {ss : List Symbol} {ws : List Codeword}
    (h : Table.standard.Sends d ss ws e) : CommaAligned ss (serialize ws) := by
  have hjoin : .k28 7 ∉ ss → ∀ n, n % 10 ≠ 0 → ss[n / 10]? ≠ some (.k28 7) :=
    fun hno _ _ hk => hno (List.mem_of_getElem? hk)
  constructor
  · obtain ⟨hfound, hmissed⟩ := h.findComma_drop (n := 0) (by simp)
    simp only [Nat.zero_le, true_and, Nat.sub_zero, List.drop_zero, forall_const] at hfound hmissed
    cases hfirst : ss.findIdx? (· ∈ [.k28 1, .k28 5, .k28 7]) with
    | none =>
      refine hmissed fun k ⟨s, hs, hk⟩ => ?_
      have := List.findIdx?_eq_none_iff.1 hfirst s (List.mem_of_getElem? hk)
      exact of_decide_eq_false this hs
    | some k => exact hfound k (isLeast_of_findIdx? hfirst)
  · intro hno n k hk
    simp only [← sendsOneOf_commaSymbols_iff hno] at hk
    exact (h.findComma_drop (hjoin hno n)).1 k hk
  · intro hno n hk
    simp only [← sendsOneOf_commaSymbols_iff hno] at hk
    exact (h.findComma_drop (hjoin hno n)).2 hk

/-- The standard's encoder sends all of the standard's symbols, as its table says. -/
theorem Encoder.exists_sends_standard {ss : List Symbol}
    (hs : ∀ s ∈ ss, (Table.standard.get? s).isSome) (d : Disparity) :
    ∃ ws e, Table.standard.Sends d ss ws e ∧
      (Encoder.mk .standard d).encodeAll ss = (.ok ws, ⟨.standard, e⟩) := by
  obtain ⟨ws, e, h⟩ := Table.exists_sends hs d
  have hsends : Codec.standard.table.Sends d ss ws e := by
    rw [Codec.table_standard]
    exact h
  exact ⟨ws, e, h, hsends.encodeAll⟩

/-- **Comma alignment of the standard**: on the line that carries any symbols of the standard
from any disparity, a search for a comma finds the first comma character and nothing before
it. When no `K28.7` is among them it finds the next one from wherever it starts, and so
always a word boundary. -/
theorem findComma_serialize_standard (d : Disparity) (ss : List Symbol)
    (hs : ∀ s ∈ ss, (Table.standard.get? s).isSome) :
    ∃ ws tx, (Encoder.mk .standard d).encodeAll ss = (.ok ws, tx) ∧
      CommaAligned ss (serialize ws) := by
  obtain ⟨ws, e, h, hsent⟩ := Encoder.exists_sends_standard hs d
  exact ⟨ws, _, hsent, commaAligned_of_sends h⟩

/-- A receiver that joins within the first of two commas finds the second. -/
theorem findComma_serialize_standard_k28 :
    (∀ s ∈ [.data 21, .k28 1, .data 0, .k28 5], (Table.standard.get? s).isSome) ∧ ∃ ws tx,
      (Encoder.mk .standard .negative).encodeAll [.data 21, .k28 1, .data 0, .k28 5] =
        (.ok ws, tx) ∧ Symbol.k28 7 ∉ [.data 21, .k28 1, .data 0, .k28 5] ∧
      findComma (serialize ws) = some 10 ∧ findComma ((serialize ws).drop 11) = some 19 := by
  have hs : ∀ s ∈ [.data 21, .k28 1, .data 0, .k28 5], (Table.standard.get? s).isSome := by
    simp only [Table.isSome_get?_standard]
    decide
  have hno : Symbol.k28 7 ∉ [.data 21, .k28 1, .data 0, .k28 5] := by decide
  obtain ⟨ws, tx, hsent, h⟩ := findComma_serialize_standard .negative _ hs
  have hnext : IsLeast {k | 11 ≤ 10 * k ∧
      SendsOneOf [.k28 1, .k28 5] [.data 21, .k28 1, .data 0, .k28 5] k} 3 := by
    refine ⟨⟨by decide, .k28 5, by decide, rfl⟩, ?_⟩
    rintro k ⟨hk, s, hs, hget⟩
    by_contra hlt
    obtain rfl : k = 2 := by omega
    cases hget
    revert hs
    decide
  exact ⟨hs, ws, tx, hsent, hno, h.first, h.found hno 11 3 hnext⟩

end LineCode
