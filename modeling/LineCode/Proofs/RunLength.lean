import LineCode.Proofs.CommaAlignment

/-!
# Run length

A receiver keeps time by the changes of the line, so a line must not stay the same for
long. A standard line never carries six equal bits in a row
(`not_isInfix_serialize_standard`), whatever is sent on it; five it does carry, in every
comma.

No word has six equal bits, and none begins or ends with four. Six across a seam are
therefore three and three. A word that ends with three equal bits leaves the line leaning
to them (`rdOut_of_isSuffix_word`), and a word that begins with three enters a line that
leans the other way (`rdIn_of_isPrefix_word`), so the one is never sent after the other.
-/

namespace LineCode

/-! ### Words -/

section Words

variable {p q : Production} (hp : p ∈ Table.standard.productions) {b : Bool} {k : Nat}

include hp

/-- No word has six equal bits in a row. -/
theorem not_isInfix_word : ¬ List.replicate 6 b <:+: p.word.lineBits :=
  Table.forall_lineBits_standard (P := fun _ _ bits => ∀ b, ¬ List.replicate 6 b <:+: bits)
    (by decide +kernel) p hp b

/-- No word begins with four equal bits, -/
theorem lt_four_of_isPrefix_word (h : List.replicate k b <+: p.word.lineBits) : k < 4 := by
  have hfour : ¬ List.replicate 4 b <+: p.word.lineBits :=
    Table.forall_lineBits_standard (P := fun _ _ bits => ∀ b, ¬ List.replicate 4 b <+: bits)
      (by decide +kernel) p hp b
  by_contra hk
  exact hfour (List.IsPrefix.trans (List.prefix_replicate_iff.2 ⟨by simpa using hk, by simp⟩) h)

/-- and none ends with four. -/
theorem lt_four_of_isSuffix_word (h : List.replicate k b <:+ p.word.lineBits) : k < 4 := by
  have hfour : ¬ List.replicate 4 b <:+ p.word.lineBits :=
    Table.forall_lineBits_standard (P := fun _ _ bits => ∀ b, ¬ List.replicate 4 b <:+ bits)
      (by decide +kernel) p hp b
  by_contra hk
  exact hfour (List.IsSuffix.trans (List.suffix_replicate_iff.2 ⟨by simpa using hk, by simp⟩) h)

/-- A word that ends with three equal bits leaves the line leaning to them. -/
theorem rdOut_of_isSuffix_word (h : List.replicate 3 b <:+ p.word.lineBits) :
    p.rdOut = .ofBit b := by
  have hsum := Table.forall_lineBits_standard (P := fun _ d bits => ∀ b,
    List.replicate 3 b <:+ bits → Disparity.ofSign? (d.sign + excess bits) = some (.ofBit b))
    (by decide +kernel) p hp b h
  exact Option.some.inj ((Table.evolve_of_mem hp).symm.trans hsum)

/-- Six equal bits are not split between a word and the next one. -/
theorem not_isPrefix_of_seam (hq : q ∈ Table.standard.productions) (hpq : q.rdIn = p.rdOut)
    (hk : k ≤ 6) (hhead : List.replicate k b <:+ p.word.lineBits) :
    ¬ List.replicate (6 - k) b <+: q.word.lineBits := by
  intro htail
  have hlast := lt_four_of_isSuffix_word hp hhead
  have hfirst := lt_four_of_isPrefix_word hq htail
  obtain rfl : k = 3 := by omega
  rw [rdOut_of_isSuffix_word hp hhead, rdIn_of_isPrefix_word hq htail] at hpq
  cases b <;> cases hpq

end Words

/-! ### Lines -/

/-- A standard line has no six equal bits in a row. -/
theorem Table.Sends.not_isInfix {d e : Disparity} {ss : List Symbol} {ws : List Codeword}
    (h : Table.standard.Sends d ss ws e) (b : Bool) :
    ¬ List.replicate 6 b <:+: serialize ws := by
  intro hrun
  obtain ⟨rest, hpre, hsuf⟩ := List.infix_iff_prefix_suffix.1 hrun
  rw [List.suffix_iff_eq_drop.1 hsuf] at hpre
  obtain ⟨p, hp, -, hword | ⟨hlong, hhead, q, hq, hpq, htail⟩⟩ :=
    h.exists_of_isPrefix_drop (by simp) (by simp) hpre
  · exact not_isInfix_word hp (hword.isInfix.trans (List.drop_suffix _ _).isInfix)
  · rw [List.length_replicate] at hlong
    have hk := Nat.le_of_lt hlong
    rw [List.take_replicate, min_eq_left hk] at hhead
    rw [List.drop_replicate] at htail
    exact not_isPrefix_of_seam hp hq hpq hk (hhead ▸ List.drop_suffix _ _) htail

/-- **Bounded run length**: the line that carries any symbols of the standard, from any
disparity, has no six equal bits in a row. -/
theorem not_isInfix_serialize_standard (d : Disparity) (ss : List Symbol)
    (hs : ∀ s ∈ ss, (Table.standard.get? s).isSome) :
    ∃ ws tx, (Encoder.mk .standard d).encodeAll ss = (.ok ws, tx) ∧
      ∀ b, ¬ List.replicate 6 b <:+: serialize ws := by
  obtain ⟨ws, e, h, hsent⟩ := Encoder.exists_sends_standard hs d
  exact ⟨ws, _, hsent, h.not_isInfix⟩

/-- Five equal bits are met in every comma, and a `K28.7` does not make them six. -/
theorem not_isInfix_serialize_standard_k28 :
    (∀ s ∈ [.k28 5, .k28 7], (Table.standard.get? s).isSome) ∧ ∃ ws tx,
      (Encoder.mk .standard .negative).encodeAll [.k28 5, .k28 7] = (.ok ws, tx) ∧
        List.replicate 5 true <:+: serialize ws ∧ ∀ b, ¬ List.replicate 6 b <:+: serialize ws := by
  have hs : ∀ s ∈ [.k28 5, .k28 7], (Table.standard.get? s).isSome := by
    simp only [Table.isSome_get?_standard]
    decide
  obtain ⟨ws, tx, hsent, hshort⟩ := not_isInfix_serialize_standard .negative _ hs
  obtain ⟨hsends, -⟩ := Encoder.encodeAll_eq_ok_iff.1 hsent
  refine ⟨hs, ws, tx, hsent, ?_, hshort⟩
  cases hsends with
  | cons hp _ =>
    cases Table.production_inj hp Codec.comma_mem_standard rfl rfl
    refine List.IsInfix.trans ?_ (List.prefix_append _ _).isInfix
    decide

end LineCode
