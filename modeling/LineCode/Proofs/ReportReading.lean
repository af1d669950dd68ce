import LineCode.Proofs.Inversion
import LineCode.Proofs.SymbolSpelling
import LineCode.Proofs.WordSpelling
import LineCode.Report

/-!
# Reports read back

A report spells symbols, words and disparities as they are read from a user. Of a listed symbol it
names the word that the symbol is sent as, and of that word, entered in the same disparity, the
symbol again (`encodeLine_of_mem`, `decodeLines_of_mem`). A symbol that is not listed and a word
that nothing is sent as have a line that says so, and no other line has these words: nothing but
what is said of the detector has an `o` in it, and that has only one
(`decodeError_infix_decodeLine_iff`).
-/

namespace LineCode

open Text (Digits)

/-! ### What is printed -/

/-- A text is a variant of itself. -/
theorem Text.variant_refl (text : String) : Text.Variant text text :=
  ⟨[], text.toList, [], by simp, by simp, by simp, rfl⟩

theorem Disparity.ofText_text (d : Disparity) : Disparity.ofText d.text = .ok d := by
  cases d <;> rfl

namespace Symbol

/-- A symbol is described by its name and the hexadecimal digits of its octet. -/
theorem describe_eq (s : Symbol) :
    s.describe = s.name ++ " (0x" ++ Text.hexDigits s.value.toNat ++ ")" := by
  have hopen : " (0x" = " (" ++ "0x" := rfl
  rw [describe, hexValue, Text.hex, hopen]
  simp only [String.append_assoc]

theorem not_mem_describe (s : Symbol) : 'o' ∉ s.describe.toList := by
  have hletter : 'o' ≠ if s.control then 'K' else 'D' := by split <;> decide
  have hdigits : ∀ n, 'o' ∉ Nat.toDigits 10 n := fun n =>
    (Text.digits_toDigits (by decide) n).not_mem (by decide) (by decide)
  have hhex : 'o' ∉ (Text.hexDigits s.value.toNat).toList :=
    (Text.digits_hexDigits _).not_mem (by decide) (by decide)
  simp only [describe_eq, String.toList_append, toList_name, List.mem_append, List.mem_cons, not_or]
  exact ⟨⟨⟨⟨hletter, hdigits _, by decide, hdigits _⟩, by decide⟩, hhex⟩, by decide⟩

end Symbol

theorem Codeword.not_mem_text (w : Codeword) : 'o' ∉ w.text.toList :=
  (digits_text w).not_mem (by decide) (by decide)

theorem Disparity.not_mem_text (d : Disparity) : 'o' ∉ d.text.toList := by
  cases d <;> decide

/-! ### Lines -/

section

variable {c : Codec} {s : Symbol} {d e : Disparity} {w : Codeword}

theorem encodeLine_of_mem (h : ⟨d, s, e, w⟩ ∈ c.table.productions) :
    encodeLine c s d = "Enc " ++ s.describe ++ ", rd=" ++ d.text ++ " -> " ++ w.text ++ ", rd=" ++
      e.text := by
  rw [encodeLine, Codec.encode_eq_ok_iff.2 h]
  simp only [String.append_assoc]

theorem encodeLine_of_get?_eq_none (h : c.table.get? s = none) :
    encodeLine c s d = "Enc " ++ s.describe ++ ", rd=" ++ d.text ++ " -> " ++ "Decode error" := by
  rw [encodeLine, Codec.encode_eq_error_iff.2 ⟨h, rfl⟩]

theorem decodeLines_some (c : Codec) (w : Codeword) (d : Disparity) :
    decodeLines c w (some d) = [decodeLine w d (c.decode w d)] := rfl

/-- A word that enters in an unknown disparity is reported for each of the two. -/
theorem decodeLines_none (c : Codec) (w : Codeword) : decodeLines c w none =
    [decodeLine w .negative (c.decode w .negative),
      decodeLine w .positive (c.decode w .positive)] := rfl

theorem decodeLine_of_mem (h : ⟨d, s, e, w⟩ ∈ c.table.productions) :
    decodeLine w d (c.decode w d) = "Dec " ++ w.text ++ ", rd=" ++ d.text ++ " -> " ++
      (s.describe ++ ", rd=" ++ e.text) ++
        if c.detector.flags d w then ", Disparity error" else "" := by
  rw [Codec.decode_of_mem h]
  rfl

theorem decodeLine_of_not_mem (h : ∀ s e, ⟨d, s, e, w⟩ ∉ c.table.productions) :
    decodeLine w d (c.decode w d) = "Dec " ++ w.text ++ ", rd=" ++ d.text ++ " -> " ++
      "Decode error" ++ if c.detector.flags d w then ", Disparity error" else "" := by
  rw [Codec.decode_eq_error_iff.2 ⟨h, rfl⟩]
  rfl

/-- The line of a listed symbol does not say that there is an error. -/
theorem get?_eq_none_iff_decodeError_suffix : c.table.get? s = none ↔
    "Decode error".toList <:+ (encodeLine c s d).toList := by
  constructor
  · intro h
    rw [encodeLine_of_get?_eq_none h, String.toList_append]
    exact List.suffix_append _ _
  · intro h
    by_contra hlisted
    obtain ⟨w, e, hmem⟩ := (Table.exists_production_iff d).2 (Option.isSome_iff_ne_none.2 hlisted)
    have ho : 'o' ∉ (encodeLine c s d).toList := by
      simp only [encodeLine_of_mem hmem, String.toList_append, List.mem_append, not_or]
      exact ⟨⟨⟨⟨⟨⟨⟨by decide, s.not_mem_describe⟩, by decide⟩, d.not_mem_text⟩, by decide⟩,
        w.not_mem_text⟩, by decide⟩, e.not_mem_text⟩
    exact ho (h.subset (by decide))

/-- The line of a word says that there is an error when no symbol is sent as it. -/
theorem decodeError_infix_decodeLine_iff :
    "Decode error".toList <:+: (decodeLine w d (c.decode w d)).toList ↔
      ∀ s x, c.encode s d = .ok x → x.word ≠ w := by
  constructor
  · rintro h s ⟨w, e⟩ hsent rfl
    have hmem := Codec.encode_eq_ok_iff.1 hsent
    -- The words are found out by the letter `o`: the detector's remark may look like the second of
    -- them, but has only one.
    have htwo : "Decode error".toList.count 'o' = 2 := by decide
    have hle := h.sublist.count_le 'o'
    have hone : ∀ b : Bool, (if b then ", Disparity error" else "").toList.count 'o' ≤ 1 := by
      decide
    have hpart : 'o' ∉ ("Dec " ++ w.text ++ ", rd=" ++ d.text ++ " -> " ++
        (s.describe ++ ", rd=" ++ e.text)).toList := by
      simp only [String.toList_append, List.mem_append, not_or]
      exact ⟨⟨⟨⟨⟨by decide, w.not_mem_text⟩, by decide⟩, d.not_mem_text⟩, by decide⟩,
        ⟨s.not_mem_describe, by decide⟩, e.not_mem_text⟩
    rw [decodeLine_of_mem hmem, String.toList_append, List.count_append,
      List.count_eq_zero.2 hpart, htwo] at hle
    have := hone (c.detector.flags d w)
    omega
  · intro h
    have hnone : ∀ s e, ⟨d, s, e, w⟩ ∉ c.table.productions := fun s e hmem =>
      h s ⟨w, e⟩ (Codec.encode_eq_ok_iff.2 hmem) rfl
    rw [decodeLine_of_not_mem hnone, String.toList_append, String.toList_append]
    exact List.infix_append _ _ _

end

/-! ### Reading back -/

/-- What a codec reports, and what is read from it. -/
structure ReportsReadably (c : Codec) : Prop where
  /-- A symbol is read from its name, whatever alphabet is asked for, -/
  name : ∀ s control, Symbol.ofText s.name control = .ok s
  /-- its octet is in hexadecimal, -/
  octet : ∀ s : Symbol, Digits 16 (Text.hexDigits s.value.toNat).toList s.value.toNat
  /-- and words and disparities are read from what is printed of them. -/
  word : ∀ w, Codeword.ofText w.text = .ok w
  disparity : ∀ d, Disparity.ofText d.text = .ok d
  /-- Of a listed symbol the word is reported that it is sent as, and of the word the symbol. -/
  listed : ∀ s d, c.table.get? s ≠ none → ∃ w e, c.encode s d = .ok ⟨w, e⟩ ∧
    encodeLine c s d = "Enc " ++ s.name ++ " (0x" ++ Text.hexDigits s.value.toNat ++ "), rd=" ++
      d.text ++ " -> " ++ w.text ++ ", rd=" ++ e.text ∧
    decodeLines c w (some d) = ["Dec " ++ w.text ++ ", rd=" ++ d.text ++ " -> " ++ s.name ++
      " (0x" ++ Text.hexDigits s.value.toNat ++ "), rd=" ++ e.text ++
        if c.detector.flags d w then ", Disparity error" else ""]
  /-- The lines of the other symbols, and of no listed one, end in an error. -/
  unlisted_iff : ∀ s d, c.table.get? s = none ↔
    "Decode error".toList <:+ (encodeLine c s d).toList
  /-- Without a disparity there are the lines for both, the negative one first. -/
  both : ∀ w, ∃ line line', decodeLines c w (some .negative) = [line] ∧
    decodeLines c w (some .positive) = [line'] ∧ decodeLines c w none = [line, line']
  /-- With one there is a line for it, which speaks of an error when no symbol is sent as the word
  from that disparity. -/
  one : ∀ w d, ∃ rest,
    decodeLines c w (some d) = ["Dec " ++ w.text ++ ", rd=" ++ d.text ++ " -> " ++ rest] ∧
      ("Decode error".toList <:+:
          ("Dec " ++ w.text ++ ", rd=" ++ d.text ++ " -> " ++ rest).toList ↔
        ∀ s x, c.encode s d = .ok x → x.word ≠ w)

/-- **Reports**: what any codec reports of a symbol or a word is read back. -/
theorem report_readable (c : Codec) : ReportsReadably c where
  name s _ := Symbol.ofText_name (Text.variant_refl s.name)
  octet s := Text.digits_hexDigits s.value.toNat
  word w := Codeword.ofText_text (Text.variant_refl w.text)
  disparity := Disparity.ofText_text
  listed := by
    intro s d h
    obtain ⟨w, e, hmem⟩ := (Table.exists_production_iff d).2 (Option.isSome_iff_ne_none.2 h)
    have hclose : "), rd=" = ")" ++ ", rd=" := rfl
    refine ⟨w, e, Codec.encode_eq_ok_iff.2 hmem, ?_, ?_⟩
    · rw [encodeLine_of_mem hmem, s.describe_eq, hclose]
      simp only [String.append_assoc]
    · rw [decodeLines_some, decodeLine_of_mem hmem, s.describe_eq, hclose]
      simp only [String.append_assoc]
  unlisted_iff _ _ := get?_eq_none_iff_decodeError_suffix
  both w := ⟨_, _, decodeLines_some c w .negative, decodeLines_some c w .positive,
    decodeLines_none c w⟩
  one := by
    intro w d
    let rest := decodeBody (c.decode w d) ++
      if detectorFired (c.decode w d) then ", Disparity error" else ""
    have hline : decodeLine w d (c.decode w d) =
        "Dec " ++ w.text ++ ", rd=" ++ d.text ++ " -> " ++ rest := String.append_assoc ..
    refine ⟨rest, ?_, ?_⟩
    · rw [decodeLines_some, hline]
    · rw [← hline]
      exact decodeError_infix_decodeLine_iff

end LineCode
