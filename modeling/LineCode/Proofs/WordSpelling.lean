import LineCode.Proofs.NumberForms
import LineCode.Proofs.StoredWords

/-!
# Spellings of code words

A text spells a code word when it spells, once it is normalized, the number of the word's
stored bits (`Codeword.ofText_eq_ok_iff`). A number that is no code word is refused, and never
cut down to one. What is printed of a word, in its ten digits or in hexadecimal, is read as
that word again (`wordSpelling_exact`).
-/

namespace LineCode

open Text (Digits normalize)

/-! ### Code words -/

namespace Codeword

variable {text : String} {w : Codeword} {n : Nat}

/-- A text for a word has ten bits or three hexadecimal digits. -/
theorem form_wordForm (t : List Char) : Form 10 3 t (wordForm t).1 (wordForm t).2 := by
  unfold wordForm
  simp only [Text.byteLength_eq]
  split
  · exact .markedBinary ‹_›
  · exact .markedHex ‹_›
  · exact .hex ‹_›
  · exact .binary ‹_›
  · exact .decimal ‹_› ‹_› ‹_› ‹_›

/-- What reading a word can come to: the digits are no numeral, or one of a number that is too
large, or the numeral of a word. -/
theorem ofText_cases (text : String) {base : Nat} {digits : List Char}
    (hform : wordForm (normalize text) = (base, digits)) :
    (∃ f, Text.readNumeral base spellingBound digits = .error f ∧
      ofText text = .error ⟨text, .numeral f⟩) ∨
    (∃ n, Text.readNumeral base spellingBound digits = .ok n ∧ count ≤ n ∧
      ofText text = .error ⟨text, .wordTooWide⟩) ∨
    ∃ w : Codeword, Text.readNumeral base spellingBound digits = .ok w.toNat ∧
      ofText text = .ok w := by
  unfold ofText
  rw [hform]
  dsimp only
  cases Text.readNumeral base spellingBound digits with
  | error f => exact .inl ⟨f, rfl, rfl⟩
  | ok n =>
    dsimp only
    cases hw : ofNat? n with
    | none => exact .inr (.inl ⟨n, rfl, ofNat?_eq_none_iff.1 hw, rfl⟩)
    | some w =>
      obtain rfl := ofNat?_eq_some_iff.1 hw
      exact .inr (.inr ⟨w, rfl, rfl⟩)

/-- A word is read from the texts that spell the number of its stored bits. -/
theorem ofText_eq_ok_iff : ofText text = .ok w ↔ Spells 10 3 (normalize text) w.toNat := by
  have hbound : w.toNat < spellingBound := w.toNat_lt.trans (by decide)
  have hform := form_wordForm (normalize text)
  generalize hparts : wordForm (normalize text) = parts at hform
  obtain ⟨base, digits⟩ := parts
  rw [← and_iff_left (a := Spells 10 3 (normalize text) w.toNat) hbound,
    ← hform.readNumeral_eq_ok_iff (by decide)]
  obtain ⟨f, hread, htext⟩ | ⟨n, hread, hn, htext⟩ | ⟨v, hread, htext⟩ := ofText_cases text hparts
  · rw [hread, htext]
    simp
  · rw [hread, htext, Except.ok.injEq]
    refine iff_of_false (by simp) fun h => ?_
    exact absurd w.toNat_lt (Nat.not_lt.2 (h ▸ hn))
  · rw [hread, htext, Except.ok.injEq, Except.ok.injEq, toNat_inj]

/-- Three digits are hexadecimal ones. -/
example : (ofText "100").toOption = some (ofNat 0x100) := by decide

/-- A refusal says which text has been refused. -/
theorem text_of_ofText_eq_error {f : SpellingFault} (h : ofText text = .error f) :
    f.text = text := by
  obtain ⟨_, -, htext⟩ | ⟨_, -, -, htext⟩ | ⟨_, -, htext⟩ := ofText_cases text rfl <;>
    rw [htext] at h <;> cases h <;> rfl

/-- Texts that spell no number of a word are refused. -/
theorem exists_ofText_eq_error_iff : (∃ cause, ofText text = .error ⟨text, cause⟩) ↔
    ∀ n < count, ¬ Spells 10 3 (normalize text) n := by
  constructor
  · rintro ⟨cause, h⟩ n hn hspells
    have hw : (ofNat n).toNat = n := by rw [toNat_ofNat, Nat.mod_eq_of_lt hn]
    rw [ofText_eq_ok_iff.2 (hw.symm ▸ hspells)] at h
    cases h
  · intro h
    cases hf : ofText text with
    | error f => exact ⟨f.cause, by rw [← text_of_ofText_eq_error hf]⟩
    | ok w => exact absurd (ofText_eq_ok_iff.1 hf) (h w.toNat w.toNat_lt)

end Codeword

/-- The sixteen bits of a stored word are the number that is spelled, too. -/
theorem StoredWord.ofText_eq_ok_iff {text : String} {v : StoredWord} : ofText text = .ok v ↔
    Spells 10 3 (normalize text) v.bits.toNat ∧ v.bits.toNat < Codeword.count := by
  rw [ofText_eq]
  constructor
  · intro h
    cases hw : Codeword.ofText text with
    | error f =>
      rw [hw] at h
      cases h
    | ok w =>
      rw [hw] at h
      cases h
      rw [toNat_ofCodeword]
      exact ⟨Codeword.ofText_eq_ok_iff.1 hw, w.toNat_lt⟩
  · rintro ⟨hspells, hrange⟩
    have hlow : v.low.toNat = v.bits.toNat := by
      rw [← toNat_ofCodeword, InRange.ofCodeword_low hrange]
    rw [Codeword.ofText_eq_ok_iff.2 (hlow.symm ▸ hspells)]
    exact congrArg Except.ok (InRange.ofCodeword_low hrange)

/-! ### Printed words -/

namespace Codeword

variable {text : String} {w : Codeword}

/-- The low bits of a number, as digits, are the number without its high bits. -/
theorem ofDigits_testBit (n k : Nat) :
    Nat.ofDigits 2 ((List.range k).map fun i => (n.testBit i).toNat) = n % 2 ^ k := by
  induction k with
  | zero => simp [Nat.mod_one]
  | succ k ih =>
    rw [List.range_succ, List.map_append, Nat.ofDigits_append, ih, List.map_singleton,
      Nat.ofDigits_singleton, List.length_map, List.length_range, Nat.toNat_testBit,
      ← Nat.mod_pow_succ]

/-- The ten digits of a word are those of its stored bits. -/
theorem digits_text (w : Codeword) : Digits 2 w.text.toList w.toNat := by
  have hdigit : ∀ b : Bool, digit b = Nat.digitChar b.toNat := by decide
  refine ⟨w.lineBits.reverse.map Bool.toNat, by simp [lineBits], ?_, ?_, ?_⟩
  · intro d hd
    obtain ⟨b, -, rfl⟩ := List.mem_map.1 hd
    exact b.toNat_lt
  · rw [text, String.toList_ofList, List.map_map]
    exact List.map_congr_left fun b _ => hdigit b
  · have hbits : w.lineBits.map Bool.toNat =
        (List.range 10).map fun i => (w.toNat.testBit i).toNat := by
      rw [lineBits, List.map_map]
      rfl
    rw [← List.map_reverse, List.reverse_reverse, hbits, ofDigits_testBit]
    exact (Nat.mod_eq_of_lt w.toNat_lt).symm

/-- A word is read from its ten digits. -/
theorem ofText_text (h : Text.Variant w.text text) : ofText text = .ok w := by
  have hplain : ∀ c ∈ w.text.toList, Text.Plain c := fun c hc =>
    (digits_text w).plain (by decide) hc
  have hsize : (String.ofList w.text.toList).utf8ByteSize = 10 := by
    rw [Text.utf8ByteSize_ofList_of_ascii fun c hc => (hplain c hc).ascii]
    simp [Codeword.text]
  rw [ofText_eq_ok_iff, Text.normalize_of_plain h hplain]
  exact ⟨2, _, .binary hsize, .inl (digits_text w)⟩

/-- Filled up with zeros, the hexadecimal digits of a word are three. -/
theorem exists_hexFilled (w : Codeword) : ∃ digits, digits.length = 3 ∧
    Digits 16 digits w.toNat ∧ (Text.hexFilled 3 w.toNat).toList = '0' :: 'x' :: digits := by
  have hlength : (Nat.toDigits 16 w.toNat).length ≤ 3 :=
    (Nat.length_toDigits_le_iff (by decide) (by decide)).2 (w.toNat_lt.trans (by decide))
  refine ⟨_, ?_, (Text.digits_toDigits (by decide) w.toNat).replicate_zero (by decide)
    (3 - (Nat.toDigits 16 w.toNat).length), ?_⟩
  · rw [List.length_append, List.length_replicate]
    omega
  · rw [Text.hexFilled, String.toList_append, String.toList_ofList, String.toList_ofList]
    rfl

/-- A word is read from its three hexadecimal digits. -/
theorem ofText_hexFilled (h : Text.Variant (Text.hexFilled 3 w.toNat) text) :
    ofText text = .ok w := by
  obtain ⟨digits, hlength, hdigits, htext⟩ := exists_hexFilled w
  have hplain : ∀ c ∈ (Text.hexFilled 3 w.toNat).toList, Text.Plain c := by
    rw [htext]
    simp only [List.forall_mem_cons]
    exact ⟨⟨by decide, by decide, by decide⟩, ⟨by decide, by decide, by decide⟩,
      fun c hc => hdigits.plain (by decide) hc⟩
  have hsize : (String.ofList ('0' :: 'x' :: digits)).utf8ByteSize = 5 := by
    rw [Text.utf8ByteSize_ofList_of_ascii fun c hc => (hplain c (htext ▸ hc)).ascii,
      List.length_cons, List.length_cons, hlength]
  rw [ofText_eq_ok_iff, Text.normalize_of_plain h hplain, htext]
  exact ⟨16, _, .markedHex hsize, .inl hdigits⟩

end Codeword

/-! ### Reading and printing -/

/-- What is read from `text` as a code word, `t` being the text when it is normalized. -/
structure ReadsWord (text : String) (t : List Char) : Prop where
  /-- Blanks at the ends and the size of letters do not matter. -/
  normal : Text.NormalOf text.toList t
  /-- A word is read when the number of its stored bits is spelled. -/
  ok_iff : ∀ w, Codeword.ofText text = .ok w ↔ Spells 10 3 t w.toNat
  /-- The text is refused when no number below 1024 is. -/
  error_iff : (∃ cause, Codeword.ofText text = .error ⟨text, cause⟩) ↔
    ∀ n < Codeword.count, ¬ Spells 10 3 t n
  /-- Stored in sixteen bits, a word is read in the same way. -/
  stored_iff : ∀ v, StoredWord.ofText text = .ok v ↔
    Spells 10 3 t v.bits.toNat ∧ v.bits.toNat < Codeword.count

/-- What is printed of a word is read as the word, between blanks and in letters of any size: -/
structure ReadsPrinted (w : Codeword) : Prop where
  /-- its ten digits, -/
  text : ∀ text, Text.Variant w.text text → Codeword.ofText text = .ok w
  /-- and its number in three hexadecimal digits. -/
  hex : ∀ text, Text.Variant (Text.hexFilled 3 w.toNat) text → Codeword.ofText text = .ok w

/-- **Words**: of all texts those are read as a word that spell the number of its stored bits, what
is printed of the word among them. Others are refused. -/
theorem wordSpelling_exact :
    (∀ text, ReadsWord text (normalize text)) ∧ ∀ w, ReadsPrinted w := by
  refine ⟨fun text => ?_, fun w => ?_⟩
  · exact {
      normal := Text.normalize_eq_iff.1 rfl
      ok_iff := fun _ => Codeword.ofText_eq_ok_iff
      error_iff := Codeword.exists_ofText_eq_error_iff
      stored_iff := fun _ => StoredWord.ofText_eq_ok_iff }
  · exact {
      text := fun _ h => Codeword.ofText_text h
      hex := fun _ h => Codeword.ofText_hexFilled h }

end LineCode
