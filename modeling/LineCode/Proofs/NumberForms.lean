import LineCode.Proofs.NormalText
import LineCode.Proofs.Numerals
import LineCode.Spelling

/-!
# Forms of numbers

A text for a number has one of five forms, told apart by its size, or by its size and a mark
(`Form`). The form says the base and which characters are the digits, and the text spells the
number whose numeral these are (`Spells`). Digits are plain characters: they take one byte,
and no blank or capital letter is among them.
-/

namespace LineCode

open Text (Digits Numeral isBlank normalize)

/-! ### Forms -/

/-- The form of a text for a number of `bits` bits or `hexes` hexadecimal digits: the base and the
digits, by the size of the text in UTF-8. A mark takes two bytes, and a text of none of the four
sizes is decimal. -/
inductive Form (bits hexes : Nat) : List Char → Nat → List Char → Prop
  | markedBinary {digits : List Char}
      (size_eq : (String.ofList ('0' :: 'b' :: digits)).utf8ByteSize = bits + 2) :
      Form bits hexes ('0' :: 'b' :: digits) 2 digits
  | markedHex {digits : List Char}
      (size_eq : (String.ofList ('0' :: 'x' :: digits)).utf8ByteSize = hexes + 2) :
      Form bits hexes ('0' :: 'x' :: digits) 16 digits
  | hex {t : List Char} (size_eq : (String.ofList t).utf8ByteSize = hexes) : Form bits hexes t 16 t
  | binary {t : List Char} (size_eq : (String.ofList t).utf8ByteSize = bits) : Form bits hexes t 2 t
  | decimal {t : List Char} (not_hex : (String.ofList t).utf8ByteSize ≠ hexes)
      (not_binary : (String.ofList t).utf8ByteSize ≠ bits)
      (not_markedBinary : ∀ digits, (String.ofList t).utf8ByteSize = bits + 2 →
        t ≠ '0' :: 'b' :: digits)
      (not_markedHex : ∀ digits, (String.ofList t).utf8ByteSize = hexes + 2 →
        t ≠ '0' :: 'x' :: digits) : Form bits hexes t 10 t

/-- A text spells the number whose numeral it is in its form. -/
def Spells (bits hexes : Nat) (t : List Char) (n : Nat) : Prop :=
  ∃ base digits, Form bits hexes t base digits ∧ Numeral base digits n

namespace Form

variable {bits hexes base base' bound n : Nat} {t digits digits' : List Char} {text : String}
  {c : Char}

theorem base_pos (h : Form bits hexes t base digits) : 0 < base := by
  cases h <;> decide

theorem base_le (h : Form bits hexes t base digits) : base ≤ 16 := by
  cases h <;> decide

theorem mem_of_mem (h : Form bits hexes t base digits) (hc : c ∈ digits) : c ∈ t := by
  cases h with
  | markedBinary | markedHex => exact List.mem_cons_of_mem _ (List.mem_cons_of_mem _ hc)
  | hex | binary | decimal => exact hc

/-- A text has one form, if the four sizes are different. -/
theorem unique (hsizes : [bits, hexes, bits + 2, hexes + 2].Nodup)
    (h : Form bits hexes t base digits) (h' : Form bits hexes t base' digits') :
    base = base' ∧ digits = digits' := by
  simp at hsizes
  cases h <;> cases h' <;> simp_all

/-- What is read in the form of a text are the numbers that it spells. -/
theorem readNumeral_eq_ok_iff (hsizes : [bits, hexes, bits + 2, hexes + 2].Nodup)
    (h : Form bits hexes (normalize text) base digits) :
    Text.readNumeral base bound digits = .ok n ↔
      Spells bits hexes (normalize text) n ∧ n < bound := by
  have hupper : ∀ c ∈ digits, c.isUpper = false := fun c hc =>
    Text.isUpper_of_mem_normalize (h.mem_of_mem hc)
  rw [Text.readNumeral_eq_ok_iff h.base_pos h.base_le hupper]
  refine and_congr_left fun _ => ⟨fun hn => ⟨base, digits, h, hn⟩, ?_⟩
  rintro ⟨base', digits', h', hn⟩
  obtain ⟨rfl, rfl⟩ := h.unique hsizes h'
  exact hn

end Form

/-! ### Plain characters -/

/-- A character that is the same in every variant of a text, and takes one byte. -/
structure Text.Plain (c : Char) : Prop where
  ascii : c.toNat < 128
  not_blank : isBlank c = false
  toLower_eq : c.toLower = c

theorem Text.Digits.plain {base n : Nat} {cs : List Char} {c : Char} (h : Digits base cs n)
    (hbase : base ≤ 16) (hc : c ∈ cs) : Plain c := by
  have hall : ∀ d < 16, d.digitChar.toNat < 128 ∧ isBlank d.digitChar = false ∧
      d.digitChar.toLower = d.digitChar := by decide
  obtain ⟨d, hd, rfl⟩ := h.exists_of_mem hc
  obtain ⟨hascii, hblank, hlower⟩ := hall d (by omega)
  exact ⟨hascii, hblank, hlower⟩

/-- Variants of a text of plain characters are normalized to the text. -/
theorem Text.normalize_of_plain {printed text : String} (h : Variant printed text)
    (hplain : ∀ c ∈ printed.toList, Plain c) : normalize text = printed.toList := by
  rw [normalize_of_variant h fun c hc => (hplain c hc).not_blank]
  exact (List.map_congr_left fun c hc => (hplain c hc).toLower_eq).trans (List.map_id _)

end LineCode
