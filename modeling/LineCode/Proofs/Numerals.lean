import LineCode.Text.Hex
import LineCode.Text.Numeral
import Mathlib.Data.Nat.Digits.Defs
import Mathlib.Data.String.Basic
import Mathlib.Tactic.IntervalCases
import Mathlib.Tactic.Ring

/-!
# Numerals

A numeral is an optional plus sign and then one or more digits, the highest first
(`Numeral`). A text without capital letters is read as a number when it is the numeral of
that number and the number is below the bound (`readNumeral_eq_ok_iff`). The value read so far
never falls, so a number that is too large is refused however long its numeral is, and
leading zeros do not matter. Every number is written as a numeral (`digits_toDigits`).
-/

namespace LineCode.Text

variable {base bound d m n : Nat} {c : Char} {cs : List Char} {ds : List Nat}

/-! ### Digits -/

/-- The digits from ten on are small letters. -/
theorem toNat_digitChar_of_ten_le (h : 10 ≤ d) (h' : d < 16) : d.digitChar.toNat = 87 + d := by
  interval_cases d <;> rfl

theorem digitValue?_digitChar (hbase : base ≤ 16) (h : d < base) :
    digitValue? base d.digitChar = some d := by
  have hvalue : ∀ e < 16, digitValue? 16 e.digitChar = some e := by decide
  have hd := Option.filter_eq_some_iff.1 (hvalue d (by omega))
  exact Option.filter_eq_some_iff.2 ⟨hd.1, decide_eq_true h⟩

/-- A character that is no capital letter is the digit of its value. -/
theorem digitValue?_eq_some_iff (hbase : base ≤ 16) (hc : c.isUpper = false) :
    digitValue? base c = some d ↔ d < base ∧ c = d.digitChar := by
  constructor
  · intro h
    obtain ⟨hvalue, hlt⟩ := Option.filter_eq_some_iff.1 h
    have hd : d < base := of_decide_eq_true hlt
    refine ⟨hd, Char.toNat_inj.1 ?_⟩
    split at hvalue
    · rename_i hdigit
      have hlow : 48 ≤ c.toNat := hdigit.1
      have hhigh : c.toNat ≤ 57 := hdigit.2
      have hval : c.toNat - 48 = d := Option.some.inj hvalue
      rw [Nat.toNat_digitChar_of_lt_ten (by omega)]
      omega
    · split at hvalue
      · rename_i hletter
        have hlow : 97 ≤ c.toNat := hletter.1
        have hval : c.toNat - 97 + 10 = d := Option.some.inj hvalue
        rw [toNat_digitChar_of_ten_le (by omega) (by omega)]
        omega
      · split at hvalue
        · rename_i hcapital
          have hupper : c.isUpper = true := decide_eq_true hcapital
          rw [hc] at hupper
          cases hupper
        · cases hvalue
  · rintro ⟨hd, rfl⟩
    exact digitValue?_digitChar hbase hd

/-! ### Digits in a row -/

/-- `cs` is one or more digits of a base, the highest first, and `n` is their number. -/
def Digits (base : Nat) (cs : List Char) (n : Nat) : Prop :=
  ∃ ds : List Nat, ds ≠ [] ∧ (∀ d ∈ ds, d < base) ∧ cs = ds.map Nat.digitChar ∧
    n = Nat.ofDigits base ds.reverse

/-- A digit in front counts as often as there are numbers with the digits after it. -/
theorem ofDigits_reverse_cons : Nat.ofDigits base (d :: ds).reverse =
    d * base ^ ds.length + Nat.ofDigits base ds.reverse := by
  rw [List.reverse_cons, Nat.ofDigits_append, List.length_reverse, Nat.ofDigits_singleton]
  ring

/-- Digits are read on from a number `n` as `n` followed by them, if that is below the bound. It is
no less than what has been read before, so it is enough to look at the end. -/
theorem readDigits_eq_ok_iff (hpos : 0 < base) (hbase : base ≤ 16)
    (hcs : ∀ c ∈ cs, c.isUpper = false) : readDigits base bound n cs = .ok m ↔
      ∃ ds : List Nat, (∀ d ∈ ds, d < base) ∧ cs = ds.map Nat.digitChar ∧
        m = n * base ^ ds.length + Nat.ofDigits base ds.reverse ∧ (ds ≠ [] → m < bound) := by
  induction cs generalizing n with
  | nil =>
    rw [readDigits, Except.ok.injEq]
    constructor
    · rintro rfl
      exact ⟨[], by simp, rfl, by simp, fun h => absurd rfl h⟩
    · rintro ⟨ds, -, hmap, rfl, -⟩
      obtain rfl := List.map_eq_nil_iff.1 hmap.symm
      simp
  | cons c cs ih =>
    have hread := fun k => ih (n := k) fun c' hc' => hcs c' (List.mem_cons_of_mem c hc')
    have hvalue : ∀ {d}, digitValue? base c = some d ↔ d < base ∧ c = d.digitChar :=
      digitValue?_eq_some_iff hbase (hcs c List.mem_cons_self)
    have hvalue_next : ∀ d (ds : List Nat), n * base ^ (d :: ds).length +
        Nat.ofDigits base (d :: ds).reverse =
          (n * base + d) * base ^ ds.length + Nat.ofDigits base ds.reverse := by
      intro d ds
      rw [ofDigits_reverse_cons, List.length_cons]
      ring
    rw [readDigits]
    constructor
    · intro h
      split at h
      · cases h
      · rename_i d hd
        split at h
        · rename_i hlt
          obtain ⟨hdlt, rfl⟩ := hvalue.1 hd
          obtain ⟨ds, hds, rfl, hm, hbound⟩ := (hread _).1 h
          refine ⟨d :: ds, by simpa using ⟨hdlt, hds⟩, rfl, by rw [hvalue_next, hm], fun _ => ?_⟩
          by_cases hnil : ds = []
          · subst hnil
            simpa [hm] using hlt
          · exact hbound hnil
        · cases h
    · rintro ⟨_ | ⟨d, ds⟩, hds, hmap, hm, hbound⟩
      · cases hmap
      · obtain ⟨hc, htail⟩ := List.cons.inj hmap
        have hdlt : d < base := hds d List.mem_cons_self
        have hmbound : m < bound := hbound (List.cons_ne_nil d ds)
        rw [hvalue_next] at hm
        have hgrows : n * base + d ≤ m := by
          calc n * base + d ≤ (n * base + d) * base ^ ds.length :=
                Nat.le_mul_of_pos_right _ (Nat.pow_pos hpos)
            _ ≤ m := by rw [hm]; exact Nat.le_add_right _ _
        rw [hvalue.2 ⟨hdlt, hc⟩]
        dsimp only
        rw [if_pos (hgrows.trans_lt hmbound), hread]
        exact ⟨ds, fun e he => hds e (List.mem_cons_of_mem d he), htail, hm, fun _ => hmbound⟩

/-- Read from the start, digits are their number. -/
theorem readDigits_zero_eq_ok_iff (hpos : 0 < base) (hbase : base ≤ 16)
    (hcs : ∀ c ∈ cs, c.isUpper = false) (hne : cs ≠ []) :
    readDigits base bound 0 cs = .ok n ↔ Digits base cs n ∧ n < bound := by
  rw [readDigits_eq_ok_iff hpos hbase hcs]
  constructor
  · rintro ⟨ds, hds, rfl, hn, hbound⟩
    have hnil : ds ≠ [] := fun h => hne (by rw [h]; rfl)
    exact ⟨⟨ds, hnil, hds, rfl, by rw [hn, Nat.zero_mul, Nat.zero_add]⟩, hbound hnil⟩
  · rintro ⟨⟨ds, hnil, hds, rfl, hn⟩, hbound⟩
    exact ⟨ds, hds, rfl, by rw [hn, Nat.zero_mul, Nat.zero_add], fun _ => hbound⟩

/-! ### Numerals -/

/-- `cs` is digits of a base, with or without a plus sign in front, and `n` is their number. -/
def Numeral (base : Nat) (cs : List Char) (n : Nat) : Prop :=
  Digits base cs n ∨ ∃ digits, cs = '+' :: digits ∧ Digits base digits n

theorem Digits.ne_nil (h : Digits base cs n) : cs ≠ [] := by
  obtain ⟨ds, hnil, -, rfl, -⟩ := h
  simpa using hnil

/-- The characters of a row of digits are digits. -/
theorem Digits.exists_of_mem (h : Digits base cs n) (hc : c ∈ cs) :
    ∃ d < base, c = d.digitChar := by
  obtain ⟨ds, -, hds, rfl, -⟩ := h
  obtain ⟨d, hd, rfl⟩ := List.mem_map.1 hc
  exact ⟨d, hds d hd, rfl⟩

/-- A character that is none of the sixteen digits is in no row of digits. -/
theorem Digits.not_mem (h : Digits base cs n) (hbase : base ≤ 16)
    (hc : ∀ d < 16, c ≠ d.digitChar) : c ∉ cs := by
  intro hmem
  obtain ⟨d, hd, hdigit⟩ := h.exists_of_mem hmem
  exact hc d (by omega) hdigit

theorem not_digits_plus (hbase : base ≤ 16) : ¬ Digits base ('+' :: cs) n :=
  fun h => h.not_mem hbase (by decide) List.mem_cons_self

/-- What is read are the numerals of numbers below the bound. -/
theorem readNumeral_eq_ok_iff (hpos : 0 < base) (hbase : base ≤ 16)
    (hcs : ∀ c ∈ cs, c.isUpper = false) :
    readNumeral base bound cs = .ok n ↔ Numeral base cs n ∧ n < bound := by
  unfold readNumeral Numeral
  split
  · refine iff_of_false (by simp) ?_
    rintro ⟨h | ⟨digits, hnil, -⟩, -⟩
    · exact h.ne_nil rfl
    · cases hnil
  · refine iff_of_false (by simp) ?_
    rintro ⟨h | ⟨digits, heq, h⟩, -⟩
    · exact not_digits_plus hbase h
    · obtain ⟨-, rfl⟩ := List.cons.inj heq
      exact h.ne_nil rfl
  · rename_i digits hne
    have hdigits : ∀ c ∈ digits, c.isUpper = false := fun c hc => hcs c (List.mem_cons_of_mem _ hc)
    rw [readDigits_zero_eq_ok_iff hpos hbase hdigits hne]
    refine and_congr_left fun _ => ⟨fun h => .inr ⟨digits, rfl, h⟩, ?_⟩
    rintro (h | ⟨digits', heq, h⟩)
    · exact absurd h (not_digits_plus hbase)
    · obtain ⟨-, rfl⟩ := List.cons.inj heq
      exact h
  · rename_i hnil _ hplus
    rw [readDigits_zero_eq_ok_iff hpos hbase hcs hnil]
    refine and_congr_left fun _ => ⟨.inl, ?_⟩
    rintro (h | ⟨digits, heq, -⟩)
    · exact h
    · exact absurd heq (hplus digits)

/-! ### Writing numbers -/

/-- Every number is written in its digits. -/
theorem digits_toDigits (hbase : 1 < base) (n : Nat) : Digits base (Nat.toDigits base n) n := by
  induction n using Nat.strongRecOn with
  | ind n ih =>
    by_cases hn : n < base
    · exact ⟨[n], by simp, by simpa using hn, Nat.toDigits_of_lt_base hn, by simp⟩
    · have hle : base ≤ n := Nat.le_of_not_lt hn
      have hdiv : n / base < n := Nat.div_lt_self (by omega) hbase
      obtain ⟨ds, hnil, hds, hmap, hvalue⟩ := ih (n / base) hdiv
      refine ⟨ds ++ [n % base], by simp, ?_, ?_, ?_⟩
      · have hmod : n % base < base := Nat.mod_lt n (by omega)
        simpa [or_imp, forall_and] using ⟨hds, hmod⟩
      · rw [Nat.toDigits_of_base_le hbase hle, hmap, List.map_append]
        rfl
      · rw [List.reverse_append, List.reverse_singleton, List.singleton_append, Nat.ofDigits_cons,
          ← hvalue, Nat.mod_add_div]

theorem digits_hexDigits (n : Nat) : Digits 16 (hexDigits n).toList n := by
  rw [hexDigits, String.toList_ofList]
  exact digits_toDigits (by decide) n

/-- Zeros in front make no difference. -/
theorem Digits.replicate_zero (h : Digits base cs n) (hpos : 0 < base) (k : Nat) :
    Digits base (List.replicate k '0' ++ cs) n := by
  induction k with
  | zero => exact h
  | succ k ih =>
    obtain ⟨ds, hnil, hds, hmap, hvalue⟩ := ih
    refine ⟨0 :: ds, by simp, by simpa using ⟨hpos, hds⟩, ?_, ?_⟩
    · rw [List.replicate_succ, List.cons_append, hmap]
      rfl
    · rw [ofDigits_reverse_cons, Nat.zero_mul, Nat.zero_add, hvalue]

end LineCode.Text
