import LineCode.Text.Blank
import Mathlib.Data.List.TakeWhile

/-!
# Normal texts

A text is normalized by taking away the blanks at its ends and making its letters `A` to `Z`
small. What is left is found by cutting the text into blanks, a middle that neither begins
nor ends with a blank, and blanks (`normalize_eq_iff`), and there is one way only to do so. It
has no capital letters any more. The length of a text is the number of bytes of its string.
-/

namespace LineCode.Text

variable {c : Char} {front back core cs t : List Char} {s : String}

/-! ### Trimming -/

/-- Neither the first character nor the last one is a blank. -/
structure NoBlankEnds (core : List Char) : Prop where
  head : ∀ c, core.head? = some c → isBlank c = false
  last : ∀ c, core.getLast? = some c → isBlank c = false

/-- What does not begin with a blank stays as it is. -/
theorem dropWhile_isBlank_eq_self (h : ∀ c, cs.head? = some c → isBlank c = false) :
    cs.dropWhile isBlank = cs := by
  cases cs with
  | nil => rfl
  | cons c cs => exact List.dropWhile_cons_of_neg (by simp [h c rfl])

/-- A text is cut behind its first blanks. -/
theorem exists_dropWhile_isBlank (cs : List Char) : ∃ front,
    cs = front ++ cs.dropWhile isBlank ∧ (∀ c ∈ front, isBlank c = true) ∧
      ∀ c, (cs.dropWhile isBlank).head? = some c → isBlank c = false := by
  refine ⟨cs.takeWhile isBlank, List.takeWhile_append_dropWhile.symm,
    fun c hc => List.mem_takeWhile_imp hc, fun c hc => ?_⟩
  have h := List.head?_dropWhile_not isBlank cs
  rw [hc] at h
  exact h

/-- Blanks at both ends are taken away, and nothing else. -/
theorem trim_append (hfront : ∀ c ∈ front, isBlank c = true) (hback : ∀ c ∈ back, isBlank c = true)
    (hcore : NoBlankEnds core) : trim (front ++ core ++ back) = core := by
  have hreverse : ∀ c ∈ back.reverse, isBlank c = true := by simpa using hback
  unfold trim
  rw [List.append_assoc, List.dropWhile_append_of_pos hfront]
  cases core with
  | nil =>
    rw [List.nil_append, List.dropWhile_eq_nil_iff.2 hback]
    rfl
  | cons c core =>
    have hlast : ((c :: core).reverse).dropWhile isBlank = (c :: core).reverse := by
      refine dropWhile_isBlank_eq_self fun c' hc' => hcore.last c' ?_
      rwa [List.head?_reverse] at hc'
    have hfirst : (c :: core ++ back).dropWhile isBlank = c :: core ++ back :=
      dropWhile_isBlank_eq_self fun c' hc' => hcore.head c' hc'
    rw [hfirst, List.reverse_append, List.dropWhile_append_of_pos hreverse, hlast,
      List.reverse_reverse]

/-- Every text is blanks, what is left of it, and blanks. -/
theorem exists_trim (cs : List Char) : ∃ front back, cs = front ++ trim cs ++ back ∧
    (∀ c ∈ front, isBlank c = true) ∧ (∀ c ∈ back, isBlank c = true) ∧ NoBlankEnds (trim cs) := by
  obtain ⟨front, hcs, hfront, hhead⟩ := exists_dropWhile_isBlank cs
  obtain ⟨back, hrest, hback, hlast⟩ := exists_dropWhile_isBlank (cs.dropWhile isBlank).reverse
  have hcut : cs.dropWhile isBlank = trim cs ++ back.reverse := by
    rw [trim, ← List.reverse_append, ← hrest, List.reverse_reverse]
  refine ⟨front, back.reverse, ?_, hfront, by simpa using hback, fun c hc => ?_, fun c hc => ?_⟩
  · rw [List.append_assoc, ← hcut, ← hcs]
  · apply hhead
    rw [hcut, List.head?_append, hc]
    rfl
  · apply hlast
    rwa [trim, List.getLast?_reverse] at hc

/-! ### Small letters -/

/-- The letters `A` to `Z` are thirty-two places before the small ones. -/
theorem toNat_toLower (c : Char) : c.toLower.toNat =
    if 65 ≤ c.toNat ∧ c.toNat ≤ 90 then c.toNat + 32 else c.toNat := by
  unfold Char.toLower
  split
  · rename_i h
    have hlow : 65 ≤ c.toNat := h.1
    have hhigh : c.toNat ≤ 90 := h.2
    rw [if_pos ⟨hlow, hhigh⟩]
    have hadd : (c.val + 32).toNat = (c.toNat + 32) % 4294967296 := UInt32.toNat_add c.val 32
    exact hadd.trans (Nat.mod_eq_of_lt (by omega))
  · rename_i h
    exact (if_neg h).symm

theorem isUpper_toLower (c : Char) : c.toLower.isUpper = false := by
  refine decide_eq_false fun h => ?_
  have hlow : 65 ≤ c.toLower.toNat := h.1
  have hhigh : c.toLower.toNat ≤ 90 := h.2
  have hsmall := toNat_toLower c
  split at hsmall <;> omega

/-- A letter is no blank, whether it is small or not. -/
theorem isBlank_toLower (c : Char) : isBlank c.toLower = isBlank c := by
  unfold isBlank
  rw [toNat_toLower]
  split
  · rw [Bool.eq_iff_iff]
    simp only [Bool.or_eq_true, Bool.and_eq_true, decide_eq_true_eq]
    omega
  · rfl

/-- `t` is the middle of a text, between blanks, with its letters `A` to `Z` made small. -/
def NormalOf (cs t : List Char) : Prop :=
  ∃ front core back, cs = front ++ core ++ back ∧ (∀ c ∈ front, isBlank c = true) ∧
    (∀ c ∈ back, isBlank c = true) ∧ NoBlankEnds core ∧ t = core.map Char.toLower

theorem normalize_eq_iff : normalize s = t ↔ NormalOf s.toList t := by
  constructor
  · rintro rfl
    obtain ⟨front, back, hcs, hfront, hback, hends⟩ := exists_trim s.toList
    exact ⟨front, _, back, hcs, hfront, hback, hends, rfl⟩
  · rintro ⟨front, core, back, hcs, hfront, hback, hends, rfl⟩
    rw [normalize, hcs, trim_append hfront hback hends]

theorem isUpper_of_mem_normalize (h : c ∈ normalize s) : c.isUpper = false := by
  obtain ⟨c', -, rfl⟩ := List.mem_map.1 h
  exact isUpper_toLower c'

/-- A text is `printed` in letters of any size, with blanks around it. -/
def Variant (printed text : String) : Prop :=
  ∃ front cs back, text.toList = front ++ cs ++ back ∧ (∀ c ∈ front, isBlank c = true) ∧
    (∀ c ∈ back, isBlank c = true) ∧ cs.map Char.toLower = printed.toList.map Char.toLower

/-- The variants of a text without blanks are normalized to the text in small letters. -/
theorem normalize_of_variant {printed : String} (h : Variant printed s)
    (hprinted : ∀ c ∈ printed.toList, isBlank c = false) :
    normalize s = printed.toList.map Char.toLower := by
  obtain ⟨front, cs, back, hs, hfront, hback, hcs⟩ := h
  have hclear : ∀ c ∈ cs, isBlank c = false := by
    intro c hc
    have hlower : c.toLower ∈ printed.toList.map Char.toLower := hcs ▸ List.mem_map_of_mem hc
    obtain ⟨c', hc', heq⟩ := List.mem_map.1 hlower
    rw [← isBlank_toLower, ← heq, isBlank_toLower]
    exact hprinted c' hc'
  have hends : NoBlankEnds cs :=
    ⟨fun c hc => hclear c (List.mem_of_head? hc), fun c hc => hclear c (List.mem_of_getLast? hc)⟩
  exact normalize_eq_iff.2 ⟨front, cs, back, hs, hfront, hback, hends, hcs.symm⟩

/-! ### Lengths -/

/-- The length of a text is the size of its string in UTF-8. -/
theorem byteLength_eq (cs : List Char) : byteLength cs = (String.ofList cs).utf8ByteSize := by
  induction cs with
  | nil => rfl
  | cons c cs ih =>
    have hcons : String.ofList (c :: cs) = String.singleton c ++ String.ofList cs := by
      rw [← String.toList_inj]
      simp
    rw [hcons, String.utf8ByteSize_append, String.utf8ByteSize_singleton, ← ih]
    rfl

/-- In ASCII it is the number of characters. -/
theorem utf8ByteSize_ofList_of_ascii (h : ∀ c ∈ cs, c.toNat < 128) :
    (String.ofList cs).utf8ByteSize = cs.length := by
  rw [← byteLength_eq]
  induction cs with
  | nil => rfl
  | cons c cs ih =>
    have hone : c.utf8Size = 1 :=
      Char.utf8Size_eq_one_iff.2 (Nat.le_of_lt_succ (h c List.mem_cons_self))
    have hrest := ih fun c' hc' => h c' (List.mem_cons_of_mem c hc')
    rw [byteLength, List.foldr_cons, hone, List.length_cons, Nat.add_comm]
    exact congrArg (· + 1) hrest

end LineCode.Text
