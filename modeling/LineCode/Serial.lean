import LineCode.Codeword

/-!
# Bits on the line

Words leave a transmitter bit by bit, `a` first, and nothing marks where one ends. A
receiver finds the boundary by looking for a comma, a pattern of seven bits that starts
at the first bit of a word.
-/

namespace LineCode

/-- The bits of words, in line order. -/
def serialize (ws : List Codeword) : List Bool := ws.flatMap Codeword.lineBits

/-- The number of bits of a comma. -/
def commaLength : Nat := 7

/-- Bits in line order as a word, the first in bit 0. -/
def pattern : List Bool → BitVec 16
  | [] => 0
  | b :: bs => pattern bs <<< 1 ||| (if b then 1 else 0)

/-- Whether a comma starts with the first of some bits. -/
def startsWithComma (bits : List Bool) : Bool :=
  let window := bits.take commaLength
  window.length = commaLength && Codeword.isComma (pattern window)

/-- The offset of the first comma, for bits that start at offset `i`. -/
def findCommaFrom (i : Nat) : List Bool → Option Nat
  | [] => none
  | b :: bs => if startsWithComma (b :: bs) then some i else findCommaFrom (i + 1) bs

/-- The offset of the first comma. -/
def findComma (bits : List Bool) : Option Nat := findCommaFrom 0 bits

/-- Of bits as a word, the first is the lowest. -/
theorem getLsbD_pattern (bits : List Bool) (i : Nat) :
    (pattern bits).getLsbD i = (decide (i < 16) && bits.getD i false) := by
  induction bits generalizing i with
  | nil => simp [pattern]
  | cons b bs ih =>
    cases i with
    | zero => cases b <;> simp [pattern]
    | succ i =>
      have hone : ∀ b : Bool, (if b then 1 else 0 : BitVec 16).getLsbD (i + 1) = false := by
        intro b
        cases b <;> simp
      rw [pattern, BitVec.getLsbD_or, hone, Bool.or_false, BitVec.getLsbD_shiftLeft,
        Nat.add_sub_cancel, ih, List.getD_cons_succ]
      by_cases h : i + 1 < 16
      · simp [h, show i < 16 by omega]
      · simp [h]

@[simp] theorem serialize_nil : serialize [] = [] := rfl

@[simp] theorem serialize_cons (w : Codeword) (ws : List Codeword) :
    serialize (w :: ws) = w.lineBits ++ serialize ws := rfl

theorem serialize_append (v w : List Codeword) :
    serialize (v ++ w) = serialize v ++ serialize w := by simp [serialize]

theorem length_serialize (ws : List Codeword) : (serialize ws).length = 10 * ws.length := by
  induction ws with
  | nil => rfl
  | cons w ws ih => simp [ih]; omega

/-- A line from word `k` on carries the words from `k` on. -/
theorem drop_serialize_mul (ws : List Codeword) (k : Nat) :
    (serialize ws).drop (10 * k) = serialize (ws.drop k) := by
  induction ws generalizing k with
  | nil => simp
  | cons w ws ih =>
    cases k with
    | zero => rfl
    | succ k =>
      rw [serialize_cons, List.drop_succ_cons, ← ih,
        show 10 * (k + 1) = w.lineBits.length + 10 * k by rw [Codeword.length_lineBits]; omega,
        List.drop_length_add_append]

/-- At a boundary the line shows the word that starts there, then the words after it. -/
theorem drop_serialize_of_getElem? {ws : List Codeword} {k : Nat} {w : Codeword}
    (h : ws[k]? = some w) :
    (serialize ws).drop (10 * k) = w.lineBits ++ serialize (ws.drop (k + 1)) := by
  rw [drop_serialize_mul, List.drop_eq_getElem?_toList_append, h]
  rfl

/-- Bit `i` of word `k` is at place `10 * k + i` of the line. -/
theorem getElem?_serialize (ws : List Codeword) (k : Nat) {i : Nat} (h : i < 10) :
    (serialize ws)[10 * k + i]? = ws[k]?.map (·.bit i) := by
  rw [← List.getElem?_drop]
  cases hw : ws[k]? with
  | none =>
    rw [drop_serialize_mul, List.drop_eq_nil_of_le (List.getElem?_eq_none_iff.1 hw)]
    simp
  | some w =>
    rw [drop_serialize_of_getElem? hw, List.getElem?_append_left (by simpa using h),
      w.getElem?_lineBits h, Option.map_some]

end LineCode
