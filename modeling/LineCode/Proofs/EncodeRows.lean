import LineCode.LookupTable.Encode
import LineCode.Proofs.Lookup
import LineCode.Proofs.MaskedFields

/-!
# The rows of the encode table

The encode table is the array of the encoder in another form. Both are filled from the
same productions in the same order, so each row holds what the array holds at its address
(`HoldsEncodings.addAll`): the word and the exit disparity (`Codec.row_of_encode_ok`), or
nothing at all (`Codec.row_of_encode_error`). The row tells encodings apart, so checked
against any codec it departs from it exactly where the two codecs send different things
(`encodeDiscrepancy_eq_none_iff`).
-/

namespace LineCode

/-! ### Addresses -/

theorem encodeAddress_ofAddress (a : Fin 1024) :
    encodeAddress (Symbol.ofAddress a).1 (Symbol.ofAddress a).2 = a := by
  revert a
  decide +kernel

theorem ofAddress_encodeAddress (s : Symbol) (d : Disparity) :
    Symbol.ofAddress (encodeAddress s d) = (s, d) := by
  obtain ⟨hs, hd⟩ := encodeAddress_inj.1 (encodeAddress_ofAddress (encodeAddress s d))
  exact Prod.ext hs hd

/-! ### Filling the table -/

/-- Rows that hold, at each address, what an encoder's array holds there. -/
def HoldsEncodings (rows : Vector (Masked .u16) 1024) (forward : Vector (Option Encoded) 1024) :
    Prop :=
  ∀ a, rows.get a = (forward.get a).elim .dontCare encodeRow

namespace HoldsEncodings

variable {rows : Vector (Masked .u16) 1024} {m m' : Maps}

/-- A production enters the rows where it enters the array. -/
theorem add {p : Production} (h : HoldsEncodings rows m.forward) (hm : m.add p = .ok m') :
    HoldsEncodings (setEncodeRow rows p) m'.forward := by
  intro a
  unfold setEncodeRow
  rw [get_put, Maps.forward_of_add hm]
  by_cases ha : encodeAddress p.symbol p.rdIn = a
  · rw [if_pos ha, if_pos ha]
    rfl
  · rw [if_neg ha, if_neg ha, h a]

/-- Productions enter the rows where they enter the array, one after the other. -/
theorem addAll {ps : List Production} (h : HoldsEncodings rows m.forward)
    (hm : m.addAll ps = .ok m') : HoldsEncodings (ps.foldl setEncodeRow rows) m'.forward := by
  induction ps generalizing rows m with
  | nil => cases hm; exact h
  | cons p ps ih =>
    obtain ⟨m₁, hp, h₁⟩ := Maps.addAll_cons_eq_ok_iff.1 hm
    exact ih (h.add hp) h₁

end HoldsEncodings

namespace Codec

variable {c : Codec} {s : Symbol} {d : Disparity}

theorem holdsEncodings (c : Codec) : HoldsEncodings c.encodeTable.rows c.maps.forward := by
  refine HoldsEncodings.addAll (m := .empty) (fun a => ?_) c.maps_eq
  simp only [Maps.empty, get_replicate]
  rfl

/-- The row of a symbol that is sent holds what is sent. -/
theorem row_of_encode_ok {x : Encoded} (h : c.encode s d = .ok x) :
    c.encodeTable.rows.get (encodeAddress s d) = encodeRow x := by
  rw [c.holdsEncodings, forward_eq_some_iff.2 (encode_eq_ok_iff.1 h)]
  rfl

/-- The row of a symbol that is not sent is don't-care throughout. -/
theorem row_of_encode_error {u : Unsupported} (h : c.encode s d = .error u) :
    c.encodeTable.rows.get (encodeAddress s d) = .dontCare := by
  rw [c.holdsEncodings, forward_eq_none_iff.2 (encode_eq_error_iff.1 h).1]
  rfl

end Codec

/-! ### Reading a row -/

/-- A row has the word in bits 0 to 9, the exit disparity in bit 10, and nothing above. -/
theorem bit_encodeRow (x : Encoded) (i : Nat) : (encodeRow x).bit i =
    if i < 10 then some (x.word.bit i) else if i = 10 then some x.rd.isPositive else none := by
  have hfit : 0 + 10 ≤ IntFormat.width .u16 := by decide
  have hword := Masked.bit_setField (m := .dontCare) hfit x.word.wide i
  unfold encodeRow
  rw [Masked.bit_setBit (by decide), hword, Masked.bit_dontCare]
  simp only [Nat.zero_le, true_and, Nat.zero_add, Nat.sub_zero]
  by_cases hi : i < 10
  · rw [if_neg (by omega), if_pos hi, if_pos hi]
    exact congrArg some (x.word.getLsbD_wide hi)
  · rw [if_neg hi, if_neg hi]
    exact ite_congr (propext eq_comm) (fun _ => rfl) (fun _ => rfl)

theorem mask_encodeRow (x : Encoded) : (encodeRow x).mask = 0x7FF := by
  refine Masked.mask_eq (p := fun i => i < 11) (by decide) fun i _ => ?_
  rw [bit_encodeRow]
  grind

/-- The specified bits of the row that holds an encoding. -/
def Encoded.bits (x : Encoded) : BitVec 16 :=
  (BitVec.ofBool x.rd.isPositive ++ x.word.bits).setWidth 16

theorem Encoded.getLsbD_bits (x : Encoded) (i : Nat) : x.bits.getLsbD i =
    if i < 10 then x.word.bit i else decide (i = 10) && x.rd.isPositive := by
  unfold bits
  rw [BitVec.getLsbD_setWidth, BitVec.getLsbD_append]
  by_cases hi : i < 10
  · rw [if_pos hi, if_pos hi, decide_eq_true (show i < 16 by omega)]
    rfl
  · rw [if_neg hi, if_neg hi]
    by_cases hten : i = 10
    · simp [hten]
    · have hpast : i - 10 ≠ 0 := by omega
      simp [hten, hpast, BitVec.getLsbD_ofBool]

theorem Encoded.ofRow_bits (x : Encoded) : Encoded.ofRow x.bits = x := by
  obtain ⟨⟨bits⟩, rd⟩ := x
  unfold ofRow
  rw [getLsbD_bits, if_neg (by decide)]
  simp only [decide_true, Bool.true_and, Disparity.ofBit_isPositive, mk.injEq, and_true]
  refine congrArg Codeword.mk (BitVec.eq_of_getLsbD_eq fun i hi => ?_)
  rw [BitVec.getLsbD_setWidth, getLsbD_bits, if_pos hi, decide_eq_true hi]
  rfl

/-- A row is read back as the encoding that it holds. -/
theorem field?_encodeRow (x : Encoded) : (encodeRow x).field? 0 11 = some x.bits := by
  refine Masked.field?_eq_some_iff.2 ⟨fun i hi => ?_, fun i hi => ?_⟩
  · rw [Nat.zero_add, bit_encodeRow]
    refine Eq.trans ?_ (congrArg some (x.getLsbD_bits i)).symm
    by_cases hlow : i < 10
    · rw [if_pos hlow, if_pos hlow]
    · have hten : i = 10 := by omega
      simp [hten]
  · refine (x.getLsbD_bits i).trans ?_
    rw [if_neg (by omega), decide_eq_false (by omega), Bool.false_and]

/-! ### Checking a row -/

theorem field?_dontCare : (Masked.dontCare : Masked .u16).field? 0 11 = none :=
  Masked.field?_eq_none_of_bit (k := 0) (by decide) (Masked.bit_dontCare 0)

/-- A row built from one codec departs from another when the two send different things. -/
theorem encodeDiscrepancy_eq_none_iff {c c' : Codec} {s : Symbol} {d : Disparity} :
    encodeDiscrepancy c' (encodeAddress s d) (c.encodeTable.rows.get (encodeAddress s d)) = none ↔
      c.encode s d = c'.encode s d := by
  unfold encodeDiscrepancy
  rw [ofAddress_encodeAddress]
  cases h : c.encode s d with
  | error u =>
    obtain ⟨-, rfl⟩ := Codec.encode_eq_error_iff.1 h
    rw [Codec.row_of_encode_error h, field?_dontCare]
    cases h' : c'.encode s d with
    | error u' =>
      obtain ⟨-, rfl⟩ := Codec.encode_eq_error_iff.1 h'
      simp [h', Masked.dontCare]
    | ok x' => simp [h']
  | ok x =>
    rw [Codec.row_of_encode_ok h, field?_encodeRow]
    cases h' : c'.encode s d with
    | error u' => simp [h']
    | ok x' => simp [h', Encoded.ofRow_bits]

/-- The encode table of a codec passes its own check. -/
theorem checkEncode_encodeTable (c : Codec) : c.encodeTable.checkEncode c = [] := by
  refine List.filterMap_eq_nil_iff.2 fun a _ => ?_
  rw [← encodeAddress_ofAddress a, encodeDiscrepancy_eq_none_iff.2 rfl]
  rfl

end LineCode
