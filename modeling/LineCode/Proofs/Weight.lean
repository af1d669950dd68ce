import LineCode.Proofs.Reception
import LineCode.Proofs.StandardWords
import Mathlib.Algebra.Ring.Parity

/-!
# The weight of a line

Every word of a table keeps the running-disparity rule, so a transmission from `d` to `e`
carries as many more ones than zeros as the signs of `d` and `e` differ by
(`Table.Sends.sign_eq`). Words that a decoder reads without a fault are again a
transmission, though perhaps of other symbols (`Decoder.exists_sends`). A corrupted
line with another number of ones is therefore noticed (`notices_of_sum_ones_ne`): it
has a fault, or it leaves the decoder in another disparity than the encoder.
-/

namespace LineCode

/-! ### Counting ones -/

theorem excess_eq (bs : List Bool) : excess bs = 2 * (bs.count true : Int) - bs.length := by
  induction bs with
  | nil => rfl
  | cons b bs ih =>
    rw [excess, ih]
    cases b
    · simp [weight]
      omega
    · simp [weight]
      omega

theorem count_serialize (ws : List Codeword) :
    (serialize ws).count true = (ws.map Codeword.ones).sum := by
  induction ws with
  | nil => rfl
  | cons w ws ih =>
    rw [serialize_cons, List.count_append, ih]
    rfl

/-- Ones minus zeros of a line, by the ones of its words. -/
theorem excess_serialize (ws : List Codeword) :
    excess (serialize ws) = 2 * ((ws.map Codeword.ones).sum : Int) - 10 * ws.length := by
  rw [excess_eq, count_serialize, length_serialize]
  push_cast
  rfl

/-- The word with the bits of a mask flipped. -/
def Codeword.flip (w : Codeword) (mask : BitVec 10) : Codeword := ⟨w.bits ^^^ mask⟩

/-- Each flipped bit changes the parity of the ones. -/
theorem Codeword.ones_flip_mod_two (w : Codeword) (mask : BitVec 10) :
    (w.flip mask).ones % 2 = (w.ones + (Codeword.mk mask).ones) % 2 := by
  have h : ∀ l : List Nat, (l.map (w.flip mask).bit).count true % 2 =
      ((l.map w.bit).count true + (l.map (Codeword.mk mask).bit).count true) % 2 := by
    intro l
    induction l with
    | nil => rfl
    | cons i l ih =>
      have hbit : (w.flip mask).bit i = (w.bit i ^^ (Codeword.mk mask).bit i) :=
        BitVec.getLsbD_xor
      simp only [List.map_cons, hbit]
      cases w.bit i <;> cases (Codeword.mk mask).bit i <;> simp <;> omega
  exact h _

/-- Replacing a word changes the ones of a line by those of the two words. -/
theorem sum_ones_set {ws : List Codeword} {i : Nat} {w : Codeword} (h : ws[i]? = some w)
    (v : Codeword) : ((ws.set i v).map Codeword.ones).sum + w.ones =
      (ws.map Codeword.ones).sum + v.ones := by
  induction ws generalizing i with
  | nil => simp at h
  | cons u ws ih =>
    cases i with
    | zero =>
      cases h
      simp
      omega
    | succ i =>
      have := ih h
      simp only [List.set_cons_succ, List.map_cons, List.sum_cons]
      omega

/-! ### Transmissions -/

/-- A transmission carries the difference of the disparities it starts and ends in. -/
theorem Table.Sends.sign_eq {t : Table} {d e : Disparity} {ss : List Symbol}
    {ws : List Codeword} (h : t.Sends d ss ws e) : e.sign = d.sign + excess (serialize ws) := by
  induction h with
  | nil => simp [excess]
  | @cons d e f s w ss ws hp _ ih =>
    have hw : d.sign + w.excess = e.sign := evolve_eq_some_iff.1 (Table.evolve_of_mem hp)
    rw [serialize_cons, excess_append, ih, ← hw]
    unfold Codeword.excess
    omega

/-- A word that is no fault is one of the table, for some symbol. -/
theorem Decoder.exists_of_isFault {rx : Decoder} {w : Codeword}
    (h : (rx.event w).isFault = false) :
    ∃ s, ⟨rx.rd, s, rx.next w, w⟩ ∈ rx.codec.table.productions := by
  unfold event at h
  unfold next
  cases hdec : rx.codec.decode w rx.rd with
  | error r => simp [hdec, Event.isFault] at h
  | ok r => exact ⟨r.symbol, (Codec.decode_eq_ok_iff.1 hdec).1⟩

/-- Words that are received without a fault could have been sent. -/
theorem Decoder.exists_sends {rx : Decoder} {ws : List Codeword}
    (h : ∀ ev ∈ rx.events ws, ev.isFault = false) :
    ∃ ss, rx.codec.table.Sends rx.rd ss ws (rx.after ws).rd := by
  induction ws generalizing rx with
  | nil => exact ⟨[], .nil⟩
  | cons w ws ih =>
    rw [events_cons, List.forall_mem_cons] at h
    obtain ⟨s, hs⟩ := exists_of_isFault h.1
    obtain ⟨ss, hss⟩ := ih h.2
    exact ⟨s :: ss, .cons hs hss⟩

/-! ### Corruption -/

/-- A decoder that starts in `d` notices words that should leave it in `e`: one of them is a
fault, or it is left in the other disparity. -/
def Codec.Notices (c : Codec) (d : Disparity) (ws : List Codeword) (e : Disparity) : Prop :=
  (∃ ev ∈ ((Decoder.start c d).decodeAll ws).1, ev.isFault = true) ∨
    ((Decoder.start c d).decodeAll ws).2.rd ≠ e

/-- Words with another number of ones than those sent are noticed. -/
theorem Codec.notices_of_sends {c : Codec} {d e : Disparity} {ss : List Symbol}
    {ws ws' : List Codeword} (h : c.table.Sends d ss ws e) (hlen : ws'.length = ws.length)
    (hones : (ws'.map Codeword.ones).sum ≠ (ws.map Codeword.ones).sum) : c.Notices d ws' e := by
  by_contra hun
  obtain ⟨hok, hrd⟩ := not_or.1 hun
  have hfaultless : ∀ ev ∈ (Decoder.start c d).events ws', ev.isFault = false :=
    fun ev hev => Bool.eq_false_iff.2 fun hf => hok ⟨ev, hev, hf⟩
  obtain ⟨ss', hread⟩ := Decoder.exists_sends hfaultless
  have hend : ((Decoder.start c d).after ws').rd = e := not_not.1 hrd
  have h' : c.table.Sends d ss' ws' e := hend ▸ hread
  -- Both lines take `d` to `e`, so they carry the same excess.
  have hexcess : excess (serialize ws') = excess (serialize ws) := by
    have hsign := h.sign_eq
    rw [h'.sign_eq] at hsign
    omega
  rw [excess_serialize, excess_serialize, hlen] at hexcess
  omega

/-- **Weight**: whatever a codec sends, words of another total number of ones in its place are
noticed by a decoder that starts in the disparity of the encoder; in particular an odd
number of flipped bits in one word is. -/
theorem notices_of_sum_ones_ne (c : Codec) (d : Disparity) {ss : List Symbol}
    {ws : List Codeword} {tx : Encoder} (h : (Encoder.mk c d).encodeAll ss = (.ok ws, tx)) :
    (∀ ws' : List Codeword, ws'.length = ws.length →
      (ws'.map Codeword.ones).sum ≠ (ws.map Codeword.ones).sum → c.Notices d ws' tx.rd) ∧
    ∀ (i : Nat) (w : Codeword) (mask : BitVec 10), ws[i]? = some w →
      Odd (Codeword.mk mask).ones → c.Notices d (ws.set i (w.flip mask)) tx.rd := by
  obtain ⟨hs, -⟩ := Encoder.encodeAll_eq_ok_iff.1 h
  refine ⟨fun ws' => Codec.notices_of_sends hs, fun i w mask hw hodd => ?_⟩
  refine Codec.notices_of_sends hs List.length_set fun hsame => ?_
  have hset := sum_ones_set hw (w.flip mask)
  have hflip := w.ones_flip_mod_two mask
  rw [Nat.odd_iff] at hodd
  omega

theorem notices_flipped_bit :
    (Encoder.mk .standard .negative).encodeAll [.k 0xBC, .data 0x03] =
        (.ok [⟨0x17C⟩, ⟨0x0A3⟩], ⟨.standard, .negative⟩) ∧
      ([⟨0x17C⟩, ⟨0x0A3⟩] : List Codeword)[1]? = some ⟨0x0A3⟩ ∧ Odd (Codeword.mk 0x004).ones ∧
      Codec.standard.Notices .negative
        ([⟨0x17C⟩, ⟨0x0A3⟩].set 1 (Codeword.flip ⟨0x0A3⟩ 0x004)) .negative := by
  have hdata : ⟨.positive, .data 0x03, .negative, ⟨0x0A3⟩⟩ ∈ Table.standard.productions := by
    have hr : ⟨.data 0x03, 0b110001_1011, 0b110001_0100⟩ ∈ standardRows := by decide +kernel
    exact Table.mem_standard hr (by decide) (by decide)
  have hsends : Codec.standard.table.Sends .negative [.k 0xBC, .data 0x03]
      [⟨0x17C⟩, ⟨0x0A3⟩] .negative := by
    rw [Codec.table_standard]
    exact .cons Table.comma_mem_standard (.cons hdata .nil)
  have hsent := hsends.encodeAll
  exact ⟨hsent, rfl, by decide, (notices_of_sum_ones_ne _ _ hsent).2 1 _ _ rfl (by decide)⟩

end LineCode
