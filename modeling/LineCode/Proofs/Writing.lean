import LineCode.Export.Format

/-!
# Writing

What an exporter does to a writer is decided by a text (`Output.Writes`). If the text fits,
it is appended and the exporter comes to its end; if not, the exporter fails, and as much of
the text is appended as does fit. The texts of what is written one after another follow each
other (`Output.Writes.bind`, `Output.Writes.forM`), since nothing fits after bytes that do
not. Planes come to the end with their number (`Format.writes_writePlanes`).

A writer without a limit takes everything, so there an exporter always comes to its end
(`Output.Appends`).
-/

namespace LineCode

/-! ### What a writer takes -/

/-- Bytes end where they end. -/
theorem extract_of_size_le {s : ByteArray} {n : Nat} (h : s.size ≤ n) : s.extract 0 n = s := by
  have hmax : max n s.size = n := Nat.max_eq_left h
  calc s.extract 0 n = s.extract 0 (max n s.size) := by rw [hmax]
    _ = s := ByteArray.extract_zero_max_size

namespace Writer

variable {w : Writer} {b s : ByteArray} {limit count : Nat}

/-- A writer has taken no more than its limit. -/
def Sound (w : Writer) : Prop := ∀ limit, w.limit = some limit → w.written.size ≤ limit

theorem sound_fresh (limit : Option Nat) : (fresh limit).Sound := fun _ _ => Nat.zero_le _

theorem fits_some : (mk (some limit) b).fits count = decide (b.size + count ≤ limit) := rfl

theorem take_none : (mk none b).take s = ⟨none, b ++ s⟩ := rfl

theorem take_some :
    (mk (some limit) b).take s = ⟨some limit, b ++ s.extract 0 (limit - b.size)⟩ := rfl

theorem Sound.take (hw : w.Sound) (s : ByteArray) : (w.take s).Sound := by
  obtain ⟨_ | limit, b⟩ := w
  · rintro _ ⟨⟩
  · have hle : b.size ≤ limit := hw limit rfl
    rintro _ ⟨⟩
    rw [take_some, ByteArray.size_append, ByteArray.size_extract]
    omega

theorem Sound.fits_zero (hw : w.Sound) : w.fits 0 = true := by
  obtain ⟨_ | limit, b⟩ := w
  · rfl
  · exact decide_eq_true (hw limit rfl)

theorem take_empty (w : Writer) : w.take .empty = w := by
  obtain ⟨_ | limit, b⟩ := w
  · rw [take_none, ByteArray.append_empty]
  · rw [take_some, extract_of_size_le (Nat.zero_le _), ByteArray.append_empty]

theorem fits_of_fits_add {m n : Nat} (h : w.fits (m + n)) : w.fits m := by
  obtain ⟨_ | limit, b⟩ := w
  · rfl
  · rw [fits_some, decide_eq_true_iff] at h ⊢
    omega

/-- After bytes that fit, so many fit as fit together with them. -/
theorem fits_take (h : w.fits s.size) (count : Nat) :
    (w.take s).fits count = w.fits (s.size + count) := by
  obtain ⟨_ | limit, b⟩ := w
  · rfl
  · have hfits : b.size + s.size ≤ limit := of_decide_eq_true h
    rw [take_some, extract_of_size_le (by omega), fits_some, fits_some, ByteArray.size_append,
      Nat.add_assoc]

/-- What follows bytes that fit is taken with them. -/
theorem take_take (h : w.fits s.size) (t : ByteArray) : (w.take s).take t = w.take (s ++ t) := by
  obtain ⟨_ | limit, b⟩ := w
  · rw [take_none, take_none, take_none, ByteArray.append_assoc]
  · have hfits : b.size + s.size ≤ limit := of_decide_eq_true h
    have hall : s.extract 0 (limit - b.size) = s := extract_of_size_le (by omega)
    have hroom : limit - (b ++ s).size = limit - b.size - s.size := by
      rw [ByteArray.size_append]
      omega
    rw [take_some, hall, take_some, take_some, ByteArray.extract_append, hall, hroom,
      Nat.zero_sub, ByteArray.append_assoc]

/-- What follows bytes that do not fit is not taken. -/
theorem take_append (h : ¬ w.fits s.size) (t : ByteArray) : w.take (s ++ t) = w.take s := by
  obtain ⟨_ | limit, b⟩ := w
  · exact absurd rfl h
  · have hpast : ¬ b.size + s.size ≤ limit := fun hle => h (decide_eq_true hle)
    have hrest : t.extract (0 - s.size) (limit - b.size - s.size) = .empty :=
      ByteArray.extract_eq_empty_iff.2 (by omega)
    rw [take_some, take_some, ByteArray.extract_append, hrest, ByteArray.append_empty]

end Writer

/-! ### Texts of exporters -/

namespace Output

/-- `out` appends `s` to what a writer has taken, and comes to its end with the result `a`, if all
of `s` fits. Otherwise it fails, with as much of `s` appended as fits. -/
def Writes {α : Type} (out : Output α) (a : α) (s : String) : Prop :=
  ∀ w : Writer, w.Sound → (ExceptT.run out).run w =
    (if w.fits s.toUTF8.size then .ok a else .error {}, w.take s.toUTF8)

/-- `out` comes to its end with the result `a`, and appends `s` to what a writer without a limit
has taken. -/
def Appends {α : Type} (out : Output α) (a : α) (s : String) : Prop :=
  ∀ w : Writer, w.limit = none →
    (ExceptT.run out).run w = (.ok a, { w with written := w.written ++ s.toUTF8 })

/-- A fresh writer without a limit then holds that text. -/
theorem Appends.collect {α : Type} {out : Output α} {a : α} {s : String} (h : out.Appends a s) :
    out.collect none = (.ok a, s.toUTF8) := by
  have hempty : ByteArray.empty ++ s.toUTF8 = s.toUTF8 := ByteArray.empty_append
  unfold Output.collect
  rw [h (.fresh none) rfl]
  exact congrArg (Prod.mk _) hempty

namespace Writes

variable {α β : Type} {out : Output α} {a : α} {s : String}

theorem write (s : String) : (LineCode.write s).Writes () s := by
  intro w _
  rfl

theorem pure (a : α) : (Pure.pure a : Output α).Writes a "" := by
  intro w hw
  have hsize : "".toUTF8.size = 0 := rfl
  have htake : w.take "".toUTF8 = w := w.take_empty
  rw [hsize, hw.fits_zero, if_pos rfl, htake]
  rfl

/-- What is written one after the other is one text after the other. If the first does not fit, the
second is not begun, and if it fits, the second fits when both do. -/
theorem bind {f : α → Output β} {b : β} {t : String} (h : out.Writes a s)
    (hf : (f a).Writes b t) : (out >>= f).Writes b (s ++ t) := by
  intro w hw
  have happend : (s ++ t).toUTF8 = s.toUTF8 ++ t.toUTF8 := String.toByteArray_append
  have hrun : (ExceptT.run (out >>= f)).run w =
      (ExceptT.bindCont f (if w.fits s.toUTF8.size then .ok a else .error {})).run
        (w.take s.toUTF8) := by
    change (ExceptT.run out >>= ExceptT.bindCont f).run w = _
    rw [StateT.run_bind, h w hw]
    rfl
  rw [hrun, happend, ByteArray.size_append]
  by_cases hfits : w.fits s.toUTF8.size
  · rw [if_pos hfits, ← Writer.fits_take hfits, ← Writer.take_take hfits]
    exact hf (w.take s.toUTF8) (hw.take _)
  · have hboth : ¬ w.fits (s.toUTF8.size + t.toUTF8.size) :=
      fun hall => hfits (Writer.fits_of_fits_add hall)
    rw [if_neg hfits, if_neg hboth, Writer.take_append hfits]
    rfl

/-- So is what is written for the elements of a list. -/
theorem forM {f : α → Output Unit} {text : α → String} (h : ∀ x, (f x).Writes () (text x))
    (xs : List α) : (xs.forM f).Writes () (String.join (xs.map text)) := by
  induction xs with
  | nil => exact pure ()
  | cons x xs ih =>
    rw [List.map_cons, String.join_cons]
    exact (h x).bind ih

theorem pieces (ss : List String) : (ss.forM LineCode.write).Writes () (String.join ss) := by
  have h := forM write ss
  rwa [List.map_id'] at h

/-- What is returned afterwards has no text. -/
theorem result (h : out.Writes a s) (b : β) : (out >>= fun _ => Pure.pure b).Writes b s := by
  have hb := h.bind (f := fun _ => Pure.pure b) (pure b)
  rwa [String.append_empty] at hb

/-- A writer without a limit takes all of the text. -/
theorem appends (h : out.Writes a s) : out.Appends a s := by
  intro w hw
  obtain ⟨limit, b⟩ := w
  obtain rfl : limit = none := hw
  exact h ⟨none, b⟩ fun _ hlimit => by cases hlimit

/-- A fresh writer with a limit holds the beginning of the text. -/
theorem collect (h : out.Writes a s) (limit : Nat) : out.collect (some limit) =
    (if s.toUTF8.size ≤ limit then .ok a else .error {}, s.toUTF8.extract 0 limit) := by
  have hempty : ByteArray.empty ++ s.toUTF8.extract 0 limit = s.toUTF8.extract 0 limit :=
    ByteArray.empty_append
  have hfits : (Writer.fresh (some limit)).fits s.toUTF8.size = true ↔ s.toUTF8.size ≤ limit := by
    rw [Writer.fresh, Writer.fits_some, ByteArray.size_empty, Nat.zero_add, decide_eq_true_iff]
  unfold Output.collect
  rw [h (.fresh (some limit)) (Writer.sound_fresh _)]
  exact Prod.ext (ite_congr (propext hfits) (fun _ => rfl) (fun _ => rfl)) hempty

end Writes

end Output

/-! ### Planes -/

/-- The text that stands for a plane. -/
def Format.planeText (f : Format) (p : BitPlane) : String := String.join (f.pieces p)

theorem Format.writes_writePlane (f : Format) (p : BitPlane) :
    (f.writePlane p).Writes () (f.planeText p) :=
  .pieces (f.pieces p)

theorem Format.writes_writePlanes (f : Format) (ps : List BitPlane) :
    (f.writePlanes ps).Writes ps.length (String.join (ps.map f.planeText)) :=
  (Output.Writes.forM f.writes_writePlane ps).result ps.length

theorem Format.appends_writePlanes (f : Format) (ps : List BitPlane) :
    (f.writePlanes ps).Appends ps.length (String.join (ps.map f.planeText)) :=
  (f.writes_writePlanes ps).appends

end LineCode
