import LineCode.Proofs.ExportFaithful
import Mathlib.Data.List.Induction

/-!
# Full writers

A writer that takes only so many bytes is left with the first ones of those that a writer
without a limit is left with, as many as it takes, and writing comes to its end when these
are all. Otherwise it fails in the text of some plane. The planes before that one have been
written whole, and those after it are not begun: others in their place make no difference
(`Format.exists_stop`, `Format.collect_append`). Nor does it matter how a text is divided into
writes. So a full writer cuts an export off and does nothing else to it (`writing_truncates`).
-/

namespace LineCode

namespace Output

variable {α : Type} {out : Output α} {a : α} {s : String}

/-- The bytes that are left in a fresh writer without a limit. -/
def full (out : Output α) : ByteArray := (out.collect none).2

namespace Writes

variable {limit : Nat}

theorem full_eq (h : out.Writes a s) : out.full = s.toUTF8 := by
  rw [full, h.appends.collect]

/-- In a fresh writer with a limit the first of these bytes are left, as many as it takes. -/
theorem collect_eq (h : out.Writes a s) (limit : Nat) : out.collect (some limit) =
    (if out.full.size ≤ limit then .ok a else .error {}, out.full.extract 0 limit) := by
  rw [h.full_eq, h.collect]

theorem written_eq (h : out.Writes a s) :
    (out.collect (some limit)).2 = out.full.extract 0 (min limit out.full.size) := by
  rw [h.collect_eq]
  rcases Nat.le_total out.full.size limit with hle | hle
  · rw [Nat.min_eq_right hle, extract_of_size_le hle, ByteArray.extract_zero_size]
  · rw [Nat.min_eq_left hle]

/-- All that is written fits, or writing fails. -/
theorem ok_iff (h : out.Writes a s) :
    (out.collect (some limit)).1 = .ok a ↔ out.full.size ≤ limit := by
  rw [h.collect_eq]
  constructor
  · intro hok
    by_contra hle
    rw [if_neg hle] at hok
    cases hok
  · exact fun hle => if_pos hle

theorem error_iff (h : out.Writes a s) :
    (out.collect (some limit)).1 = .error {} ↔ limit < out.full.size := by
  rw [h.collect_eq, ← Nat.not_le]
  constructor
  · intro herror hle
    rw [if_pos hle] at herror
    cases herror
  · exact fun hle => if_neg hle

end Writes

end Output

/-! ### Where writing stops -/

namespace Format

variable {f : Format} {limit : Nat}

theorem full_writePlanes (f : Format) (ps : List BitPlane) :
    (f.writePlanes ps).full = (String.join (ps.map f.planeText)).toUTF8 :=
  (f.writes_writePlanes ps).full_eq

theorem full_append (f : Format) (ps qs : List BitPlane) : (f.writePlanes (ps ++ qs)).full =
    (f.writePlanes ps).full ++ (f.writePlanes qs).full := by
  rw [full_writePlanes, full_writePlanes, full_writePlanes, List.map_append, String.join_append]
  exact String.toByteArray_append

/-- If there are bytes past the limit, the first of them stands in the text of a plane. -/
theorem exists_stop {ps : List BitPlane} (h : limit < (f.writePlanes ps).full.size) :
    ∃ before p after, ps = before ++ p :: after ∧ (f.writePlanes before).full.size ≤ limit ∧
      limit < (f.writePlanes (before ++ [p])).full.size := by
  induction ps using List.reverseRecOn with
  | nil =>
    rw [full_writePlanes] at h
    exact absurd h (Nat.not_lt_zero limit)
  | append_singleton ps p ih =>
    by_cases hfull : limit < (f.writePlanes ps).full.size
    · obtain ⟨before, q, after, rfl, hbefore, hq⟩ := ih hfull
      exact ⟨before, q, after ++ [p], by simp, hbefore, hq⟩
    · exact ⟨ps, p, [], rfl, Nat.le_of_not_lt hfull, h⟩

/-- After planes that do not all fit, none is begun. -/
theorem collect_append {ps : List BitPlane} (h : limit < (f.writePlanes ps).full.size)
    (qs : List BitPlane) : (f.writePlanes (ps ++ qs)).collect (some limit) =
      (.error {}, (f.writePlanes ps).full.extract 0 limit) := by
  have hsize : ¬ (f.writePlanes (ps ++ qs)).full.size ≤ limit := by
    rw [full_append, ByteArray.size_append]
    omega
  have hrest : (f.writePlanes qs).full.extract (0 - (f.writePlanes ps).full.size)
      (limit - (f.writePlanes ps).full.size) = .empty :=
    ByteArray.extract_eq_empty_iff.2 (by omega)
  rw [(f.writes_writePlanes _).collect_eq, if_neg hsize, full_append, ByteArray.extract_append,
    hrest, ByteArray.append_empty]

end Format

/-! ### Truncation -/

/-- What becomes of the planes `ps` when they are written by `out` to a writer that takes `limit`
bytes. -/
structure Truncates (f : Format) (ps : List BitPlane) (limit : Nat) (out : Output Nat) : Prop where
  /-- Without a limit writing comes to its end with the number of planes. -/
  complete : (out.collect none).1 = .ok ps.length
  /-- With one, the same bytes reach the writer up to the limit. -/
  written_eq : (out.collect (some limit)).2 = out.full.extract 0 (min limit out.full.size)
  /-- Writing comes to its end, with the number of planes, when these are all of them, -/
  ok_iff : (out.collect (some limit)).1 = .ok ps.length ↔ out.full.size ≤ limit
  /-- and fails when they are not. -/
  error_iff : (out.collect (some limit)).1 = .error {} ↔ limit < out.full.size
  /-- It fails in a plane: those before it fit, and whatever planes come after it, nothing more is
  written. -/
  stops : limit < out.full.size → ∃ before p after, ps = before ++ p :: after ∧
    (f.writePlanes before).full.size ≤ limit ∧
    limit < (f.writePlanes (before ++ [p])).full.size ∧
    ∀ after',
      (f.writePlanes (before ++ p :: after')).collect (some limit) = out.collect (some limit)
  /-- All this is so however the text is divided into writes. -/
  divided : ∀ pieces : List String, (String.join pieces).toUTF8 = out.full →
    (pieces.forM write >>= fun _ => pure ps.length).collect (some limit) = out.collect (some limit)

/-- Planes are truncated in every format. -/
theorem Format.truncates_writePlanes (f : Format) (ps : List BitPlane) (limit : Nat) :
    Truncates f ps limit (f.writePlanes ps) := by
  have hwrites := f.writes_writePlanes ps
  exact {
    complete := by rw [hwrites.appends.collect]
    written_eq := hwrites.written_eq
    ok_iff := hwrites.ok_iff
    error_iff := hwrites.error_iff
    stops := fun h => by
      obtain ⟨before, p, after, rfl, hbefore, hp⟩ := exists_stop h
      refine ⟨before, p, after, rfl, hbefore, hp, fun after' => ?_⟩
      rw [List.append_cons before p after', List.append_cons before p after, collect_append hp,
        collect_append hp]
    divided := fun pieces hpieces => by
      rw [((Output.Writes.pieces pieces).result ps.length).collect, hpieces, hwrites.collect_eq] }

/-- **Truncation**: in every format, what reaches a writer that fails after some number of bytes is
the beginning of what reaches one that does not, for planes of any kind and for the twenty-five
planes of any codec. The number of planes is returned for complete output only. -/
theorem writing_truncates (f : Format) (limit : Nat) :
    (∀ ps, Truncates f ps limit (f.writePlanes ps)) ∧
      ∀ c : Codec, c.planes.length = 25 ∧ Truncates f c.planes limit (c.writeTables f) :=
  ⟨fun ps => f.truncates_writePlanes ps limit,
    fun c => ⟨c.length_planes, f.truncates_writePlanes c.planes limit⟩⟩

end LineCode
