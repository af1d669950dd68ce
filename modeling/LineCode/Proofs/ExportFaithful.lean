import LineCode.Proofs.PlaneText
import LineCode.Proofs.RowOrder

/-!
# What an export says

The look-up tables of a codec are exported as bit planes. From the planes the rows of the
encode table can be read bit by bit, and from the rows what the codec sends, so codecs with
the same planes have the same code (`Codec.planes_eq_iff`). Planes can be told from their
text, whichever format they are written in. So an export says which code it is, and nothing
else: neither the order in which rows were written nor the detector (`exports_faithful`).
-/

namespace LineCode

/-! ### Rows from planes -/

/-- The bits of a row below the width of the table are cells of its planes. -/
theorem LookupTable.bit_eq_of_planes {width : Nat} {t t' : LookupTable width}
    (h : t.planes = t'.planes) (a : Fin 1024) {i : Nat} (hi : i < width) :
    (t.rows.get a).bit i = (t'.rows.get a).bit i := by
  have hplane : t.plane ⟨i, hi⟩ = t'.plane ⟨i, hi⟩ :=
    List.map_inj_left.1 h _ (List.mem_finRange _)
  have hcells := congrArg (fun p : BitPlane => p.cells[a.val]?) hplane
  have hbit : t.rows[a.val].bit i = t'.rows[a.val].bit i := by
    simpa [plane, Cell.ofBit_inj] using hcells
  exact hbit

namespace Codec

variable {c c' : Codec} {s : Symbol} {d : Disparity}

/-- A row of the encode table is read as what is sent. -/
theorem ofRow_field?_encodeTable (c : Codec) (s : Symbol) (d : Disparity) :
    ((c.encodeTable.rows.get (encodeAddress s d)).field? 0 11).map Encoded.ofRow =
      (c.encode s d).toOption := by
  cases h : c.encode s d with
  | ok x =>
    rw [row_of_encode_ok h, field?_encodeRow, Option.map_some, Encoded.ofRow_bits]
    rfl
  | error u =>
    rw [row_of_encode_error h, field?_dontCare]
    rfl

/-- Codecs that send the same symbols as the same words refuse the same. -/
theorem encode_eq_of_toOption (h : (c.encode s d).toOption = (c'.encode s d).toOption) :
    c.encode s d = c'.encode s d := by
  cases hs : c.encode s d with
  | ok x =>
    cases hs' : c'.encode s d with
    | ok x' =>
      rw [hs, hs'] at h
      cases h
      rfl
    | error u' =>
      rw [hs, hs'] at h
      cases h
  | error u =>
    cases hs' : c'.encode s d with
    | ok x' =>
      rw [hs, hs'] at h
      cases h
    | error u' => rw [(encode_eq_error_iff.1 hs).2, (encode_eq_error_iff.1 hs').2]

/-- Codecs have the same planes when they have the same code. -/
theorem planes_eq_iff : c.planes = c'.planes ↔ c.table.SameCode c'.table := by
  constructor
  · intro h
    have hplanes : c.encodeTable.planes = c'.encodeTable.planes :=
      (List.append_inj h (by simp)).1
    refine encode_eq_iff_sameCode.1 fun s d => encode_eq_of_toOption ?_
    rw [← ofRow_field?_encodeTable, ← ofRow_field?_encodeTable, Masked.field?_congr fun k hk => ?_]
    rw [Nat.zero_add]
    exact LookupTable.bit_eq_of_planes hplanes _ hk
  · intro h
    unfold planes
    rw [encodeTable_eq_iff.2 h, decodeTable_of_sameCode h]

/-! ### Text from planes -/

@[simp] theorem length_planes (c : Codec) : c.planes.length = 25 := by
  simp [planes]

/-- All codecs have planes of the same names, each with a cell for every address. -/
theorem shape_planes (c c' : Codec) : (c.planes.map fun p => (p.name, p.cells.length)) =
    c'.planes.map fun p => (p.name, p.cells.length) := by
  have hshape : ∀ {width : Nat} (t : LookupTable width),
      (t.planes.map fun p => (p.name, p.cells.length)) =
        (List.finRange width).map fun i => (t.names[i], 1024) := by
    intro width t
    unfold LookupTable.planes
    rw [List.map_map]
    exact List.map_congr_left fun i _ => Prod.ext rfl (t.length_cells_plane i)
  unfold planes
  rw [List.map_append, List.map_append, hshape, hshape, hshape, hshape]
  rfl

/-- The text that a codec is exported as. -/
def exportText (c : Codec) (f : Format) : String := String.join (c.planes.map f.planeText)

/-- An export comes to its end with the number of planes. -/
theorem collect_writeTables (c : Codec) (f : Format) :
    (c.writeTables f).collect none = (.ok 25, (c.exportText f).toUTF8) := by
  have h := (f.appends_writePlanes c.planes).collect
  rwa [length_planes] at h

theorem exportText_eq_iff {f : Format} :
    c.exportText f = c'.exportText f ↔ c.table.SameCode c'.table := by
  rw [← planes_eq_iff]
  constructor
  · exact Format.planes_eq_of_text (shape_planes c c')
  · intro h
    unfold exportText
    rw [h]

end Codec

/-! ### Exports -/

/-- The bytes that an export leaves in a writer without a limit. -/
def Codec.exported (c : Codec) (f : Format) : ByteArray := ((c.writeTables f).collect none).2

/-- What the exports of two codecs in one format say of the codecs. -/
structure ExportsFaithful (f : Format) (c c' : Codec) : Prop where
  /-- Both come to their end with twenty-five planes written. -/
  written : ((c.writeTables f).collect none).1 = .ok 25 ∧
    ((c'.writeTables f).collect none).1 = .ok 25
  /-- They are the same when the codes are the same, and only then: -/
  exported_eq_iff : c.exported f = c'.exported f ↔ c.table.SameCode c'.table
  /-- whatever the detectors, -/
  detector : ∀ detector detector', c.table.SameCode c'.table →
    (c.withDetector detector).exported f = (c'.withDetector detector').exported f
  /-- and whatever the order of the rows. -/
  rowOrder : ∀ rows rows' : List Row, rows.Perm rows' → Table.ofRows rows = .ok c.table →
    Table.ofRows rows' = .ok c'.table → c.exported f = c'.exported f

/-- **Exports**: in every format an export is complete, two codecs with one code are exported as
the same bytes, and two with different codes never are. -/
theorem exports_faithful (f : Format) (c c' : Codec) : ExportsFaithful f c c' := by
  have hbytes : ∀ k : Codec, k.exported f = (k.exportText f).toUTF8 := by
    intro k
    unfold Codec.exported
    rw [Codec.collect_writeTables]
  have hiff : ∀ k k' : Codec, k.exported f = k'.exported f ↔ k.table.SameCode k'.table := by
    intro k k'
    rw [hbytes, hbytes, ← Codec.exportText_eq_iff (f := f)]
    exact String.toByteArray_inj
  refine {
    written := by rw [Codec.collect_writeTables, Codec.collect_writeTables]; exact ⟨rfl, rfl⟩
    exported_eq_iff := hiff c c'
    detector := fun detector detector' h => (hiff _ _).2 h
    rowOrder := fun rows rows' h ht ht' => (hiff c c').2 (Table.sameCode_of_perm h ht ht') }

end LineCode
