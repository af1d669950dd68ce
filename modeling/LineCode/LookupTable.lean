import LineCode.BitPlane
import LineCode.Masked

/-!
# Look-up tables

A table of 1024 rows for hardware. A row is a masked word; its low bits are the outputs
of the table, each with a name, and read over all rows an output is a bit plane.
-/

namespace LineCode

/-- A table with `width` outputs. -/
structure LookupTable (width : Nat) where
  /-- The names of the outputs, lowest bit first. -/
  names : Vector String width
  rows : Vector (Masked .u16) 1024

/-- The digits of a row, highest output first. -/
def renderRow (width : Nat) (row : Masked .u16) : String :=
  String.ofList ((List.range width).reverse.map fun i => (Cell.ofBit (row.bit i)).char)

namespace LookupTable

variable {width : Nat}

/-- The number of rows. -/
def size (t : LookupTable width) : Nat := t.rows.size

/-- The row at an address, if the table is that long. -/
def row? (t : LookupTable width) (address : Nat) : Option (Masked .u16) := t.rows[address]?

/-- The digits of the row at an address, if the table is that long. -/
def renderRow? (t : LookupTable width) (address : Nat) : Option String :=
  (t.row? address).map (renderRow width)

/-- An output over all rows. -/
def plane (t : LookupTable width) (i : Fin width) : BitPlane where
  name := t.names[i]
  cells := t.rows.toList.map fun row => .ofBit (row.bit i)

/-- The output of a number, if the table is that wide. -/
def plane? (t : LookupTable width) (i : Nat) : Option BitPlane :=
  if h : i < width then some (t.plane ⟨i, h⟩) else none

/-- Every output, lowest bit first. -/
def planes (t : LookupTable width) : List BitPlane := (List.finRange width).map t.plane

@[simp] theorem length_planes (t : LookupTable width) : t.planes.length = width := by
  simp [planes]

@[simp] theorem length_cells_plane (t : LookupTable width) (i : Fin width) :
    (t.plane i).cells.length = 1024 := by
  simp [plane]

theorem plane?_eq_getElem? (t : LookupTable width) (i : Nat) : t.plane? i = t.planes[i]? := by
  unfold plane? planes
  split
  · rename_i h
    simp [h]
  · rename_i h
    simp [h]

theorem isSome_row?_iff {t : LookupTable width} {address : Nat} :
    (t.row? address).isSome ↔ address < t.size := by
  simp [row?, size]

/-- The digits of a row are the characters that the planes have at its address, that of the
highest output first. -/
theorem digits_of_renderRow? {t : LookupTable width} {address : Nat} {text : String}
    (h : t.renderRow? address = some text) :
    text.toList.reverse.map some = t.planes.map fun p => p.cells[address]?.map Cell.char := by
  obtain ⟨row, hrow, rfl⟩ := Option.map_eq_some_iff.1 h
  have hcell : ∀ i : Fin width, (t.plane i).cells[address]? = some (.ofBit (row.bit i)) := by
    intro i
    have hrows : t.rows.toList[address]? = some row := by simpa [row?] using hrow
    rw [plane, List.getElem?_map, hrows, Option.map_some]
  rw [renderRow, String.toList_ofList, ← List.map_reverse, List.reverse_reverse, planes,
    List.map_map, List.map_map]
  refine List.ext_getElem (by simp) fun i hi hi' => ?_
  simp [hcell]

end LookupTable

end LineCode
