import LineCode.Json.Forms
import LineCode.Proofs.JsonText
import LineCode.Proofs.MintermReading
import LineCode.Proofs.TextReading

/-!
# Planes read back from records

A plane's record is a JSON object on one line, with the name, the width of the addresses, the two
sets and the printed cells (`PlaneRecord.ofLine?_jsonRecord`). Names are escaped, so they may have
any characters, and no line needs to be told where the plane ends: the cells are all in it. What
the sets say of an address is what is printed there, and a power of two of cells has the width
that belongs to it (`BitPlane.consistent_record`).

The formats that write sets are readable both (`setExports_readable`).
-/

namespace LineCode

/-! ### Records -/

/-- What is exchanged of a plane. -/
structure PlaneRecord where
  name : String
  inputs : Nat
  on : List Nat
  dc : List Nat
  lut : String
deriving DecidableEq

namespace Json

/-- A natural number. -/
def natural? : Value → Option Nat
  | .number natural => natural
  | _ => none

/-- Natural numbers. -/
def naturals? : Value → Option (List Nat)
  | .array items => items.mapM natural?
  | _ => none

/-- A text. -/
def text? : Value → Option String
  | .string text => text
  | _ => none

end Json

namespace PlaneRecord

/-- A record is an object with one member for each of its fields. -/
def ofJson? : Json.Value → Option PlaneRecord
  | .object members => do
    let name ← Json.text? (← Json.member? "name" members)
    let inputs ← Json.natural? (← Json.member? "inputs" members)
    let on ← Json.naturals? (← Json.member? "on" members)
    let dc ← Json.naturals? (← Json.member? "dc" members)
    let lut ← Json.text? (← Json.member? "lut" members)
    return ⟨name, inputs, on, dc, lut⟩
  | _ => none

/-- The record that a line is. -/
def ofLine? (line : List Char) : Option PlaneRecord :=
  (Json.Value.ofText? (String.ofList line)).bind ofJson?

/-- The plane of a record, by the printed cells. -/
def plane? (r : PlaneRecord) : Option BitPlane :=
  (r.lut.toList.mapM Cell.ofChar?).map fun cells => ⟨r.name, cells⟩

/-- The width and the sets are those of the printed cells. -/
structure Consistent (r : PlaneRecord) : Prop where
  inputs : ∀ n ≤ 64, r.lut.toList.length = 2 ^ n → r.inputs = n
  on : ∀ i, i ∈ r.on ↔ r.lut.toList[i]? = some Cell.on.char
  dc : ∀ i, i ∈ r.dc ↔ r.lut.toList[i]? = some Cell.dontCare.char

end PlaneRecord

namespace BitPlane

/-- The record of a plane. -/
def record (p : BitPlane) : PlaneRecord := ⟨p.name, p.inputs, p.onSet, p.dontCareSet, p.render⟩

theorem toList_render (p : BitPlane) : p.render.toList = p.cells.map Cell.char :=
  String.toList_ofList

theorem plane?_record (p : BitPlane) : p.record.plane? = some p := by
  rw [PlaneRecord.plane?, record, toList_render, mapM_ofChar?_char, Option.map_some]

/-- An address is in the set of the cell that is printed there. -/
theorem mem_indices_iff_render {p : BitPlane} {c : Cell} {i : Nat} :
    i ∈ p.indices c ↔ p.render.toList[i]? = some c.char := by
  rw [mem_indices, toList_render, List.getElem?_map]
  cases p.cells[i]? with
  | none => simp
  | some d => rw [Option.map_some, Option.some.injEq, Option.some.injEq, Cell.char_inj]

theorem consistent_record (p : BitPlane) : p.record.Consistent where
  inputs n hn h := by
    have hlength : p.render.toList.length = p.cells.length := by
      rw [toList_render, List.length_map]
    exact inputs_of_length (hlength.symm.trans h) hn
  on _ := mem_indices_iff_render
  dc _ := mem_indices_iff_render

end BitPlane

/-! ### Arrays of numbers -/

/-- Numbers take up room. -/
theorem length_le_commaSeparated (ns : List Nat) :
    ns.length ≤ (commaSeparated ns).toList.length := by
  have hdigits : ∀ n, 1 ≤ (Nat.toDigits 10 n).length := fun _ =>
    List.length_pos_iff.2 Nat.toDigits_ne_nil
  rw [toList_commaSeparated]
  induction ns with
  | nil => exact Nat.zero_le _
  | cons n ns ih =>
    cases ns with
    | nil => simpa using hdigits n
    | cons m ns =>
      rw [List.map_cons, List.map_cons, List.intercalate_cons_cons, List.length_append,
        List.length_append, List.length_cons]
      have := hdigits n
      rw [List.map_cons] at ih
      omega

namespace Json

variable {need need' : Nat} {cs : List Char} {v : Value}

theorem ReadsAs.mono (h : ReadsAs need cs v) (hle : need ≤ need') : ReadsAs need' cs v :=
  fun fuel rest hfuel => h fuel rest (hle.trans hfuel)

/-- Natural numbers as a value. -/
def ofNaturals (ns : List Nat) : Value := .array (ns.map fun n => .number (some n))

theorem naturals?_ofNaturals (ns : List Nat) : naturals? (ofNaturals ns) = some ns := by
  have h : (ns.map fun n => Value.number (some n)).mapM natural? = some (ns.map id) :=
    mapM_eq_some fun _ _ => rfl
  rwa [List.map_id] at h

/-- Natural numbers as they are written. -/
def naturalsText (ns : List Nat) : List Char := '[' :: (commaSeparated ns).toList ++ [']']

theorem readsAs_naturalsText (ns : List Nat) :
    ReadsAs (ns.length + 2) (naturalsText ns) (ofNaturals ns) := by
  let items := ns.map fun n => (Nat.toDigits 10 n, Value.number (some n))
  have hread : ReadsAs (items.length + 1 + 1) ('[' :: listed (items.map Prod.fst) ++ [']'])
      (.array (items.map Prod.snd)) := by
    refine readsAs_array fun item hitem => ?_
    obtain ⟨n, -, rfl⟩ := List.mem_map.1 hitem
    exact readsAs_toDigits n
  rw [List.length_map, List.map_map, List.map_map] at hread
  rw [naturalsText, toList_commaSeparated]
  exact hread

theorem not_mem_naturalsText (ns : List Nat) : '\n' ∉ naturalsText ns := by
  rw [naturalsText, List.mem_append, List.mem_cons, List.mem_singleton]
  rintro ((h | h) | h)
  · exact absurd h (by decide)
  · exact not_mem_commaSeparated (by decide) (by decide) ns h
  · exact absurd h (by decide)

end Json

/-! ### Records read back -/

namespace BitPlane

/-- The members of a plane's record. -/
def members (p : BitPlane) : List Json.Member :=
  [⟨"name", (Text.jsonString p.name).toList, .string (some p.name)⟩,
    ⟨"inputs", Nat.toDigits 10 p.inputs, .number (some p.inputs)⟩,
    ⟨"on", Json.naturalsText p.onSet, Json.ofNaturals p.onSet⟩,
    ⟨"dc", Json.naturalsText p.dontCareSet, Json.ofNaturals p.dontCareSet⟩,
    ⟨"lut", (Text.jsonString p.render).toList, .string (some p.render)⟩]

/-- No key has a character that is escaped. -/
theorem jsonString_keys : Text.jsonString "name" = "\"name\"" ∧
    Text.jsonString "inputs" = "\"inputs\"" ∧ Text.jsonString "on" = "\"on\"" ∧
      Text.jsonString "dc" = "\"dc\"" ∧ Text.jsonString "lut" = "\"lut\"" := by decide

theorem toList_jsonRecord (p : BitPlane) : p.jsonRecord.toList =
    '\x7b' :: Json.listed (p.members.map Json.Member.written) ++ ['\x7d'] := by
  have hwidth : (toString p.inputs).toList = Nat.toDigits 10 p.inputs := Nat.toList_repr
  have hname : "\x7b\"name\":".toList = '\x7b' :: ("\"name\"".toList ++ [':']) := rfl
  have hinputs : ",\"inputs\":".toList = ',' :: ("\"inputs\"".toList ++ [':']) := rfl
  have hon : ",\"on\":[".toList = ',' :: ("\"on\"".toList ++ [':', '[']) := rfl
  have hdc : "],\"dc\":[".toList = ']' :: ',' :: ("\"dc\"".toList ++ [':', '[']) := rfl
  have hlut : "],\"lut\":".toList = ']' :: ',' :: ("\"lut\"".toList ++ [':']) := rfl
  have hend : "\x7d".toList = ['\x7d'] := rfl
  obtain ⟨kname, kinputs, kon, kdc, klut⟩ := jsonString_keys
  simp only [members, Json.Member.written, Json.naturalsText, List.map_cons, List.map_nil,
    Json.listed_cons_cons, Json.listed_singleton]
  rw [kname, kinputs, kon, kdc, klut]
  unfold jsonRecord
  simp only [String.toList_append]
  rw [hname, hinputs, hon, hdc, hlut, hend, hwidth]
  simp only [List.append_assoc, List.cons_append, List.nil_append]

theorem not_mem_jsonRecord (p : BitPlane) : '\n' ∉ p.jsonRecord.toList := by
  have hwidth : '\n' ∉ Nat.toDigits 10 p.inputs := not_mem_toDigits (by decide) _
  simp only [toList_jsonRecord, members, Json.Member.written, List.map_cons, List.map_nil,
    Json.listed_cons_cons, Json.listed_singleton, List.mem_append, List.mem_cons, not_or,
    Json.not_mem_jsonString, Json.not_mem_naturalsText, hwidth]
  decide

/-- A record is read as an object of its members. -/
theorem ofText?_jsonRecord (p : BitPlane) :
    Json.Value.ofText? p.jsonRecord = some (.object (p.members.map Json.Member.read)) := by
  let need := p.onSet.length + p.dontCareSet.length + 2
  have hmembers : ∀ m ∈ p.members, Json.ReadsAs need m.text m.value := by
    unfold members
    simp only [List.forall_mem_cons]
    refine ⟨?_, ?_, ?_, ?_, ?_, List.forall_mem_nil _⟩
    · exact (Json.readsAs_jsonString _).mono (by omega)
    · exact (Json.readsAs_toDigits _).mono (by omega)
    · exact (Json.readsAs_naturalsText _).mono (by omega)
    · exact (Json.readsAs_naturalsText _).mono (by omega)
    · exact (Json.readsAs_jsonString _).mono (by omega)
  have hroom : p.onSet.length + p.dontCareSet.length + 6 ≤ p.jsonRecord.toList.length := by
    have hon := length_le_commaSeparated p.onSet
    have hdc := length_le_commaSeparated p.dontCareSet
    simp only [toList_jsonRecord, members, Json.Member.written, Json.naturalsText, List.map_cons,
      List.map_nil, Json.listed_cons_cons, Json.listed_singleton, List.length_append,
      List.length_cons, List.length_nil]
    omega
  refine Json.ReadsAs.ofText? ?_ (?_ : p.members.length + need + 1 ≤ _)
  · rw [toList_jsonRecord]
    exact Json.readsAs_object (List.cons_ne_nil _ _) hmembers
  · change 5 + need + 1 ≤ _
    omega

end BitPlane

/-- A record is read from its line. -/
theorem PlaneRecord.ofLine?_jsonRecord (p : BitPlane) :
    ofLine? p.jsonRecord.toList = some p.record := by
  rw [ofLine?, String.ofList_toList, p.ofText?_jsonRecord, Option.bind_some]
  have hon := Json.naturals?_ofNaturals p.onSet
  have hdc := Json.naturals?_ofNaturals p.dontCareSet
  change ((Json.naturals? (Json.ofNaturals p.onSet)).bind fun on =>
    (Json.naturals? (Json.ofNaturals p.dontCareSet)).bind fun dc =>
      some (PlaneRecord.mk p.name p.inputs on dc p.render)) = _
  rw [hon, hdc]
  rfl

/-! ### Reading back -/

/-- What becomes of planes that are written as records. -/
structure ReadsRecords (ps : List BitPlane) : Prop where
  /-- They are all written. -/
  written : ((Format.json.writePlanes ps).collect none).1 = .ok ps.length
  /-- There is one line for each plane, which is its record. -/
  lines : ∃ lines, Text.linesOfBytes? (Format.json.writePlanes ps).full = some lines ∧
    List.Forall₂ (fun p line => PlaneRecord.ofLine? line = some p.record) ps lines
  /-- The width and the sets of a record are those of its cells, -/
  consistent : ∀ p ∈ ps, p.record.Consistent
  /-- and the plane is known by the record. -/
  plane : ∀ p ∈ ps, p.record.plane? = some p
  /-- No other planes are written as these bytes. -/
  eq_of_full : ∀ ps', (Format.json.writePlanes ps').full = (Format.json.writePlanes ps).full →
    ps' = ps

theorem Format.linesOfBytes?_json (ps : List BitPlane) : Text.linesOfBytes?
    (json.writePlanes ps).full = some (ps.map fun p => p.jsonRecord.toList) := by
  have hend : "\n".toList = ['\n'] := rfl
  refine linesOfBytes?_map (fun p => ?_) fun p _ => p.not_mem_jsonRecord
  rw [planeText, pieces, String.toList_join, List.flatMap_cons, List.flatMap_singleton, hend]

/-- **Records**: planes of any names are read back from their lines. -/
theorem readsRecords (ps : List BitPlane) : ReadsRecords ps where
  written := by rw [(Format.json.appends_writePlanes ps).collect]
  lines := by
    refine ⟨_, Format.linesOfBytes?_json ps, ?_⟩
    rw [List.forall₂_map_right_iff, List.forall₂_same]
    exact fun p _ => PlaneRecord.ofLine?_jsonRecord p
  consistent p _ := p.consistent_record
  plane p _ := p.plane?_record
  eq_of_full := by
    intro ps' heq
    have hread : Function.Injective fun p : BitPlane => p.jsonRecord.toList := by
      intro p p' h
      have hrecord := congrArg PlaneRecord.ofLine? h
      rw [PlaneRecord.ofLine?_jsonRecord, PlaneRecord.ofLine?_jsonRecord] at hrecord
      have hplane := congrArg PlaneRecord.plane? (Option.some.inj hrecord)
      rw [p.plane?_record, p'.plane?_record] at hplane
      exact Option.some.inj hplane
    have hlines := Format.linesOfBytes?_json ps'
    rw [heq, Format.linesOfBytes?_json ps] at hlines
    exact (List.map_injective_iff.2 hread (Option.some.inj hlines)).symm

/-- **Sets**: planes are known by their sets and the number of their cells, and are read back from
minterms, when no name has a newline, and from records, whatever the names. -/
theorem setExports_readable (ps : List BitPlane) :
    (∀ p ∈ ps, SetsTell p) ∧ ((∀ p ∈ ps, '\n' ∉ p.name.toList) → ReadsMinterms ps) ∧
      ReadsRecords ps :=
  ⟨fun p _ => p.setsTell, readsMinterms, readsRecords ps⟩

/-- A name may look like the rest of its line. -/
theorem setExports_readable_names :
    let ps : List BitPlane :=
      [⟨"a inputs=0 on=[0] dc=[]", [.on, .off, .dontCare]⟩, ⟨"\"\\] dc=[", []⟩, ⟨"", [.on]⟩]
    (∀ p ∈ ps, '\n' ∉ p.name.toList) ∧ ReadsMinterms ps := by
  intro ps
  have h : ∀ p ∈ ps, '\n' ∉ p.name.toList := by decide
  exact ⟨h, (setExports_readable ps).2.1 h⟩

end LineCode
