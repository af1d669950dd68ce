import LineCode.Json.Forms
import LineCode.Proofs.JsonText

/-!
# JSON forms read back

What is written of a symbol, a disparity or a detector as JSON is read back as it
(`Json.symbol?_symbolText`, `Json.disparity?_disparityText`, `Json.detector?_detectorText`). A
symbol is an object of two members, the number of its octet and its control flag; the others are
written by their names.
-/

namespace LineCode.Json

/-! ### Symbols -/

theorem readsAs_bool (b : Bool) : ReadsAs 1 (toString b).toList (.bool b) := by
  intro fuel rest hfuel _
  obtain ⟨fuel, rfl⟩ := Nat.exists_eq_add_of_le' hfuel
  cases b <;> rfl

/-- The members of a symbol. -/
def symbolMembers (s : Symbol) : List Member :=
  [⟨"value", Nat.toDigits 10 s.value.toNat, .number (some s.value.toNat)⟩,
    ⟨"control", (toString s.control).toList, .bool s.control⟩]

theorem toList_symbolText (s : Symbol) : (symbolText s).toList =
    '\x7b' :: listed ((symbolMembers s).map Member.written) ++ ['\x7d'] := by
  have hdigits : (toString s.value.toNat).toList = Nat.toDigits 10 s.value.toNat := Nat.toList_repr
  have hvalue : "\x7b\"value\":".toList = '\x7b' :: ("\"value\"".toList ++ [':']) := rfl
  have hcontrol : ",\"control\":".toList = ',' :: ("\"control\"".toList ++ [':']) := rfl
  have hend : "\x7d".toList = ['\x7d'] := rfl
  have hkeys : Text.jsonString "value" = "\"value\"" ∧
      Text.jsonString "control" = "\"control\"" := by decide
  simp only [symbolMembers, Member.written, List.map_cons, List.map_nil, listed_cons_cons,
    listed_singleton, hkeys]
  rw [symbolText]
  simp only [String.toList_append, hdigits, hvalue, hcontrol, hend, List.append_assoc,
    List.cons_append, List.nil_append]

theorem ofText?_symbolText (s : Symbol) :
    Value.ofText? (symbolText s) = some (.object ((symbolMembers s).map Member.read)) := by
  have hmembers : ∀ m ∈ symbolMembers s, ReadsAs 1 m.text m.value := by
    unfold symbolMembers
    simp only [List.forall_mem_cons]
    exact ⟨readsAs_toDigits _, readsAs_bool _, List.forall_mem_nil _⟩
  refine ReadsAs.ofText? ?_ (?_ : (symbolMembers s).length + 1 + 1 ≤ _)
  · rw [toList_symbolText]
    exact readsAs_object (List.cons_ne_nil _ _) hmembers
  · rw [toList_symbolText, List.length_append]
    change 4 ≤ _
    simp only [List.length_cons, List.length_nil]
    omega

/-- A symbol is read back from its object. -/
theorem symbol?_symbolText (s : Symbol) : (Value.ofText? (symbolText s)).bind symbol? = some s := by
  rw [ofText?_symbolText, Option.bind_some]
  change symbolOfParts? (.number (some s.value.toNat)) (.bool s.control) = some s
  rw [symbolOfParts?, if_pos s.value.isLt, BitVec.ofNat_toNat, BitVec.setWidth_eq]

/-! ### Names -/

theorem disparity?_disparityText (d : Disparity) :
    (Value.ofText? (disparityText d)).bind disparity? = some d := by
  cases d <;> decide

theorem detector?_detectorText (d : Detector) :
    (Value.ofText? (detectorText d)).bind detector? = some d := by
  cases d <;> decide

end LineCode.Json
