import LineCode.Json.Value
import LineCode.Proofs.Numerals
import LineCode.Text.JsonString
import Mathlib.Tactic.IntervalCases

/-!
# JSON texts

What is written as JSON is read back as the value (`ReadsAs`), whatever text follows: numbers in
their digits, strings with their escapes, arrays and objects of what is read back itself. A
number is the one value that another character could go on with, so what follows must not begin
with one. Escapes are read as code units or as the characters they stand for; the code units
that are written are below the space, so no two of them are halves of one character.
-/

namespace LineCode.Json

variable {cs rest : List Char} {v : Value} {fuel need n : Nat}

/-! ### Values -/

/-- Nothing that a number could go on with. -/
def Ends (rest : List Char) : Prop :=
  ∀ c ∈ rest.head?, isDigit c = false ∧ c ≠ '.' ∧ c ≠ 'e' ∧ c ≠ 'E'

/-- With so much fuel, the value is read from the text, and what follows it is left. -/
def ReadsAs (need : Nat) (cs : List Char) (v : Value) : Prop :=
  ∀ fuel rest, need ≤ fuel → Ends rest → readValue fuel (cs ++ rest) = some (v, rest)

theorem ends_cons {c : Char} (hdigit : isDigit c = false) (hpoint : c ≠ '.') (he : c ≠ 'e')
    (hE : c ≠ 'E') : Ends (c :: rest) := by
  rintro c' ⟨⟩
  exact ⟨hdigit, hpoint, he, hE⟩

/-- A text is read as its value when there is fuel enough for all of it. -/
theorem ReadsAs.ofText? {s : String} (h : ReadsAs need s.toList v)
    (hneed : need ≤ 2 * s.toList.length + 2) : Value.ofText? s = some v := by
  have hread := h _ [] hneed (by simp [Ends])
  rw [List.append_nil] at hread
  rw [Value.ofText?, hread]
  rfl

/-! ### Numbers -/

/-- A number starts with a digit, which is zero for zero only. -/
theorem exists_toDigits_eq_cons (n : Nat) :
    ∃ d < 10, ∃ cs, Nat.toDigits 10 n = d.digitChar :: cs ∧ (d = 0 → n = 0) := by
  induction n using Nat.strongRecOn with
  | ind n ih =>
    by_cases hn : n < 10
    · exact ⟨n, hn, [], Nat.toDigits_of_lt_base hn, id⟩
    · obtain ⟨d, hd, cs, hcs, hzero⟩ := ih (n / 10) (by omega)
      refine ⟨d, hd, cs ++ [(n % 10).digitChar], ?_, fun h => ?_⟩
      · rw [Nat.toDigits_of_base_le (by decide) (Nat.le_of_not_lt hn), hcs]
        rfl
      · have := hzero h
        omega

theorem isDigit_of_mem_toDigits {c : Char} {n : Nat} (h : c ∈ Nat.toDigits 10 n) :
    isDigit c = true :=
  Nat.isDigit_of_mem_toDigits (by decide) (by decide) h

theorem naturalOfDigits_toDigits (n : Nat) : naturalOfDigits (Nat.toDigits 10 n) = n := by
  have h : naturalOfDigits (Nat.toDigits 10 n) = Nat.ofDigitChars 10 (Nat.toDigits 10 n) 0 := by
    simp only [naturalOfDigits, Nat.ofDigitChars, Nat.mul_comm]
  rw [h, Nat.ofDigitChars_toDigits (by decide) (by decide)]

/-- Digits end where no digit follows, and nothing else follows that belongs to a number. -/
theorem readUnsigned_toDigits (n : Nat) (h : Ends rest) :
    readUnsigned (Nat.toDigits 10 n ++ rest) = some (some n, rest) := by
  have hall : ∀ c ∈ Nat.toDigits 10 n, isDigit c = true := fun _ => isDigit_of_mem_toDigits
  have htake : (Nat.toDigits 10 n ++ rest).takeWhile isDigit = Nat.toDigits 10 n := by
    rw [List.takeWhile_append_of_pos hall]
    cases rest with
    | nil => simp
    | cons c rest => rw [List.takeWhile_cons_of_neg (by simp [(h c rfl).1]), List.append_nil]
  have hdrop : (Nat.toDigits 10 n ++ rest).dropWhile isDigit = rest := by
    rw [List.dropWhile_append_of_pos hall]
    cases rest with
    | nil => rfl
    | cons c rest => rw [List.dropWhile_cons_of_neg (by simp [(h c rfl).1])]
  have hzero : (Nat.toDigits 10 n).head? = some '0' → Nat.toDigits 10 n = ['0'] := by
    obtain ⟨d, hd, cs, hcs, hn⟩ := exists_toDigits_eq_cons n
    rw [hcs, List.head?_cons, Option.some.injEq, ← hcs]
    intro h
    have hd0 : ∀ d < 10, Nat.digitChar d = '0' → d = 0 := by decide
    rw [hn (hd0 d hd h)]
    rfl
  have hfraction : skipFraction? rest = some (false, rest) := by
    unfold skipFraction?
    split
    · exact absurd rfl (h '.' rfl).2.1
    · rfl
  have hexponent : skipExponent? rest = some (false, rest) := by
    unfold skipExponent?
    split
    · exact absurd rfl (h 'e' rfl).2.2.1
    · exact absurd rfl (h 'E' rfl).2.2.2
    · rfl
  rw [readUnsigned, htake, hdrop, if_neg, hfraction]
  · change (skipExponent? rest).bind _ = _
    rw [hexponent, naturalOfDigits_toDigits]
    rfl
  · rintro (h | ⟨h, h'⟩)
    · exact Nat.toDigits_ne_nil h
    · exact h' (hzero h)

/-- A value that starts with a digit is a number. -/
theorem readsAs_toDigits (n : Nat) : ReadsAs 1 (Nat.toDigits 10 n) (.number (some n)) := by
  intro fuel rest hfuel h
  obtain ⟨fuel, rfl⟩ := Nat.exists_eq_add_of_le' hfuel
  have hnumber : readValue (fuel + 1) (Nat.toDigits 10 n ++ rest) =
      (readUnsigned (Nat.toDigits 10 n ++ rest)).map (Prod.map Value.number id) := by
    obtain ⟨d, hd, cs, hcs, -⟩ := exists_toDigits_eq_cons n
    rw [hcs]
    interval_cases d <;> rfl
  rw [hnumber, readUnsigned_toDigits n h]
  rfl

/-- The text of a number is that number. -/
theorem Value.ofText?_toString (n : Nat) :
    Value.ofText? (toString n) = some (.number (some n)) := by
  have hdigits : (toString n).toList = Nat.toDigits 10 n := Nat.toList_repr
  exact ReadsAs.ofText? (hdigits ▸ readsAs_toDigits n) (by omega)

/-! ### Strings -/

/-- A code unit that is no half of a pair is a character by itself. -/
theorem textOfParts_unit (hn : n < 0xD800) (parts : List StringPart) :
    textOfParts (.unit n :: parts) = (textOfParts parts).map (Char.ofNat n :: ·) := by
  have hlow : ¬ (0xD800 ≤ n ∧ n < 0xDC00) := by omega
  have hhigh : ¬ (0xDC00 ≤ n ∧ n < 0xE000) := by omega
  have hnone : ¬ (0xD800 ≤ n ∧ n < 0xE000) := by omega
  rcases parts with _ | ⟨_ | lo, parts⟩ <;> simp [textOfParts, hlow, hhigh, hnone]

theorem readParts_unit {a b c d : Char} (h : unit? a b c d = some n) (cs : List Char) :
    readParts ('\\' :: 'u' :: a :: b :: c :: d :: cs) =
      (readParts cs).map fun (parts, rest) => (.unit n :: parts, rest) := by
  rw [readParts, h]
  cases readParts cs <;> rfl

theorem readParts_escaped {c e : Char} (h : escaped? c = some e) (cs : List Char) :
    readParts ('\\' :: c :: cs) =
      (readParts cs).map fun (parts, rest) => (.char e :: parts, rest) := by
  have hc : c ≠ 'u' := by
    rintro rfl
    cases h
  rw [readParts]
  · rw [h]
    cases readParts cs <;> rfl
  · simp [hc]

theorem readParts_plain {c : Char} (hquote : c ≠ '"') (hback : c ≠ '\\') (hspace : ¬ c.toNat < 32)
    (cs : List Char) : readParts (c :: cs) =
      (readParts cs).map fun (parts, rest) => (.char c :: parts, rest) := by
  rw [readParts]
  · rw [if_neg (by simp [hback, hspace])]
  all_goals simp [hquote, hback]

/-- A part of a string that says one character, and is read from its escape. -/
def Escapes (c : Char) (escape : List Char) : Prop := ∃ part,
  (∀ parts, textOfParts (part :: parts) = (textOfParts parts).map (c :: ·)) ∧
  ∀ cs, readParts (escape ++ cs) =
    (readParts cs).map fun (parts, rest) => (part :: parts, rest)

theorem escapes_escaped {c e : Char} (h : escaped? c = some e) : Escapes e ['\\', c] :=
  ⟨.char e, fun _ => rfl, readParts_escaped h⟩

/-- A control is written by its number, which has one or two digits. -/
theorem escapes_unit {c : Char} {a b d e : Char} (h : unit? a b d e = some c.toNat)
    (hc : c.toNat < 32) : Escapes c ['\\', 'u', a, b, d, e] := by
  refine ⟨.unit c.toNat, fun parts => ?_, readParts_unit h⟩
  rw [textOfParts_unit (by omega), Char.ofNat_toNat]

theorem escapes_jsonEscape (c : Char) : Escapes c (Text.jsonEscape c).toList := by
  unfold Text.jsonEscape
  -- Seven characters are escaped by a letter or by themselves.
  iterate 7
    split
    · subst c
      exact escapes_escaped rfl
  split
  · rename_i hc
    have hdigits : ∀ n < 16, Nat.toDigits 16 n = [n.digitChar] ∧
        unit? '0' '0' '0' n.digitChar = some n := by decide
    obtain ⟨hone, hunit⟩ := hdigits c.toNat hc
    have hescape : ("\\u000" ++ Text.hexDigits c.toNat).toList =
        ['\\', 'u', '0', '0', '0', c.toNat.digitChar] := by
      rw [String.toList_append, Text.hexDigits, hone, String.toList_ofList (l := [_])]
      rfl
    rw [hescape]
    exact escapes_unit hunit (by omega)
  split
  · rename_i hlow hc
    have hdigits : ∀ n < 32, 16 ≤ n → Nat.toDigits 16 n = ['1', (n - 16).digitChar] ∧
        unit? '0' '0' '1' (n - 16).digitChar = some n := by decide
    obtain ⟨htwo, hunit⟩ := hdigits c.toNat hc (by omega)
    have hescape : ("\\u00" ++ Text.hexDigits c.toNat).toList =
        ['\\', 'u', '0', '0', '1', (c.toNat - 16).digitChar] := by
      rw [String.toList_append, Text.hexDigits, htwo, String.toList_ofList (l := [_, _])]
      rfl
    rw [hescape]
    exact escapes_unit hunit hc
  · rename_i hquote hback _ _ _ _ _ _ hspace
    have hself : c.toString.toList = [c] := String.toList_singleton c
    rw [hself]
    exact ⟨.char c, fun _ => rfl, readParts_plain hquote hback hspace⟩

theorem toList_jsonString (s : String) : (Text.jsonString s).toList =
    '"' :: (s.toList.flatMap fun c => (Text.jsonEscape c).toList) ++ ['"'] := by
  have hquote : "\"".toList = ['"'] := rfl
  rw [Text.jsonString, String.toList_append, String.toList_append, String.toList_join,
    List.flatMap_map, hquote]
  rfl

/-- A string ends at the first quotation mark that is not escaped. -/
theorem readString_jsonString (s : String) (rest : List Char) :
    readString ((s.toList.flatMap fun c => (Text.jsonEscape c).toList) ++ '"' :: rest) =
      some (some s, rest) := by
  have hparts : ∀ cs : List Char, ∃ parts, textOfParts parts = some cs ∧
      readParts ((cs.flatMap fun c => (Text.jsonEscape c).toList) ++ '"' :: rest) =
        some (parts, rest) := by
    intro cs
    induction cs with
    | nil => exact ⟨[], rfl, rfl⟩
    | cons c cs ih =>
      obtain ⟨parts, htext, hread⟩ := ih
      obtain ⟨part, hpart, hescape⟩ := escapes_jsonEscape c
      refine ⟨part :: parts, by rw [hpart, htext]; rfl, ?_⟩
      rw [List.flatMap_cons, List.append_assoc, hescape, hread]
      rfl
  obtain ⟨parts, htext, hread⟩ := hparts s.toList
  rw [readString, hread, Option.map_some]
  dsimp only
  rw [htext, Option.map_some, String.ofList_toList]

theorem readsAs_jsonString (s : String) :
    ReadsAs 1 (Text.jsonString s).toList (.string (some s)) := by
  intro fuel rest hfuel _
  obtain ⟨fuel, rfl⟩ := Nat.exists_eq_add_of_le' hfuel
  have hstring : ∀ cs, readValue (fuel + 1) ('"' :: cs) =
      (readString cs).map fun r => (.string r.1, r.2) := fun _ => rfl
  rw [toList_jsonString, List.cons_append, List.cons_append, List.append_assoc, hstring,
    List.singleton_append, readString_jsonString, Option.map_some]

/-- A newline is escaped, like every control. -/
theorem not_mem_jsonEscape (c : Char) : '\n' ∉ (Text.jsonEscape c).toList := by
  have hhex : '\n' ∉ (Text.hexDigits c.toNat).toList :=
    (Text.digits_hexDigits _).not_mem (by decide) (by decide)
  unfold Text.jsonEscape
  iterate 7
    split
    · decide
  split
  · rw [String.toList_append, List.mem_append]
    rintro (h | h)
    · exact absurd h (by decide)
    · exact hhex h
  split
  · rw [String.toList_append, List.mem_append]
    rintro (h | h)
    · exact absurd h (by decide)
    · exact hhex h
  · rename_i hnewline _ _ _ _
    have hself : c.toString.toList = [c] := String.toList_singleton c
    rw [hself, List.mem_singleton]
    exact Ne.symm hnewline

/-- A string stands on one line. -/
theorem not_mem_jsonString (s : String) : '\n' ∉ (Text.jsonString s).toList := by
  rw [toList_jsonString, List.mem_append, List.mem_cons, List.mem_flatMap]
  rintro ((h | ⟨c, -, h⟩) | h)
  · exact absurd h (by decide)
  · exact not_mem_jsonEscape c h
  · exact absurd h (by decide)

/-! ### Arrays -/

/-- Texts between commas. -/
def listed (texts : List (List Char)) : List Char := [','].intercalate texts

@[simp] theorem listed_singleton (text : List Char) : listed [text] = text :=
  List.intercalate_singleton

@[simp] theorem listed_cons_cons (text text' : List Char) (texts : List (List Char)) :
    listed (text :: text' :: texts) = text ++ ',' :: listed (text' :: texts) := by
  rw [listed, List.intercalate_cons_cons, List.append_assoc]
  rfl

theorem ends_comma : Ends (',' :: rest) := ends_cons rfl (by decide) (by decide) (by decide)

theorem ends_bracket : Ends (']' :: rest) := ends_cons rfl (by decide) (by decide) (by decide)

theorem ends_brace : Ends ('\x7d' :: rest) := ends_cons rfl (by decide) (by decide) (by decide)

theorem readItems_last (h : readValue fuel cs = some (v, ']' :: rest)) :
    readItems (fuel + 1) cs = some ([v], rest) := by
  rw [readItems, h]
  rfl

theorem readItems_more {cs' : List Char} {vs : List Value}
    (h : readValue fuel cs = some (v, ',' :: cs')) (h' : readItems fuel cs' = some (vs, rest)) :
    readItems (fuel + 1) cs = some (v :: vs, rest) := by
  rw [readItems, h]
  change (readItems fuel cs').bind _ = _
  rw [h']
  rfl

/-- Items are read one after the other, each with the fuel that those before it leave. -/
theorem readItems_listed {items : List (List Char × Value)} (hne : items ≠ [])
    (h : ∀ item ∈ items, ReadsAs need item.1 item.2) (hfuel : items.length + need ≤ fuel) :
    readItems fuel (listed (items.map Prod.fst) ++ ']' :: rest) =
      some (items.map Prod.snd, rest) := by
  induction items generalizing fuel with
  | nil => exact absurd rfl hne
  | cons item items ih =>
    rw [List.length_cons] at hfuel
    obtain ⟨fuel, rfl⟩ : ∃ k, fuel = k + 1 := Nat.exists_eq_add_of_le' (by omega)
    have hitem := h item List.mem_cons_self
    cases items with
    | nil =>
      rw [List.map_singleton, listed_singleton, List.map_singleton]
      exact readItems_last (hitem fuel _ (by omega) ends_bracket)
    | cons next items =>
      have hrest : readItems fuel (listed ((next :: items).map Prod.fst) ++ ']' :: rest) =
          some ((next :: items).map Prod.snd, rest) :=
        ih (List.cons_ne_nil next items) (fun i hi => h i (List.mem_cons_of_mem item hi)) (by omega)
      rw [List.map_cons, List.map_cons, listed_cons_cons, List.append_assoc, List.cons_append]
      exact readItems_more (hitem fuel _ (by omega) ends_comma) hrest

/-- No item begins with a closing bracket. -/
theorem readItems_bracket (h : skipBlanks cs = ']' :: rest) : readItems fuel cs = none := by
  cases fuel with
  | zero => rfl
  | succ fuel =>
    have hvalue : readValue fuel cs = none := by
      cases fuel with
      | zero => rfl
      | succ fuel =>
        rw [readValue, h]
        rfl
    rw [readItems, hvalue]
    rfl

/-- After an opening bracket items are read. -/
theorem readValue_bracket {vs : List Value} (h : readItems fuel cs = some (vs, rest)) :
    readValue (fuel + 1) ('[' :: cs) = some (.array vs, rest) := by
  have hopen : skipBlanks ('[' :: cs) = '[' :: cs := rfl
  simp only [readValue, hopen]
  split
  · rename_i hcs
    rw [readItems_bracket hcs] at h
    cases h
  · rw [h]
    rfl

theorem readsAs_array {items : List (List Char × Value)}
    (h : ∀ item ∈ items, ReadsAs need item.1 item.2) :
    ReadsAs (items.length + need + 1) ('[' :: listed (items.map Prod.fst) ++ [']'])
      (.array (items.map Prod.snd)) := by
  intro fuel rest hfuel _
  obtain ⟨fuel, rfl⟩ : ∃ k, fuel = k + 1 := Nat.exists_eq_add_of_le' (by omega)
  rw [List.cons_append, List.cons_append, List.append_assoc, List.singleton_append]
  cases items with
  | nil => rfl
  | cons item items =>
    exact readValue_bracket (readItems_listed (List.cons_ne_nil item items) h (by omega))

/-! ### Objects -/

/-- A member of an object: its key, and its value with the text that is written for it. -/
structure Member where
  key : String
  text : List Char
  value : Value

namespace Member

/-- A member as it is written. -/
def written (m : Member) : List Char := (Text.jsonString m.key).toList ++ ':' :: m.text

/-- A member as it is read. -/
def read (m : Member) : Option String × Value := (some m.key, m.value)

theorem written_append (m : Member) (rest : List Char) : m.written ++ rest =
    '"' :: ((m.key.toList.flatMap fun c => (Text.jsonEscape c).toList) ++
      '"' :: ':' :: (m.text ++ rest)) := by
  rw [written, toList_jsonString]
  simp

end Member

/-- A member is read up to what follows its value: a brace after the last one, -/
theorem readMembers_last {m : Member} {cs : List Char}
    (h : readValue fuel (m.text ++ cs) = some (m.value, '\x7d' :: rest)) :
    readMembers (fuel + 1) (m.written ++ cs) = some ([m.read], rest) := by
  rw [m.written_append, readMembers]
  change (readString _).bind _ = _
  rw [readString_jsonString]
  change (readValue fuel (m.text ++ cs)).bind _ = _
  rw [h]
  rfl

/-- and a comma before the next. -/
theorem readMembers_more {m : Member} {cs cs' : List Char} {members : List (Option String × Value)}
    (h : readValue fuel (m.text ++ cs) = some (m.value, ',' :: cs'))
    (h' : readMembers fuel cs' = some (members, rest)) :
    readMembers (fuel + 1) (m.written ++ cs) = some (m.read :: members, rest) := by
  rw [m.written_append, readMembers]
  change (readString _).bind _ = _
  rw [readString_jsonString]
  change (readValue fuel (m.text ++ cs)).bind _ = _
  rw [h]
  change (readMembers fuel cs').bind _ = _
  rw [h']
  rfl

/-- Members are read one after the other. -/
theorem readMembers_listed {members : List Member} (hne : members ≠ [])
    (h : ∀ m ∈ members, ReadsAs need m.text m.value) (hfuel : members.length + need ≤ fuel) :
    readMembers fuel (listed (members.map Member.written) ++ '\x7d' :: rest) =
      some (members.map Member.read, rest) := by
  induction members generalizing fuel with
  | nil => exact absurd rfl hne
  | cons m members ih =>
    rw [List.length_cons] at hfuel
    obtain ⟨fuel, rfl⟩ : ∃ k, fuel = k + 1 := Nat.exists_eq_add_of_le' (by omega)
    have hm := h m List.mem_cons_self
    cases members with
    | nil =>
      rw [List.map_singleton, listed_singleton, List.map_singleton]
      exact readMembers_last (hm fuel _ (by omega) ends_brace)
    | cons next members =>
      have hrest : readMembers fuel
          (listed ((next :: members).map Member.written) ++ '\x7d' :: rest) =
            some ((next :: members).map Member.read, rest) :=
        ih (List.cons_ne_nil next members) (fun i hi => h i (List.mem_cons_of_mem m hi)) (by omega)
      rw [List.map_cons, List.map_cons, listed_cons_cons, List.append_assoc, List.cons_append]
      exact readMembers_more (hm fuel _ (by omega) ends_comma) hrest

/-- Where there is a member, there is a quotation mark. -/
theorem exists_listed_written {members : List Member} (hne : members ≠ []) (rest : List Char) :
    ∃ cs, listed (members.map Member.written) ++ rest = '"' :: cs := by
  obtain ⟨m, members, rfl⟩ := List.exists_cons_of_ne_nil hne
  cases members with
  | nil =>
    rw [List.map_singleton, listed_singleton]
    exact ⟨_, m.written_append rest⟩
  | cons next members =>
    rw [List.map_cons, List.map_cons, listed_cons_cons, List.append_assoc]
    exact ⟨_, m.written_append _⟩

theorem readsAs_object {members : List Member} (hne : members ≠ [])
    (h : ∀ m ∈ members, ReadsAs need m.text m.value) : ReadsAs (members.length + need + 1)
      ('\x7b' :: listed (members.map Member.written) ++ ['\x7d'])
      (.object (members.map Member.read)) := by
  intro fuel rest hfuel _
  obtain ⟨fuel, rfl⟩ : ∃ k, fuel = k + 1 := Nat.exists_eq_add_of_le' (by omega)
  have hopen : ∀ cs, readValue (fuel + 1) ('\x7b' :: '"' :: cs) =
      (readMembers fuel ('"' :: cs)).map fun r => (.object r.1, r.2) := fun _ => rfl
  obtain ⟨cs, hcs⟩ := exists_listed_written hne ('\x7d' :: rest)
  rw [List.cons_append, List.cons_append, List.append_assoc, List.singleton_append, hcs, hopen,
    ← hcs, readMembers_listed hne h (by omega)]
  rfl

end LineCode.Json
