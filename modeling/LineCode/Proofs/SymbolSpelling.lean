import LineCode.Proofs.NumberForms

/-!
# Spellings of symbols

A text names a symbol when it is a letter for the alphabet and two decimal numbers with a
point between them, which are cut to the widths of the symbol's fields (`Symbol.Named`). A text
that names no symbol may still spell the number of an octet; then the alphabet is the one
that is asked for (`Symbol.ofText_eq_ok_iff`). Which texts are refused does not depend on it.
The name of every symbol names that symbol (`symbolSpelling_exact`).
-/

namespace LineCode

open Text (Digits normalize)

/-! ### Parts of names -/

section Parts

variable {cs : List Char} {n x y : Nat}

/-- Decimal digits are read if their number is one of 32 bits. -/
theorem decimal?_eq_some_iff (hcs : ∀ c ∈ cs, c.isUpper = false) :
    decimal? cs = some n ↔ Digits 10 cs n ∧ n < spellingBound := by
  unfold decimal?
  split
  · rename_i h
    rw [← Text.readDigits_zero_eq_ok_iff (by decide) (by decide) hcs h.1]
    cases Text.readDigits 10 spellingBound 0 cs <;> simp [Except.toOption]
  · rename_i h
    have hrange : ∀ d < 10, ('0' ≤ Nat.digitChar d && Nat.digitChar d ≤ '9') = true := by decide
    refine iff_of_false (by simp) fun hdigits => h ⟨hdigits.1.ne_nil, ?_⟩
    refine List.all_eq_true.2 fun c hc => ?_
    obtain ⟨d, hd, rfl⟩ := hdigits.1.exists_of_mem hc
    exact hrange d hd

/-- What comes before the first point is known, and what comes after it. -/
theorem span_point {xs : List Char} (h : '.' ∉ xs) (ys : List Char) :
    (xs ++ '.' :: ys).takeWhile (· ≠ '.') = xs ∧
      (xs ++ '.' :: ys).dropWhile (· ≠ '.') = '.' :: ys := by
  have hxs : ∀ c ∈ xs, decide (c ≠ '.') = true := fun c hc =>
    decide_eq_true fun heq => h (heq ▸ hc)
  rw [List.takeWhile_append_of_pos hxs, List.dropWhile_append_of_pos hxs]
  simp

/-- Two numbers with a point between them are read as two numbers. -/
theorem nameParts?_eq_some_iff (hcs : ∀ c ∈ cs, c.isUpper = false) :
    nameParts? cs = some (x, y) ↔ ∃ xs ys, cs = xs ++ '.' :: ys ∧
      (Digits 10 xs x ∧ x < spellingBound) ∧ Digits 10 ys y ∧ y < spellingBound := by
  constructor
  · intro h
    unfold nameParts? at h
    split at h
    · rename_i ys hys
      obtain ⟨x', hx, h⟩ := Option.bind_eq_some_iff.1 h
      obtain ⟨y', hy, h⟩ := Option.map_eq_some_iff.1 h
      cases h
      have hcut : cs = cs.takeWhile (· ≠ '.') ++ '.' :: ys := by
        rw [← hys, List.takeWhile_append_dropWhile]
      refine ⟨_, ys, hcut, (decimal?_eq_some_iff fun c hc => ?_).1 hx,
        (decimal?_eq_some_iff fun c hc => ?_).1 hy⟩
      · exact hcs c (hcut ▸ List.mem_append_left _ hc)
      · exact hcs c (hcut ▸ List.mem_append_right _ (List.mem_cons_of_mem _ hc))
    · cases h
  · rintro ⟨xs, ys, rfl, hx, hy⟩
    have hpoint : '.' ∉ xs := hx.1.not_mem (by decide) (by decide)
    obtain ⟨htake, hdrop⟩ := span_point hpoint ys
    have hx' : decimal? xs = some x :=
      (decimal?_eq_some_iff fun c hc => hcs c (List.mem_append_left _ hc)).2 hx
    have hy' : decimal? ys = some y :=
      (decimal?_eq_some_iff fun c hc =>
        hcs c (List.mem_append_right _ (List.mem_cons_of_mem _ hc))).2 hy
    unfold nameParts?
    have hpair : (decimal? ys).map (fun y => (x, y)) = some (x, y) := by
      rw [hy']
      rfl
    rw [hdrop, htake, hx']
    exact hpair

end Parts

/-! ### Names -/

namespace Symbol

variable {t cs : List Char} {text : String} {control : Bool} {s : Symbol} {n : Nat}

/-- `cs` is two decimal numbers of 32 bits with a point between them, and the fields of an octet
have their low bits: the low field those of the first number, the high field of the second. -/
def Parts (cs : List Char) (value : BitVec 8) : Prop :=
  ∃ xs ys x y, cs = xs ++ '.' :: ys ∧ (Digits 10 xs x ∧ x < UInt32.size) ∧
    (Digits 10 ys y ∧ y < UInt32.size) ∧ value.toNat = y % 8 * 32 + x % 32

/-- The small letter of a symbol's alphabet. -/
def smallLetter (s : Symbol) : Char := if s.control then 'k' else 'd'

/-- The text `t`, which is in small letters, names the symbol `s`. -/
def Named (t : List Char) (s : Symbol) : Prop := ∃ cs, t = s.smallLetter :: cs ∧ Parts cs s.value

theorem toNat_ofXY (x y : Nat) (control : Bool) :
    (ofXY x y control).value.toNat = y % 8 * 32 + x % 32 := by
  have hx : x % 32 < 2 ^ 5 := Nat.mod_lt x (by decide)
  rw [ofXY, BitVec.toNat_append, BitVec.toNat_ofNat, BitVec.toNat_ofNat,
    ← Nat.shiftLeft_add_eq_or_of_lt hx, Nat.shiftLeft_eq]

/-- Two parts are read as the fields of a symbol. -/
theorem map_nameParts?_eq_some_iff (hcs : ∀ c ∈ cs, c.isUpper = false) :
    ((nameParts? cs).map fun (x, y) => ofXY x y control) = some s ↔
      s.control = control ∧ Parts cs s.value := by
  rw [Option.map_eq_some_iff]
  constructor
  · rintro ⟨⟨x, y⟩, h, rfl⟩
    obtain ⟨xs, ys, hcut, hx, hy⟩ := (nameParts?_eq_some_iff hcs).1 h
    exact ⟨rfl, xs, ys, x, y, hcut, hx, hy, toNat_ofXY x y control⟩
  · rintro ⟨rfl, xs, ys, x, y, hcut, hx, hy, hvalue⟩
    refine ⟨(x, y), (nameParts?_eq_some_iff hcs).2 ⟨xs, ys, hcut, hx, hy⟩, ?_⟩
    have hsame : (ofXY x y s.control).value = s.value := by
      rw [← BitVec.toNat_inj, toNat_ofXY, hvalue]
    exact congrArg (mk · s.control) hsame

theorem named_cons_iff (control : Bool) : Named ((if control then 'k' else 'd') :: cs) s ↔
    s.control = control ∧ Parts cs s.value := by
  have hletter : (if control then 'k' else 'd') = s.smallLetter ↔ s.control = control := by
    obtain ⟨v, b⟩ := s
    cases control <;> cases b <;> simp [smallLetter]
  unfold Named
  constructor
  · rintro ⟨cs', heq, hparts⟩
    obtain ⟨hfirst, rfl⟩ := List.cons.inj heq
    exact ⟨hletter.1 hfirst, hparts⟩
  · rintro ⟨hcontrol, hparts⟩
    exact ⟨cs, by rw [hletter.2 hcontrol], hparts⟩

/-- The names that are read are those of symbols. -/
theorem ofName?_eq_some_iff (ht : ∀ c ∈ t, c.isUpper = false) :
    ofName? t = some s ↔ Named t s := by
  unfold ofName?
  split
  · rename_i cs
    rw [map_nameParts?_eq_some_iff fun c hc => ht c (List.mem_cons_of_mem _ hc)]
    exact (named_cons_iff false).symm
  · rename_i cs
    rw [map_nameParts?_eq_some_iff fun c hc => ht c (List.mem_cons_of_mem _ hc)]
    exact (named_cons_iff true).symm
  · rename_i hd hk
    refine iff_of_false (by simp) ?_
    rintro ⟨cs, rfl, -⟩
    unfold smallLetter at hd hk
    cases hcontrol : s.control <;> rw [hcontrol] at hd hk
    · exact hd cs rfl
    · exact hk cs rfl

/-! ### Octets -/

/-- A text for an octet has eight bits or two hexadecimal digits. -/
theorem form_octetForm (t : List Char) : Form 8 2 t (octetForm t).1 (octetForm t).2 := by
  unfold octetForm
  simp only [Text.byteLength_eq]
  split
  · exact .markedBinary ‹_›
  · exact .markedHex ‹_›
  · exact .hex ‹_›
  · exact .binary ‹_›
  · exact .decimal ‹_› ‹_› ‹_› ‹_›

/-- What reading a symbol can come to: the text is a name, or its digits are no numeral, or one of
a number that is too large, or the numeral of an octet. -/
theorem ofText_cases (text : String) (control : Bool) {base : Nat} {digits : List Char}
    (hform : octetForm (normalize text) = (base, digits)) :
    (∃ s, ofName? (normalize text) = some s ∧ ofText text control = .ok s) ∨
    ofName? (normalize text) = none ∧
      ((∃ f, Text.readNumeral base spellingBound digits = .error f ∧
        ofText text control = .error ⟨text, .numeral f⟩) ∨
      (∃ n, Text.readNumeral base spellingBound digits = .ok n ∧ 256 ≤ n ∧
        ofText text control = .error ⟨text, .symbolTooWide⟩) ∨
      ∃ v : BitVec 8, Text.readNumeral base spellingBound digits = .ok v.toNat ∧
        ofText text control = .ok ⟨v, control⟩) := by
  unfold ofText
  dsimp only
  rw [hform]
  cases ofName? (normalize text) with
  | some s => exact .inl ⟨s, rfl, rfl⟩
  | none =>
    refine .inr ⟨rfl, ?_⟩
    dsimp only
    cases Text.readNumeral base spellingBound digits with
    | error f => exact .inl ⟨f, rfl, rfl⟩
    | ok n =>
      dsimp only
      by_cases hn : n < 256
      · have hv : (BitVec.ofNat 8 n).toNat = n := Nat.mod_eq_of_lt hn
        rw [if_pos hn]
        exact .inr (.inr ⟨.ofNat 8 n, by rw [hv], rfl⟩)
      · rw [if_neg hn]
        exact .inr (.inl ⟨n, rfl, Nat.le_of_not_lt hn, rfl⟩)

theorem ofName?_normalize_eq_some_iff :
    ofName? (normalize text) = some s ↔ Named (normalize text) s :=
  ofName?_eq_some_iff fun _ hc => Text.isUpper_of_mem_normalize hc

/-- A name says all of its symbol. -/
theorem ofText_of_named (h : Named (normalize text) s) : ofText text control = .ok s := by
  have hname := ofName?_normalize_eq_some_iff.2 h
  obtain ⟨s', hs', htext⟩ | ⟨hnone, -⟩ := ofText_cases text control rfl
  · rw [htext, Option.some.inj (hs'.symm.trans hname)]
  · rw [hnone] at hname
    cases hname

/-- From a text that is no name the symbol is read whose octet's number it spells, in the alphabet
that is asked for. -/
theorem ofText_eq_ok_iff_of_not_named (h : ∀ s', ¬ Named (normalize text) s') :
    ofText text control = .ok s ↔
      Spells 8 2 (normalize text) s.value.toNat ∧ s.control = control := by
  have hbound : s.value.toNat < spellingBound := s.value.isLt.trans (by decide)
  have hform := form_octetForm (normalize text)
  generalize hparts : octetForm (normalize text) = parts at hform
  obtain ⟨base, digits⟩ := parts
  rw [← and_iff_left (a := Spells 8 2 (normalize text) s.value.toNat) hbound,
    ← hform.readNumeral_eq_ok_iff (by decide)]
  obtain ⟨s', hs', -⟩ | ⟨-, hrest⟩ := ofText_cases text control hparts
  · exact absurd (ofName?_normalize_eq_some_iff.1 hs') (h s')
  obtain ⟨f, hread, htext⟩ | ⟨n, hread, hn, htext⟩ | ⟨v, hread, htext⟩ := hrest
  · rw [hread, htext]
    simp
  · rw [hread, htext, Except.ok.injEq]
    refine iff_of_false (by simp) fun hs => ?_
    exact absurd s.value.isLt (Nat.not_lt.2 (hs.1 ▸ hn))
  · rw [hread, htext, Except.ok.injEq, Except.ok.injEq, BitVec.toNat_inj]
    obtain ⟨v', control'⟩ := s
    rw [mk.injEq, eq_comm (a := control)]

/-- A symbol is read from its names, and from the texts that are no names and spell its octet. -/
theorem ofText_eq_ok_iff : ofText text control = .ok s ↔ Named (normalize text) s ∨
    (∀ s', ¬ Named (normalize text) s') ∧ Spells 8 2 (normalize text) s.value.toNat ∧
      s.control = control := by
  by_cases h : ∃ s', Named (normalize text) s'
  · obtain ⟨s', hs'⟩ := h
    rw [ofText_of_named hs', Except.ok.injEq]
    constructor
    · rintro rfl
      exact .inl hs'
    · rintro (hs | ⟨hnone, -⟩)
      · have hread : ofText text control = .ok s := ofText_of_named hs
        rw [ofText_of_named hs'] at hread
        exact Except.ok.inj hread
      · exact absurd hs' (hnone s')
  · have hnone : ∀ s', ¬ Named (normalize text) s' := fun s' hs' => h ⟨s', hs'⟩
    rw [ofText_eq_ok_iff_of_not_named hnone]
    constructor
    · exact fun hs => .inr ⟨hnone, hs⟩
    · rintro (hs | ⟨-, hs⟩)
      · exact absurd hs (hnone s)
      · exact hs

/-- Without a point the letter of an alphabet is a digit. -/
example : (ofText " D1" true).toOption = some ⟨0xD1, true⟩ := by decide

/-- A refusal says which text has been refused. -/
theorem text_of_ofText_eq_error {f : SpellingFault} (h : ofText text control = .error f) :
    f.text = text := by
  obtain ⟨_, -, htext⟩ | ⟨-, ⟨_, -, htext⟩ | ⟨_, -, -, htext⟩ | ⟨_, -, htext⟩⟩ :=
    ofText_cases text control rfl <;> rw [htext] at h <;> cases h <;> rfl

/-- Texts that neither name a symbol nor spell the number of an octet are refused. -/
theorem exists_ofText_eq_error_iff : (∃ cause, ofText text control = .error ⟨text, cause⟩) ↔
    (∀ s, ¬ Named (normalize text) s) ∧ ∀ n < 256, ¬ Spells 8 2 (normalize text) n := by
  constructor
  · rintro ⟨cause, h⟩
    have hnone : ∀ s, ¬ Named (normalize text) s := by
      intro s hs
      rw [ofText_of_named hs] at h
      cases h
    refine ⟨hnone, fun n hn hspells => ?_⟩
    have hv : (BitVec.ofNat 8 n).toNat = n := Nat.mod_eq_of_lt hn
    have hok := (ofText_eq_ok_iff_of_not_named (s := ⟨.ofNat 8 n, control⟩) hnone).2
      ⟨hv.symm ▸ hspells, rfl⟩
    rw [hok] at h
    cases h
  · rintro ⟨hnone, hnumber⟩
    cases hf : ofText text control with
    | error f => exact ⟨f.cause, by rw [← text_of_ofText_eq_error hf]⟩
    | ok s =>
      obtain ⟨hspells, -⟩ := (ofText_eq_ok_iff_of_not_named hnone).1 hf
      exact absurd hspells (hnumber s.value.toNat s.value.isLt)

/-- The alphabet that is asked for decides neither whether a text is read nor which octet it is, nor
what is said when it is refused. -/
theorem map_value_ofText (text : String) (control control' : Bool) :
    (ofText text control).map value = (ofText text control').map value := by
  unfold ofText
  dsimp only
  cases ofName? (normalize text) with
  | some s => rfl
  | none =>
    dsimp only
    cases Text.readNumeral (octetForm (normalize text)).1 spellingBound
      (octetForm (normalize text)).2 with
    | error f => rfl
    | ok n =>
      dsimp only
      split <;> rfl

/-! ### Printed names -/

theorem toList_name (s : Symbol) : s.name.toList = (if s.control then 'K' else 'D') ::
    (Nat.toDigits 10 s.x.toNat ++ '.' :: Nat.toDigits 10 s.y.toNat) := by
  have hletter : s.letter.toList = [if s.control then 'K' else 'D'] := by
    unfold letter
    split <;> rfl
  have hdigits : ∀ n : Nat, (toString n).toList = Nat.toDigits 10 n := fun _ => Nat.toList_repr
  have hpoint : ".".toList = ['.'] := rfl
  simp only [name, String.toList_append, hletter, hdigits, hpoint, List.append_assoc,
    List.cons_append, List.nil_append]

/-- Digits are plain characters, so only the letter of a name can be a capital one. -/
theorem map_toLower_name (s : Symbol) : s.name.toList.map Char.toLower =
    s.smallLetter :: (Nat.toDigits 10 s.x.toNat ++ '.' :: Nat.toDigits 10 s.y.toNat) := by
  have hletter : (if s.control then 'K' else 'D').toLower = s.smallLetter := by
    unfold smallLetter
    split <;> decide
  have hdigits : ∀ n, (Nat.toDigits 10 n).map Char.toLower = Nat.toDigits 10 n := fun n =>
    (List.map_congr_left fun _ hc => ((Text.digits_toDigits (by decide) n).plain (by decide)
      hc).toLower_eq).trans (List.map_id _)
  have hpoint : '.'.toLower = '.' := by decide
  rw [toList_name, List.map_cons, List.map_append, List.map_cons, hletter, hdigits, hdigits, hpoint]

/-- The name of a symbol, in small letters, names it. -/
theorem named_name (s : Symbol) : Named (s.name.toList.map Char.toLower) s := by
  refine ⟨_, map_toLower_name s, _, _, s.x.toNat, s.y.toNat, rfl,
    ⟨Text.digits_toDigits (by decide) _, s.x.isLt.trans (by decide)⟩,
    ⟨Text.digits_toDigits (by decide) _, s.y.isLt.trans (by decide)⟩, ?_⟩
  rw [← toNat_ofXY _ _ s.control, ofXY_x_y]

/-- A symbol is read from its name. -/
theorem ofText_name (h : Text.Variant s.name text) : ofText text control = .ok s := by
  have hclear : ∀ c ∈ s.name.toList, Text.isBlank c = false := by
    have hletter : Text.isBlank (if s.control then 'K' else 'D') = false := by split <;> decide
    have hdigits : ∀ n, ∀ c ∈ Nat.toDigits 10 n, Text.isBlank c = false := fun n _ hc =>
      ((Text.digits_toDigits (by decide) n).plain (by decide) hc).not_blank
    rw [toList_name]
    simp only [List.forall_mem_cons, List.forall_mem_append]
    exact ⟨hletter, hdigits _, by decide, hdigits _⟩
  refine ofText_of_named ?_
  rw [Text.normalize_of_variant h hclear]
  exact named_name s

end Symbol

/-! ### Reading and printing -/

/-- What is read from `text` as a symbol, `t` being the text when it is normalized. -/
structure ReadsSymbol (text : String) (t : List Char) : Prop where
  /-- Blanks at the ends and the size of letters do not matter. -/
  normal : Text.NormalOf text.toList t
  /-- A name is read as the symbol that it names. Another text is read as the symbol of the octet
  whose number it spells, in the alphabet that is asked for. -/
  ok_iff : ∀ control s, Symbol.ofText text control = .ok s ↔ Symbol.Named t s ∨
    (∀ s', ¬ Symbol.Named t s') ∧ Spells 8 2 t s.value.toNat ∧ s.control = control
  /-- The text is refused when it neither names a symbol nor spells a number below 256. -/
  error_iff : ∀ control, (∃ cause, Symbol.ofText text control = .error ⟨text, cause⟩) ↔
    (∀ s, ¬ Symbol.Named t s) ∧ ∀ n < 256, ¬ Spells 8 2 t n
  /-- Whether it is refused, and what is said then, does not depend on what is asked for. -/
  control : ∀ control control', (Symbol.ofText text control).map Symbol.value =
    (Symbol.ofText text control').map Symbol.value

/-- The name of a symbol is read as the symbol, between blanks and in letters of any size, whatever
alphabet is asked for. -/
def ReadsName (s : Symbol) : Prop :=
  ∀ text control, Text.Variant s.name text → Symbol.ofText text control = .ok s

/-- **Symbols**: of all texts those are read as a symbol that name it, the name that is printed of
it among them, and of the others those that spell the number of its octet, if its alphabet is
asked for. Others are refused. -/
theorem symbolSpelling_exact :
    (∀ text, ReadsSymbol text (normalize text)) ∧ ∀ s, ReadsName s := by
  refine ⟨fun text => ?_, fun s text control h => Symbol.ofText_name h⟩
  exact {
    normal := Text.normalize_eq_iff.1 rfl
    ok_iff := fun _ _ => Symbol.ofText_eq_ok_iff
    error_iff := fun _ => Symbol.exists_ofText_eq_error_iff
    control := Symbol.map_value_ofText text }

end LineCode
