import LineCode.Table

/-!
# Codecs

A codec answers both questions about a code table: which word a symbol is sent as
(`encode`), and which symbol a word stands for (`decode`). Both answers are looked up in
flat arrays that are filled once from the productions of the table. The array of the
encoder is addressed by entering disparity, control flag and octet, the array of the
decoder by entering disparity and word.

A table in which two symbols have the same word for the same entering disparity has no
codec: `Maps.ofProductions` stops at the first production whose word is taken. When no
word is taken twice the maps exist (`Maps.exists_ofProductions`).
-/

namespace LineCode

/-! ### Answers -/

/-- The word that a symbol is sent as, and the disparity after it. -/
structure Encoded where
  word : Codeword
  rd : Disparity
deriving DecidableEq

/-- The symbol that a word stands for when it is entered in `prior`. -/
structure Decoded where
  symbol : Symbol
  /-- The entering disparity that the word was decoded under. -/
  prior : Disparity
  /-- The disparity after the word. -/
  rd : Disparity
  changed : Bool
  /-- The word is legal, but the detector fired on the way. -/
  disparityError : Bool
deriving DecidableEq

/-- A symbol that the table does not list. -/
structure Unsupported where
  symbol : Symbol
deriving DecidableEq

/-- A word that stands for no symbol when it is entered in `rd`. -/
structure Rejected where
  word : Codeword
  rd : Disparity
  /-- Whether the detector fired too. -/
  disparityError : Bool
deriving DecidableEq

/-- What is said of a symbol that is not listed. -/
def Unsupported.message (u : Unsupported) : String := "unsupported symbol " ++ u.symbol.describe

/-- What is said of a word that stands for nothing; the detector is mentioned only if it fired. -/
def Rejected.message (r : Rejected) : String :=
  "invalid codeword " ++ r.word.text ++ " at rd=" ++ r.rd.text ++
    if r.disparityError then " (disparity error)" else ""

/-! ### Addresses -/

/-- The place of a symbol among the words for it: entering disparity, flag, octet. -/
def encodeAddress (s : Symbol) (rd : Disparity) : Fin 1024 :=
  (BitVec.ofBool rd.isPositive ++ BitVec.ofBool s.control ++ s.value).toFin

/-- The place of a word among the symbols for it: entering disparity, word. -/
def decodeAddress (w : Codeword) (rd : Disparity) : Fin 2048 :=
  (BitVec.ofBool rd.isPositive ++ w.bits).toFin

/-- The symbol and the entering disparity that an address is the place of. -/
def Symbol.ofAddress (a : Fin 1024) : Symbol × Disparity :=
  let bits : BitVec 10 := .ofFin a
  (⟨bits.setWidth 8, bits.getLsbD 8⟩, .ofBit (bits.getLsbD 9))

theorem append_inj {m n : Nat} {a b : BitVec m} {x y : BitVec n} (h : a ++ x = b ++ y) :
    a = b ∧ x = y := by
  constructor <;> refine BitVec.eq_of_getLsbD_eq fun i hi => ?_
  · have := congrArg (·.getLsbD (n + i)) h
    simpa [BitVec.getLsbD_append, show ¬ n + i < n by omega] using this
  · have := congrArg (·.getLsbD i) h
    simpa [BitVec.getLsbD_append, hi] using this

theorem ofBool_inj {a b : Bool} : BitVec.ofBool a = BitVec.ofBool b ↔ a = b := by
  cases a <;> cases b <;> decide

theorem encodeAddress_inj {s t : Symbol} {d e : Disparity} :
    encodeAddress s d = encodeAddress t e ↔ s = t ∧ d = e := by
  refine ⟨fun h => ?_, fun ⟨hs, hd⟩ => hs ▸ hd ▸ rfl⟩
  obtain ⟨h₁, hv⟩ := append_inj (BitVec.toFin_inj.1 h)
  obtain ⟨hd, hc⟩ := append_inj h₁
  cases s; cases t
  exact ⟨Symbol.mk.injEq .. ▸ ⟨hv, ofBool_inj.1 hc⟩, Disparity.isPositive_inj.1 (ofBool_inj.1 hd)⟩

theorem decodeAddress_inj {v w : Codeword} {d e : Disparity} :
    decodeAddress v d = decodeAddress w e ↔ v = w ∧ d = e := by
  refine ⟨fun h => ?_, fun ⟨hs, hd⟩ => hs ▸ hd ▸ rfl⟩
  obtain ⟨hd, hv⟩ := append_inj (BitVec.toFin_inj.1 h)
  cases v; cases w
  exact ⟨congrArg Codeword.mk hv, Disparity.isPositive_inj.1 (ofBool_inj.1 hd)⟩

/-! ### Maps -/

/-- An array with a new value at one place. -/
def put {α : Type} {n : Nat} (v : Vector α n) (i : Fin n) (x : α) : Vector α n :=
  v.set i x i.isLt

theorem get_put {α : Type} {n : Nat} (v : Vector α n) (i j : Fin n) (x : α) :
    (put v i x).get j = if i = j then x else v.get j := by
  have hget : ∀ u : Vector α n, u.get j = u[j.val] := fun _ => rfl
  simp only [hget, put, Vector.getElem_set, Fin.val_inj]

theorem get_replicate {α : Type} {n : Nat} (x : α) (i : Fin n) :
    (Vector.replicate n x).get i = x := by
  simp [Vector.get]

/-- What the decoder finds at an address. -/
structure Slot where
  symbol : Symbol
  rdOut : Disparity
deriving DecidableEq

/-- Both directions of a code, each in a flat array. -/
structure Maps where
  forward : Vector (Option Encoded) 1024
  reverse : Vector (Option Slot) 2048

namespace Maps

/-- No symbol has a word, no word has a symbol. -/
def empty : Maps := ⟨Vector.replicate 1024 none, Vector.replicate 2048 none⟩

/-- Enters a production, unless another symbol has taken its word. -/
def add (m : Maps) (p : Production) : Except TableFault Maps :=
  match m.reverse.get (decodeAddress p.word p.rdIn) with
  | some taken => .error (.ambiguousWord p.word p.rdIn taken.symbol p.symbol)
  | none => .ok
    { forward := put m.forward (encodeAddress p.symbol p.rdIn) (some ⟨p.word, p.rdOut⟩)
      reverse := put m.reverse (decodeAddress p.word p.rdIn) (some ⟨p.symbol, p.rdOut⟩) }

/-- Enters productions one by one, up to the first that finds its word taken. -/
def addAll : Maps → List Production → Except TableFault Maps
  | m, [] => .ok m
  | m, p :: ps => (m.add p).bind (addAll · ps)

/-- The maps of a code's productions. -/
def ofProductions (ps : List Production) : Except TableFault Maps := empty.addAll ps

/-- A production is entered exactly when its word is not taken. -/
theorem exists_add_iff {m : Maps} {p : Production} :
    (∃ m', m.add p = .ok m') ↔ m.reverse.get (decodeAddress p.word p.rdIn) = none := by
  unfold add
  split <;> simp_all

/-- Entering a production takes its word and no other. -/
theorem reverse_of_add {m m' : Maps} {p : Production} (h : m.add p = .ok m') (a : Fin 2048) :
    m'.reverse.get a =
      if decodeAddress p.word p.rdIn = a then some ⟨p.symbol, p.rdOut⟩ else m.reverse.get a := by
  unfold add at h
  split at h
  · cases h
  · cases h
    exact get_put ..

/-- Entering a production gives its symbol a word and changes no other. -/
theorem forward_of_add {m m' : Maps} {p : Production} (h : m.add p = .ok m') (a : Fin 1024) :
    m'.forward.get a =
      if encodeAddress p.symbol p.rdIn = a then some ⟨p.word, p.rdOut⟩ else m.forward.get a := by
  unfold add at h
  split at h
  · cases h
  · cases h
    exact get_put ..

/-- Productions can all be entered when no word is claimed twice or taken before. -/
theorem exists_addAll {m : Maps} {ps : List Production} (hnd : (ps.map Production.claim).Nodup)
    (hm : ∀ p ∈ ps, m.reverse.get (decodeAddress p.word p.rdIn) = none) :
    ∃ m', m.addAll ps = .ok m' := by
  induction ps generalizing m with
  | nil => exact ⟨m, rfl⟩
  | cons p ps ih =>
    obtain ⟨m₁, h₁⟩ := exists_add_iff.2 (hm p (by simp))
    rw [List.map_cons, List.nodup_cons] at hnd
    obtain ⟨m', h'⟩ := ih (m := m₁) hnd.2 fun q hq => by
      rw [reverse_of_add h₁, if_neg, hm q (by simp [hq])]
      intro h
      obtain ⟨hw, hd⟩ := decodeAddress_inj.1 h
      exact hnd.1 (List.mem_map.2 ⟨q, hq, by simp [Production.claim, hw, hd]⟩)
    exact ⟨m', by simp [addAll, h₁, Except.bind, h']⟩

/-- A code that claims no word twice has maps. -/
theorem exists_ofProductions {ps : List Production} (hnd : (ps.map Production.claim).Nodup) :
    ∃ m, ofProductions ps = .ok m :=
  exists_addAll hnd fun _ _ => get_replicate ..

end Maps

/-! ### Codecs -/

/-- A table with the maps of its productions, and the detector that annotates what is decoded. -/
structure Codec where
  table : Table
  maps : Maps
  maps_eq : Maps.ofProductions table.productions = .ok maps
  detector : Detector

namespace Codec

/-- The codec of a table, with the strict detector, unless two symbols share a word. -/
def ofTable (t : Table) : Except TableFault Codec :=
  match h : Maps.ofProductions t.productions with
  | .ok m => .ok ⟨t, m, h, .strict⟩
  | .error f => .error f

/-- The codec of a table that is known to claim no word twice. -/
def ofClearTable (t : Table) (h : (t.productions.map Production.claim).Nodup) : Codec :=
  match hm : Maps.ofProductions t.productions with
  | .ok m => ⟨t, m, hm, .strict⟩
  | .error f => absurd (Maps.exists_ofProductions h) (by simp [hm])

/-- The same codec with another detector. -/
def withDetector (c : Codec) (d : Detector) : Codec := { c with detector := d }

/-- The word for a symbol that enters in `rd`. -/
def encode (c : Codec) (s : Symbol) (rd : Disparity) : Except Unsupported Encoded :=
  match c.maps.forward.get (encodeAddress s rd) with
  | some e => .ok e
  | none => .error ⟨s⟩

/-- The symbol that a word entered in `rd` stands for. Only what the table lists for `rd` counts;
the detector looks at the word either way. -/
def decode (c : Codec) (w : Codeword) (rd : Disparity) : Except Rejected Decoded :=
  let disparityError := c.detector.flags rd w
  match c.maps.reverse.get (decodeAddress w rd) with
  | some slot => .ok ⟨slot.symbol, rd, slot.rdOut, slot.rdOut ≠ rd, disparityError⟩
  | none => .error ⟨w, rd, disparityError⟩

/-- What a word stands for under one entering disparity, or under both when none is given. -/
def decodeEach (c : Codec) (w : Codeword) (rd : Option Disparity) :
    List (Disparity × Except Rejected Decoded) :=
  (rd.elim Disparity.all ([·])).map fun d => (d, c.decode w d)

/-- Whether a word stands for a symbol when it is entered in `rd`. -/
def isValid (c : Codec) (w : Codeword) (rd : Disparity) : Bool :=
  (c.maps.reverse.get (decodeAddress w rd)).isSome

end Codec

end LineCode
