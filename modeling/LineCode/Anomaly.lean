import LineCode.Codec

/-!
# Anomalies

Every word of a table has a set of producers: the facts of the code that send it. A word
with one producer is harmless, and so is a balanced word that one symbol uses from both
disparities. Any other word is an anomaly of the table; the worst of them mean that a
receiver cannot tell two symbols apart.

The analysis looks at a table alone, so tables without a codec can be diagnosed too.
-/

namespace LineCode

/-! ### Producers -/

/-- One way in which a word is sent. -/
structure Producer where
  rdIn : Disparity
  symbol : Symbol
  rdOut : Disparity
deriving DecidableEq

/-- The way in which a fact of the code sends its word. -/
def Production.producer (p : Production) : Producer := ⟨p.rdIn, p.symbol, p.rdOut⟩

namespace Producer

/-- The place of a producer in order: by entering disparity, octet, control flag and exit
disparity. -/
def rank (p : Producer) : Nat :=
  ((p.rdIn.index * 256 + p.symbol.value.toNat) * 2 + p.symbol.control.toNat) * 2 + p.rdOut.index

/-- `(rd=0 K28.5 (0xbc) -> rd=1)`. -/
def text (p : Producer) : String :=
  "(rd=" ++ p.rdIn.text ++ " " ++ p.symbol.describe ++ " -> rd=" ++ p.rdOut.text ++ ")"

/-- Producers in order, repetitions kept. -/
def sort (ps : List Producer) : List Producer := ps.mergeSort fun p q => p.rank ≤ q.rank

/-- Puts a producer into an ordered list, unless it is there. -/
def insert (p : Producer) : List Producer → List Producer
  | [] => [p]
  | q :: qs =>
    if p.rank < q.rank then p :: q :: qs
    else if p.rank = q.rank then q :: qs
    else q :: insert p qs

/-- No two producers have the same place. -/
theorem rank_inj {p q : Producer} : p.rank = q.rank ↔ p = q := by
  refine ⟨fun h => ?_, fun h => h ▸ rfl⟩
  obtain ⟨d, ⟨v, c⟩, e⟩ := p
  obtain ⟨d', ⟨v', c'⟩, e'⟩ := q
  have hv := v.isLt
  have hv' := v'.isLt
  have hc := c.toNat_lt
  have hc' := c'.toNat_lt
  have he := e.index_lt
  have he' := e'.index_lt
  simp only [rank] at h
  have hout : e = e' := Disparity.index_inj.1 (by omega)
  have hflag : c.toNat = c'.toNat := by omega
  have hcontrol : c = c' :=
    Bool.eq_iff_iff.2 (by rw [← Bool.toNat_eq_one, hflag, Bool.toNat_eq_one])
  have hvalue : v = v' := BitVec.eq_of_toNat_eq (by omega)
  have hin : d = d' := Disparity.index_inj.1 (by omega)
  rw [hout, hcontrol, hvalue, hin]

end Producer

/-- The ordered set of producers of a word among the facts of a code. -/
def producersIn (ps : List Production) (w : Codeword) : List Producer :=
  ((ps.filter (·.word = w)).map Production.producer).foldr Producer.insert []

/-- The ordered set of producers of a word. -/
def Table.producers (t : Table) (w : Codeword) : List Producer := producersIn t.productions w

/-- The words that some symbol is sent as, in ascending order. -/
def Table.usedWords (t : Table) : List Codeword :=
  let ps := t.productions
  Codeword.all.filter fun w => !(producersIn ps w).isEmpty

/-! ### Kinds -/

/-- Which anomalies make a table fail. -/
inductive FailPolicy
  /-- Those that make a word stand for two symbols. -/
  | differentDecode
  /-- All. -/
  | any
deriving DecidableEq

/-- What is wrong with the producers of a word. -/
inductive AnomalyKind
  /-- Two symbols. -/
  | differentDecode
  /-- One symbol from both disparities, leaving in the same one. -/
  | notAlwaysSwap
  /-- One symbol twice from one disparity, or changing both. -/
  | alwaysChanges
  /-- Three producers or more. -/
  | tooManyProducers
deriving DecidableEq

namespace AnomalyKind

/-- Whether a receiver cannot tell what the word means. -/
def isCorrectnessFailure : AnomalyKind → Bool
  | .differentDecode | .tooManyProducers => true
  | .notAlwaysSwap | .alwaysChanges => false

/-- Whether an anomaly of this kind makes a table fail. -/
def fails (k : AnomalyKind) : FailPolicy → Bool
  | .differentDecode => k.isCorrectnessFailure
  | .any => true

/-- What an anomaly of this kind is called. -/
def label : AnomalyKind → String
  | .differentDecode => "different decode"
  | .notAlwaysSwap => "not always swap"
  | .alwaysChanges => "rd always changes"
  | .tooManyProducers => "too many producers"

/-- What is wrong with a word that has two producers, if anything. -/
def ofPair (a b : Producer) : Option AnomalyKind :=
  if a.symbol ≠ b.symbol then some .differentDecode
  else if a.rdIn = a.rdOut ∧ b.rdIn = b.rdOut then none
  else if a.rdIn ≠ b.rdIn ∧ a.rdOut = b.rdOut then some .notAlwaysSwap
  else some .alwaysChanges

/-- What is wrong with a word that has these producers, if anything. -/
def ofProducers : List Producer → Option AnomalyKind
  | [] | [_] => none
  | [a, b] => ofPair a b
  | _ => some .tooManyProducers

end AnomalyKind

/-! ### Anomalies -/

/-- A word whose producers contradict each other. -/
structure Anomaly where
  word : Codeword
  kind : AnomalyKind
  producers : List Producer
deriving DecidableEq

/-- The kind, the word and the producers. -/
def Anomaly.text (a : Anomaly) : String :=
  a.kind.label ++ " " ++ a.word.text ++ String.join (a.producers.map fun p => " " ++ p.text)

/-- The anomaly of a word, if its producers make one. -/
def anomalyIn (ps : List Production) (w : Codeword) : Option Anomaly :=
  let producers := producersIn ps w
  (AnomalyKind.ofProducers producers).map fun kind => ⟨w, kind, producers⟩

/-- The anomalies of a table, in ascending order of their words. -/
def Table.anomalies (t : Table) : List Anomaly :=
  let ps := t.productions
  Codeword.all.filterMap (anomalyIn ps)

end LineCode
