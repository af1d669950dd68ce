import LineCode.Toml.Value

/-!
# TOML documents

A document is a list of entries, then sections, each with a header and entries of its
own. A header names a table by a path (`[a.b]`) or starts the next element of an array
of tables (`[[a.b]]`); what follows belongs to that element until the array is named
again. `Document.consistent` says that the headers agree with each other: no table is
named twice and none is also an array.
-/

namespace LineCode.Toml

/-- A header and the entries after it. -/
structure Section where
  path : List String
  isArray : Bool
  entries : List (String × Value)

/-- The entries before the first header, and the sections. -/
structure Document where
  entries : List (String × Value)
  sections : List Section

/-! ### Lines -/

/-- A line of a document that is not blank. -/
inductive Line
  | entry (key : String) (parts : List String) (value : Value)
  | header (path : List String) (isArray : Bool)

/-- The tokens after the end of a line, at which blanks and a comment may stand. -/
def endLine (ts : List Token) : Option (List Token) :=
  match skipBlanks ts with
  | [] | [.comment] => some []
  | .newline :: ts | .comment :: .newline :: ts => some ts
  | _ => none

/-- A header after its opening brackets, and the tokens after its line. -/
def readHeader (isArray : Bool) (ts : List Token) : Option (Line × List Token) := do
  let ((first, more), ts) ← readKey (skipBlanks ts)
  let ts ← match isArray, ts with
    | true, .closeBracket :: .closeBracket :: ts | false, .closeBracket :: ts => endLine ts
    | _, _ => none
  return (.header (first :: more) isArray, ts)

/-- An entry, and the tokens after its line. -/
def readEntry (ts : List Token) : Option (Line × List Token) := do
  let ((key, parts), ts) ← readKey ts
  match ts with
  | .equals :: ts =>
    let (value, ts) ← readValue (2 * ts.length + 2) (skipBlanks ts)
    return (.entry key parts value, ← endLine ts)
  | _ => none

/-- The lines of a document, read with so much fuel. -/
def readLines : Nat → List Token → Option (List Line)
  | 0, _ => none
  | fuel + 1, ts =>
    match skipSpace ts with
    | [] => some []
    | .openBracket :: .openBracket :: ts => do
      let (line, ts) ← readHeader true ts
      return line :: (← readLines fuel ts)
    | .openBracket :: ts => do
      let (line, ts) ← readHeader false ts
      return line :: (← readLines fuel ts)
    | ts => do
      let (line, ts) ← readEntry ts
      return line :: (← readLines fuel ts)

/-! ### Documents -/

/-- The entries up to the first header, added to those given, and the lines from it on. -/
def takeEntries (entries : List (String × Value)) :
    List Line → Option (List (String × Value) × List Line)
  | .entry key parts value :: lines => do takeEntries (← addEntry value key parts entries) lines
  | lines => some (entries, lines)

/-- The sections of lines that start with a header. -/
def sectionsOf : Nat → List Line → Option (List Section)
  | fuel + 1, .header path isArray :: lines => do
    let (entries, lines) ← takeEntries [] lines
    return ⟨path, isArray, entries⟩ :: (← sectionsOf fuel lines)
  | _, [] => some []
  | _, _ => none

/-- The document that lines make. -/
def Document.ofLines? (lines : List Line) : Option Document := do
  let (entries, rest) ← takeEntries [] lines
  return ⟨entries, ← sectionsOf rest.length rest⟩

/-! ### Headers -/

/-- How a table has been named so far. -/
inductive Naming
  /-- Only as a part of longer paths. -/
  | implied
  | table
  /-- As an array; what is known below it is of its last element. -/
  | array
deriving DecidableEq

/-- What headers have named below a table. -/
inductive Scope
  | of (children : List (String × Naming × Scope))

/-- What has been named below a table. -/
def Scope.children : Scope → List (String × Naming × Scope)
  | .of children => children

/-- Nothing named yet. -/
def Scope.empty : Scope := .of []

/-- A table below another, if it has been named. -/
def Scope.find? (s : Scope) (name : String) : Option (Naming × Scope) :=
  (s.children.find? (·.1 = name)).map Prod.snd

/-- Names a table below another, in place of what was known of it. -/
def Scope.set (s : Scope) (name : String) (naming : Naming) (below : Scope) : Scope :=
  .of ((name, naming, below) :: s.children.filter (·.1 ≠ name))

/-- Takes in a header, unless it names a table again or disagrees on what is an array. -/
def Scope.declare (isArray : Bool) : List String → Scope → Option Scope
  | [], s => some s
  | [name], s =>
    match s.find? name, isArray with
    | none, false => some (s.set name .table .empty)
    | none, true | some (.array, _), true => some (s.set name .array .empty)
    | some (.implied, below), false => some (s.set name .table below)
    | _, _ => none
  | name :: path, s =>
    let (naming, below) := (s.find? name).getD (.implied, .empty)
    (below.declare isArray path).map (s.set name naming)

/-- Whether headers agree with each other. -/
def Document.consistent (d : Document) : Bool :=
  (d.sections.foldlM (fun s sec => Scope.declare sec.isArray sec.path s)
    Scope.empty).isSome

/-- The document that a text is. -/
def Document.ofText? (text : String) : Option Document := do
  let ts ← tokens? text
  let d ← Document.ofLines? (← readLines (ts.length + 1) ts)
  if d.consistent then some d else none

end LineCode.Toml
