import LineCode.Text.Numeral

/-!
# JSON

A reader for JSON text. A value keeps what the forms of this library ask of it: a number
the natural number it is, if it is written as one, and a string its text, if its escapes
make one. A number of another kind and a string with a lone surrogate are still read, so
that they may stand where nobody looks.
-/

namespace LineCode.Json

/-- A JSON value. -/
inductive Value
  | null
  | bool (b : Bool)
  /-- A number, and the natural number that its digits alone are. -/
  | number (natural : Option Nat)
  /-- A string, and its text unless an escape is half of a surrogate pair. -/
  | string (text : Option String)
  | array (items : List Value)
  | object (members : List (Option String × Value))

/-- The text without its leading blanks. -/
def skipBlanks (cs : List Char) : List Char :=
  cs.dropWhile fun c => c = ' ' || c = '\t' || c = '\n' || c = '\r'

/-! ### Strings -/

/-- A part of a string literal: a character, or a code unit written by its number. -/
inductive StringPart
  | char (c : Char)
  | unit (n : Nat)

/-- The code unit that four hexadecimal digits write. -/
def unit? (a b c d : Char) : Option Nat := do
  let digits ← [a, b, c, d].mapM (Text.digitValue? 16)
  return digits.foldl (fun n digit => n * 16 + digit) 0

/-- The character that a letter after a backslash stands for. -/
def escaped? : Char → Option Char
  | '"' => some '"'
  | '\\' => some '\\'
  | '/' => some '/'
  | 'b' => some '\x08'
  | 'f' => some '\x0c'
  | 'n' => some '\n'
  | 'r' => some '\r'
  | 't' => some '\t'
  | _ => none

/-- The parts of a string literal from its opening quotation mark on, and the text after it. -/
def readParts : List Char → Option (List StringPart × List Char)
  | [] => none
  | '"' :: cs => some ([], cs)
  | '\\' :: 'u' :: a :: b :: c :: d :: cs => do
    let n ← unit? a b c d
    let (parts, rest) ← readParts cs
    return (.unit n :: parts, rest)
  | '\\' :: c :: cs => do
    let e ← escaped? c
    let (parts, rest) ← readParts cs
    return (.char e :: parts, rest)
  | c :: cs =>
    if c.toNat < 32 ∨ c = '\\' then none
    else (readParts cs).map fun (parts, rest) => (.char c :: parts, rest)

/-- The characters of string parts; two units may be the halves of one. -/
def textOfParts : List StringPart → Option (List Char)
  | [] => some []
  | .char c :: parts => (textOfParts parts).map (c :: ·)
  | .unit hi :: .unit lo :: parts =>
    if 0xD800 ≤ hi ∧ hi < 0xDC00 then
      if 0xDC00 ≤ lo ∧ lo < 0xE000 then
        (textOfParts parts).map (Char.ofNat (0x10000 + (hi - 0xD800) * 1024 + (lo - 0xDC00)) :: ·)
      else none
    else if 0xDC00 ≤ hi ∧ hi < 0xE000 then none
    else (textOfParts (.unit lo :: parts)).map (Char.ofNat hi :: ·)
  | .unit n :: parts =>
    if 0xD800 ≤ n ∧ n < 0xE000 then none else (textOfParts parts).map (Char.ofNat n :: ·)

/-- The text of a string literal from its opening quotation mark on, and the text after it. -/
def readString (cs : List Char) : Option (Option String × List Char) :=
  (readParts cs).map fun (parts, rest) => ((textOfParts parts).map String.ofList, rest)

/-! ### Numbers -/

/-- A decimal digit. -/
def isDigit (c : Char) : Bool := '0' ≤ c && c ≤ '9'

/-- The text after one or more digits. -/
def skipDigits? (cs : List Char) : Option (List Char) :=
  match cs with
  | c :: cs => if isDigit c then some (cs.dropWhile isDigit) else none
  | [] => none

/-- The text after a fraction, and whether there is one. -/
def skipFraction? : List Char → Option (Bool × List Char)
  | '.' :: cs => (skipDigits? cs).map (true, ·)
  | cs => some (false, cs)

/-- The text after an exponent, and whether there is one. -/
def skipExponent? : List Char → Option (Bool × List Char)
  | 'e' :: cs | 'E' :: cs =>
    match cs with
    | '+' :: cs | '-' :: cs => (skipDigits? cs).map (true, ·)
    | cs => (skipDigits? cs).map (true, ·)
  | cs => some (false, cs)

/-- The number that decimal digits write. -/
def naturalOfDigits (cs : List Char) : Nat :=
  cs.foldl (fun n c => n * 10 + (c.toNat - '0'.toNat)) 0

/-- A number without its sign, and the text after it. Only a zero may start with a zero. -/
def readUnsigned (cs : List Char) : Option (Option Nat × List Char) :=
  let digits := cs.takeWhile isDigit
  if digits = [] ∨ (digits.head? = some '0' ∧ digits ≠ ['0']) then none
  else do
    let (fraction, rest) ← skipFraction? (cs.dropWhile isDigit)
    let (exponent, rest) ← skipExponent? rest
    return (if fraction || exponent then none else some (naturalOfDigits digits), rest)

/-- A number and the text after it. -/
def readNumber : List Char → Option (Option Nat × List Char)
  | '-' :: cs => (readUnsigned cs).map fun (_, rest) => (none, rest)
  | cs => readUnsigned cs

/-! ### Values -/

mutual

/-- A value and the text after it, read with so much fuel. -/
def readValue : Nat → List Char → Option (Value × List Char)
  | 0, _ => none
  | fuel + 1, cs =>
    match skipBlanks cs with
    | 'n' :: 'u' :: 'l' :: 'l' :: cs => some (.null, cs)
    | 't' :: 'r' :: 'u' :: 'e' :: cs => some (.bool true, cs)
    | 'f' :: 'a' :: 'l' :: 's' :: 'e' :: cs => some (.bool false, cs)
    | '"' :: cs => (readString cs).map fun (text, rest) => (.string text, rest)
    | '[' :: cs =>
      match skipBlanks cs with
      | ']' :: rest => some (.array [], rest)
      | _ => (readItems fuel cs).map fun (items, rest) => (.array items, rest)
    | '\x7b' :: cs =>
      match skipBlanks cs with
      | '\x7d' :: rest => some (.object [], rest)
      | _ => (readMembers fuel cs).map fun (members, rest) => (.object members, rest)
    | cs => (readNumber cs).map fun (natural, rest) => (.number natural, rest)

/-- The items of an array, at least one, and the text after its closing bracket. -/
def readItems : Nat → List Char → Option (List Value × List Char)
  | 0, _ => none
  | fuel + 1, cs => do
    let (item, cs) ← readValue fuel cs
    match skipBlanks cs with
    | ']' :: rest => return ([item], rest)
    | ',' :: cs =>
      let (items, rest) ← readItems fuel cs
      return (item :: items, rest)
    | _ => none

/-- The members of an object, at least one, and the text after its closing brace. -/
def readMembers : Nat → List Char → Option (List (Option String × Value) × List Char)
  | 0, _ => none
  | fuel + 1, cs =>
    match skipBlanks cs with
    | '"' :: cs => do
      let (key, cs) ← readString cs
      match skipBlanks cs with
      | ':' :: cs =>
        let (value, cs) ← readValue fuel cs
        match skipBlanks cs with
        | '\x7d' :: rest => return ([(key, value)], rest)
        | ',' :: cs =>
          let (members, rest) ← readMembers fuel cs
          return ((key, value) :: members, rest)
        | _ => none
      | _ => none
    | _ => none

end

/-- The value that a text is. Every step of the reader but the first follows a character of the
text, and no two steps follow the same one twice, so this much fuel is enough. -/
def Value.ofText? (text : String) : Option Value :=
  let cs := text.toList
  match readValue (2 * cs.length + 2) cs with
  | some (value, rest) => if skipBlanks rest = [] then some value else none
  | none => none

end LineCode.Json
