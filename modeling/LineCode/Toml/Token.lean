import LineCode.Text.Numeral

/-!
# TOML tokens

The first pass over a TOML text: it is cut into punctuation, bare words, string
literals, runs of blanks, comments and line ends. A byte order mark in front is dropped,
and a carriage return counts only as part of a line end. `tokens?` refuses a text with a
character that starts no token, or with a string literal that does not end or holds what
it must not.
-/

namespace LineCode.Toml

/-- A piece of a TOML text. -/
inductive Token
  | newline
  /-- Spaces and tabs, and whether they are just one space. -/
  | blanks (one : Bool)
  | comment
  | equals
  | period
  | comma
  | colon
  | plus
  | openBrace
  | closeBrace
  | openBracket
  | closeBracket
  /-- Letters, digits, hyphens and underscores. -/
  | bare (text : List Char)
  /-- A string literal, and whether it is one of the kind that may span lines. -/
  | quoted (text : String) (multiline : Bool)
deriving DecidableEq

/-! ### Characters -/

/-- A space or a tab. -/
def isBlank (c : Char) : Bool := c = ' ' || c = '\t'

/-- A character of a bare word. -/
def isBare (c : Char) : Bool :=
  ('A' ≤ c && c ≤ 'Z') || ('a' ≤ c && c ≤ 'z') || ('0' ≤ c && c ≤ '9') || c = '-' || c = '_'

/-- A character that a comment may hold: no control but the tab. -/
def inComment (c : Char) : Bool := c = '\t' || ' ' ≤ c

/-- A character that a string literal may hold as it is: no control but the tab. -/
def inString (c : Char) : Bool := (c = '\t' || ' ' ≤ c) && c ≠ '\x7f'

/-- The text with each carriage return before a line feed dropped. -/
def foldLineEnds : List Char → List Char
  | [] => []
  | '\r' :: '\n' :: cs => '\n' :: foldLineEnds cs
  | c :: cs => c :: foldLineEnds cs

/-- The text without a byte order mark in front. -/
def dropMark : List Char → List Char
  | '\ufeff' :: cs => cs
  | cs => cs

/-! ### String literals -/

/-- A kind of string literal. -/
structure Quote where
  /-- The quotation mark, a double one where escapes count. -/
  mark : Char
  /-- Whether the literal starts and ends with three marks and may span lines. -/
  multiline : Bool

/-- What a literal is read as next. -/
inductive Reading
  /-- Text. -/
  | text
  /-- The blanks between a backslash and the line end that it joins. -/
  | toLineEnd
  /-- The blanks and line ends after a joined line end. -/
  | joined

/-- The character whose number hexadecimal digits write. -/
def charOfHex? (digits : List Char) : Option Char := do
  let n ← digits.foldlM (fun n c => (Text.digitValue? 16 c).map (n * 16 + ·)) 0
  if n < 0xD800 ∨ (0xDFFF < n ∧ n < 0x110000) then some (Char.ofNat n) else none

/-- The character that a letter after a backslash stands for. -/
def escaped? : Char → Option Char
  | '"' => some '"'
  | '\\' => some '\\'
  | 'b' => some '\x08'
  | 'f' => some '\x0c'
  | 'n' => some '\n'
  | 'r' => some '\r'
  | 't' => some '\t'
  | _ => none

/-- The marks beyond three at the end of a literal, at most two, which belong to its text. -/
def extraMarks (mark : Char) : List Char → List Char × List Char
  | c :: cs =>
    if c = mark then
      match cs with
      | d :: ds => if d = mark then ([c, d], ds) else ([c], cs)
      | [] => ([c], [])
    else ([], c :: cs)
  | [] => ([], [])

/-- Puts a character in front of what was read. -/
def prepend (c : Char) (r : Option (List Char × List Char)) : Option (List Char × List Char) :=
  r.map fun (text, rest) => (c :: text, rest)

/-- The text of a literal up to its closing marks, and what follows them. -/
def readLiteral (q : Quote) : Reading → List Char → Option (List Char × List Char)
  | _, [] => none
  | .toLineEnd, c :: cs =>
    if isBlank c then readLiteral q .toLineEnd cs
    else if c = '\n' then readLiteral q .joined cs
    else none
  | reading, c :: cs =>
    if (reading matches .joined) ∧ (isBlank c ∨ c = '\n') then readLiteral q .joined cs
    else if c = q.mark then
      if q.multiline then
        match cs with
        | c₂ :: c₃ :: rest =>
          if c₂ = q.mark ∧ c₃ = q.mark then some (extraMarks q.mark rest)
          else if c₂ = q.mark then prepend c (prepend c₂ (readLiteral q .text (c₃ :: rest)))
          else prepend c (readLiteral q .text (c₂ :: c₃ :: rest))
        | _ => none
      else some ([], cs)
    else if c = '\\' ∧ q.mark = '"' then
      match cs with
      | 'u' :: h₁ :: h₂ :: h₃ :: h₄ :: rest =>
        (charOfHex? [h₁, h₂, h₃, h₄]).bind fun e => prepend e (readLiteral q .text rest)
      | 'U' :: h₁ :: h₂ :: h₃ :: h₄ :: h₅ :: h₆ :: h₇ :: h₈ :: rest =>
        (charOfHex? [h₁, h₂, h₃, h₄, h₅, h₆, h₇, h₈]).bind fun e =>
          prepend e (readLiteral q .text rest)
      | e :: rest =>
        if q.multiline ∧ isBlank e then readLiteral q .toLineEnd rest
        else if q.multiline ∧ e = '\n' then readLiteral q .joined rest
        else (escaped? e).bind fun e => prepend e (readLiteral q .text rest)
      | [] => none
    else if inString c ∨ (c = '\n' ∧ q.multiline) then prepend c (readLiteral q .text cs)
    else none

/-- A string literal after its first mark, and what follows it. A line end right after three
opening marks is no part of the text. -/
def readQuoted (mark : Char) (cs : List Char) : Option (Token × List Char) :=
  match cs with
  | c₂ :: c₃ :: rest =>
    if c₂ = mark ∧ c₃ = mark then
      let body := match rest with
        | '\n' :: rest => rest
        | rest => rest
      (readLiteral ⟨mark, true⟩ .text body).map fun (text, rest) =>
        (.quoted (String.ofList text) true, rest)
    else single
  | _ => single
where
  /-- A literal that starts with one mark. -/
  single : Option (Token × List Char) :=
    (readLiteral ⟨mark, false⟩ .text cs).map fun (text, rest) =>
      (.quoted (String.ofList text) false, rest)

/-! ### Tokens -/

/-- The token that a text starts with, and what follows it. -/
def readToken : List Char → Option (Token × List Char)
  | [] => none
  | '\n' :: cs => some (.newline, cs)
  | '#' :: cs => some (.comment, cs.dropWhile inComment)
  | '=' :: cs => some (.equals, cs)
  | '.' :: cs => some (.period, cs)
  | ',' :: cs => some (.comma, cs)
  | ':' :: cs => some (.colon, cs)
  | '+' :: cs => some (.plus, cs)
  | '\x7b' :: cs => some (.openBrace, cs)
  | '\x7d' :: cs => some (.closeBrace, cs)
  | '[' :: cs => some (.openBracket, cs)
  | ']' :: cs => some (.closeBracket, cs)
  | '\'' :: cs => readQuoted '\'' cs
  | '"' :: cs => readQuoted '"' cs
  | c :: cs =>
    if isBlank c then
      let more := cs.takeWhile isBlank
      some (.blanks (c = ' ' && more.isEmpty), cs.dropWhile isBlank)
    else if isBare c then some (.bare (c :: cs.takeWhile isBare), cs.dropWhile isBare)
    else none

/-- The tokens of a text, read with so much fuel. -/
def readTokens : Nat → List Char → Option (List Token)
  | _, [] => some []
  | 0, _ => none
  | fuel + 1, cs => do
    let (token, rest) ← readToken cs
    return token :: (← readTokens fuel rest)

/-- The tokens of a text. A token takes at least one character, so their number is enough fuel. -/
def tokens? (text : String) : Option (List Token) :=
  let cs := dropMark (foldLineEnds text.toList)
  readTokens cs.length cs

end LineCode.Toml
