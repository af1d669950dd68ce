import LineCode.Toml.Number
import LineCode.Toml.Token

/-!
# TOML values

The values of a TOML document and the reader for them. Of dates, times and numbers with
a fraction only the kind is kept: no setting is one of them. A dotted key stands for a
table inside a table (`addEntry`); a plain key may come twice, and it is for the user of
a table to say what that means.
-/

namespace LineCode.Toml

/-- A TOML value. -/
inductive Value
  | string (text : String)
  | integer (n : Int)
  | float
  | boolean (b : Bool)
  | datetime
  | array (items : List Value)
  /-- A table between braces. -/
  | inlineTable (entries : List (String × Value))
  /-- A table that dotted keys stand for. -/
  | dottedTable (entries : List (String × Value))

/-! ### Keys -/

/-- The text of a token that may be part of a key. -/
def keyPart? : Token → Option String
  | .bare text => some (String.ofList text)
  | .quoted text false => some text
  | _ => none

/-- The tokens without the blanks in front. -/
def skipBlanks : List Token → List Token
  | .blanks _ :: ts => ts
  | ts => ts

/-- The parts of a key, split at periods, and the tokens after it and the blanks behind it. -/
def readKey : List Token → Option ((String × List String) × List Token)
  | [] => none
  | t :: ts =>
    (keyPart? t).bind fun part =>
      match ts with
      | .period :: .blanks _ :: ts | .blanks _ :: .period :: .blanks _ :: ts
      | .period :: ts | .blanks _ :: .period :: ts =>
        (readKey ts).map fun ((next, parts), rest) => ((part, next :: parts), rest)
      | .blanks _ :: ts => some ((part, []), ts)
      | ts => some ((part, []), ts)

/-- Entries with the first value of a key replaced. -/
def replaceFirst (key : String) (value : Value) : List (String × Value) → List (String × Value)
  | [] => []
  | (k, v) :: entries =>
    if k = key then (k, value) :: entries else (k, v) :: replaceFirst key value entries

/-- Adds an entry under a key. The parts of a dotted key before the last name tables, which must
be tables of dotted keys if they are there already. -/
def addEntry (value : Value) :
    String → List String → List (String × Value) → Option (List (String × Value))
  | key, [], entries => some (entries ++ [(key, value)])
  | key, next :: parts, entries =>
    match entries.find? (·.1 = key) with
    | none => (addEntry value next parts []).map fun sub => entries ++ [(key, .dottedTable sub)]
    | some (_, .dottedTable sub) =>
      (addEntry value next parts sub).map fun sub => replaceFirst key (.dottedTable sub) entries
    | some _ => none

/-! ### Dates and numbers -/

/-- The tokens after a token that must be a bare word. -/
def afterBare : List Token → Option (List Token)
  | .bare _ :: ts => some ts
  | _ => none

/-- The tokens after a mark and the bare word that must follow it, if the mark is there. -/
def afterMarked (mark : Token) : List Token → Option (List Token)
  | t :: ts => if t = mark then afterBare ts else some (t :: ts)
  | [] => some []

/-- The tokens after a date or time that starts with a bare word. A date and a time may have one
space between them; after an hour come minutes and seconds, then perhaps a fraction and an
offset. Nothing is asked of the words themselves. -/
def skipDatetime (hour : Bool) (ts : List Token) : Option (List Token) :=
  let ts := match ts with
    | .blanks true :: .bare _ :: ts => ts
    | ts => ts
  match hour, ts with
  | true, ts | false, .colon :: ts => do
    match ← afterBare ts with
    | .colon :: ts =>
      afterMarked .colon (← afterMarked .plus (← afterMarked .period (← afterBare ts)))
    | _ => none
  | false, ts => some ts

/-- The exponent of a number whose text goes on with `cs` after the digits, and the tokens after
it. With a plus sign the exponent is a word of its own. -/
def readExponent (cs : List Char) (ts : List Token) : Option (Int × List Token) :=
  match cs with
  | [] => some (0, ts)
  | e :: body =>
    if e = 'e' ∨ e = 'E' then
      match body with
      | [] =>
        let ts := match ts with
          | .plus :: ts => ts
          | ts => ts
        match ts with
        | .bare word :: ts => (exponentOf false word).map (·, ts)
        | _ => none
      | _ =>
        let (negative, digits) := splitSign body
        (exponentOf negative digits).map (·, ts)
    else none
where
  /-- The exponent that digits write. -/
  exponentOf (negative : Bool) (cs : List Char) : Option Int := do
    match ← readDigitRun 10 true cs with
    | (digits, []) => return signed negative (naturalOfDigits 10 digits)
    | _ => none

/-- A number with a fraction or an exponent, and the tokens after it. `fraction` is the word after
the period, if there is one. -/
def readFloat (word : List Char) (fraction : Option (List Char)) (ts : List Token) :
    Option (Value × List Token) := do
  let (whole, rest) ← readDigitRun 10 false (splitSign word).2
  let (digits, rest) ← match fraction with
    | none => some ([], rest)
    | some text => if rest = [] then readDigitRun 10 true text else none
  let (exponent, ts) ← readExponent rest ts
  if floatFits whole digits exponent then return (.float, ts) else none

/-- The words that stand for infinity and for what is no number. -/
def specialWords : List (List Char) := ["inf", "-inf", "nan", "-nan"].map String.toList

/-- A number whose first word is given, and the tokens after it. -/
def readNumber (word : List Char) (ts : List Token) : Option (Value × List Token) :=
  match word with
  | '0' :: 'x' :: digits => (markedInteger? 16 digits).map (.integer ·, ts)
  | '0' :: 'o' :: digits => (markedInteger? 8 digits).map (.integer ·, ts)
  | '0' :: 'b' :: digits => (markedInteger? 2 digits).map (.integer ·, ts)
  | _ =>
    if 'e' ∈ word ∨ 'E' ∈ word then readFloat word none ts
    else
      match ts with
      | .period :: .bare fraction :: ts => readFloat word (some fraction) ts
      | .period :: _ => none
      | _ =>
        if word ∈ specialWords then some (.float, ts)
        else (decimalInteger? word).map (.integer ·, ts)

/-- Whether two characters stand side by side in a word. -/
def hasPair (a b : Char) : List Char → Bool
  | c :: d :: cs => (c = a && d = b) || hasPair a b (d :: cs)
  | _ => false

/-- Whether a word is the start of a date: it separates a time, or it has a hyphen after its first
character that belongs to no exponent. -/
def isDate (word : List Char) : Bool :=
  word.contains 'T' || word.contains 't' ||
    (word.tail.contains '-' && !hasPair 'e' '-' word && !hasPair 'E' '-' word)

/-- A number, date or time whose first word is given, and the tokens after it. -/
def readNumberOrDate (word : List Char) (ts : List Token) : Option (Value × List Token) :=
  if isDate word then (skipDatetime false ts).map (.datetime, ·)
  else
    match ts with
    | .colon :: ts => (skipDatetime true ts).map (.datetime, ·)
    | ts => readNumber word ts

/-- Whether a bare word can be the start of a number or date. -/
def startsNumber (word : List Char) : Bool :=
  word = ['i', 'n', 'f'] || word = ['n', 'a', 'n'] ||
    word.head?.any fun c => c = '-' || ('0' ≤ c && c ≤ '9')

/-! ### Values -/

/-- The tokens without the blanks, line ends and comments in front. -/
def skipSpace (ts : List Token) : List Token :=
  ts.dropWhile fun
    | .blanks _ | .newline | .comment => true
    | _ => false

mutual

/-- A value and the tokens after it, read with so much fuel. -/
def readValue : Nat → List Token → Option (Value × List Token)
  | 0, _ => none
  | fuel + 1, ts =>
    match ts with
    | .quoted text _ :: ts => some (.string text, ts)
    | .bare word :: ts =>
      if word = ['t', 'r', 'u', 'e'] then some (.boolean true, ts)
      else if word = ['f', 'a', 'l', 's', 'e'] then some (.boolean false, ts)
      else if startsNumber word then readNumberOrDate word ts
      else none
    | .plus :: .bare word :: ts => readNumber word ts
    | .openBrace :: ts =>
      match skipBlanks ts with
      | .closeBrace :: ts => some (.inlineTable [], ts)
      | ts => (readEntries fuel [] ts).map fun (entries, ts) => (.inlineTable entries, ts)
    | .openBracket :: ts => (readItems fuel ts).map fun (items, ts) => (.array items, ts)
    | _ => none

/-- The entries of an inline table after those given, at least one more, and the tokens after its
closing brace. -/
def readEntries : Nat → List (String × Value) → List Token →
    Option (List (String × Value) × List Token)
  | 0, _, _ => none
  | fuel + 1, entries, ts => do
    let ((key, parts), ts) ← readKey ts
    match ts with
    | .equals :: ts =>
      let (value, ts) ← readValue fuel (skipBlanks ts)
      let entries ← addEntry value key parts entries
      match skipBlanks ts with
      | .closeBrace :: ts => return (entries, ts)
      | .comma :: ts => readEntries fuel entries (skipBlanks ts)
      | _ => none
    | _ => none

/-- The items of an array and the tokens after its closing bracket; a comma may follow the last. -/
def readItems : Nat → List Token → Option (List Value × List Token)
  | 0, _ => none
  | fuel + 1, ts =>
    match skipSpace ts with
    | .closeBracket :: ts => some ([], ts)
    | ts => do
      let (item, ts) ← readValue fuel ts
      match skipSpace ts with
      | .closeBracket :: ts => return ([item], ts)
      | .comma :: ts =>
        let (items, ts) ← readItems fuel ts
        return (item :: items, ts)
      | _ => none

end

end LineCode.Toml
