import LineCode.Text.Hex

/-!
# JSON strings

A text as a JSON string literal. Only what JSON requires is escaped: quotation marks,
backslashes and the controls below the space.
-/

namespace LineCode.Text

/-- How a character is written in a JSON string. -/
def jsonEscape (c : Char) : String :=
  if c = '"' then "\\\""
  else if c = '\\' then "\\\\"
  else if c = '\x08' then "\\b"
  else if c = '\x0c' then "\\f"
  else if c = '\n' then "\\n"
  else if c = '\r' then "\\r"
  else if c = '\t' then "\\t"
  else if c.toNat < 16 then "\\u000" ++ hexDigits c.toNat
  else if c.toNat < 32 then "\\u00" ++ hexDigits c.toNat
  else c.toString

/-- A text as a JSON string literal. -/
def jsonString (s : String) : String := "\"" ++ String.join (s.toList.map jsonEscape) ++ "\""

end LineCode.Text
