import LineCode.Text.Graphic
import LineCode.Text.Hex

/-!
# Quoted text

Text between quotation marks in which every character can be told apart: quotation marks
and backslashes are preceded by a backslash, a few controls have a letter of their own,
and any other character that is not graphic is written by its number.
-/

namespace LineCode.Text

/-- How a character is written between quotation marks. -/
def escape (c : Char) : String :=
  if c = '"' then "\\\""
  else if c = '\\' then "\\\\"
  else if c = '\x00' then "\\0"
  else if c = '\t' then "\\t"
  else if c = '\n' then "\\n"
  else if c = '\r' then "\\r"
  else if isGraphic c then c.toString
  else "\\u\x7b" ++ hexDigits c.toNat ++ "\x7d"

/-- A text between quotation marks. -/
def quoted (s : String) : String := "\"" ++ String.join (s.toList.map escape) ++ "\""

end LineCode.Text
