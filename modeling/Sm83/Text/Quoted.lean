import Sm83.Text.Hidden
import Sm83.Text.Numeral

/-!
# Quoted text

Text between double quotes. A quote, a backslash and the usual control characters have escapes of
their own; any other character that would not show by itself is written as its number.
-/

namespace Sm83.Text

/-- A character between quotes. -/
def quotedChar (char : Char) : String :=
  match char with
  | '"' => "\\\""
  | '\\' => "\\\\"
  | '\n' => "\\n"
  | '\r' => "\\r"
  | '\t' => "\\t"
  | '\x00' => "\\0"
  | char =>
    if isHidden char then
      "\\u\x7b" ++ hexNumeral char.toNat ++ "\x7d"
    else
      char.toString

/-- A text between quotes. -/
def quoted (text : String) : String :=
  "\"" ++ String.join (text.toList.map quotedChar) ++ "\""

end Sm83.Text
