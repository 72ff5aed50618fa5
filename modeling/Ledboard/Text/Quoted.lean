/-
# Quoted text

Messages that repeat a piece of input put it between double quotes.  A quote and a backslash are
written behind a backslash, the zero character, tab, line feed and carriage return as `\0`,
`\t`, `\n` and `\r`, and every other character that does not print as its code point in
hexadecimal between braces.  All other characters stand for themselves, single quotes included.
-/
import Ledboard.Text.Numeral
import Ledboard.Text.Unprintable

namespace Ledboard.Text

/-- A character as it is written inside quotes. -/
def escape (c : Char) : String :=
  match c with
  | '"' => "\\\""
  | '\\' => "\\\\"
  | '\x00' => "\\0"
  | '\t' => "\\t"
  | '\n' => "\\n"
  | '\r' => "\\r"
  | c =>
    if isPrintable c then String.singleton c
    else "\\u\x7b" ++ hexDigits c.toNat ++ "\x7d"

/-- Text between double quotes. -/
def quoted (s : String) : String := "\"" ++ String.join (s.toList.map escape) ++ "\""

end Ledboard.Text
