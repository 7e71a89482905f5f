/-
  Quotations — a text between double quotes, as error messages show it.

  * `quote`: the characters of the text, with quotes, backslashes, controls
    and characters that show nothing of their own written as escapes.
-/
import Soql.Text

namespace Soql.Text

open Unicode

/-- A code point as `\u{...}` in lower-case hexadecimal digits. -/
def codeEscape (c : Char) : Text := "\\u\x7b" ++ Nat.toDigits 16 c.toNat ++ "\x7d"

/-- A character inside a quotation. -/
def quoteChar (c : Char) : Text :=
  if c = '\x00' then "\\0"
  else if c = '\t' then "\\t"
  else if c = '\r' then "\\r"
  else if c = '\n' then "\\n"
  else if c = '\\' then "\\\\"
  else if c = '"' then "\\\""
  else if isPlain c then [c]
  else codeEscape c

/-- The text between double quotes. -/
def quote (t : Text) : Text := '"' :: t.flatMap quoteChar ++ ['"']

end Soql.Text
