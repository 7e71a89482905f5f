/-
  Tokens — the words, literals and signs of query text.

  Keywords are words like any other: most of them are also valid names, so
  only their place in a query tells which they are.

  * `Token`, `Token.spelling`: a token and the text it is written with.
  * `Token.describe`: a token as error messages show it.
  * `ScanError`, `ScanError.message`: why a text is not a sequence of tokens.
-/
import Soql.Text.Quoted

namespace Soql

/-- A token of query text. -/
inductive Token where
  /-- A name, a keyword, or an amount with a currency such as `USD5000.50`. -/
  | word (text : Text)
  /-- A string literal: what stands between its quotes, escapes as written. -/
  | string (text : Text)
  /-- A number, possibly negative, possibly with decimals. -/
  | number (text : Text)
  /-- A date, with or without a time. -/
  | dateTime (text : Text)
  /-- The sign `=`. -/
  | eq
  /-- The sign `!=`. -/
  | notEq
  /-- The sign `<>`. -/
  | lessGreater
  /-- The sign `<`. -/
  | less
  /-- The sign `<=`. -/
  | lessEq
  /-- The sign `>`. -/
  | greater
  /-- The sign `>=`. -/
  | greaterEq
  /-- The sign `(`. -/
  | openParen
  /-- The sign `)`. -/
  | closeParen
  /-- The sign `,`. -/
  | comma
  /-- The sign `.`. -/
  | dot
  /-- The sign `:`, before the count of a relative date or the name of a bind variable. -/
  | colon
  /-- The end of the text. -/
  | finish
deriving DecidableEq

namespace Token

/-- The text that the token is written with. -/
def spelling : Token → Text
  | word t => t
  | string t => '\'' :: t ++ ['\'']
  | number t => t
  | dateTime t => t
  | eq => "="
  | notEq => "!="
  | lessGreater => "<>"
  | less => "<"
  | lessEq => "<="
  | greater => ">"
  | greaterEq => ">="
  | openParen => "("
  | closeParen => ")"
  | comma => ","
  | dot => "."
  | colon => ":"
  | finish => ""

/-- The text that words and literals carry. -/
def text? : Token → Option Text
  | word t => some t
  | string t => some t
  | number t => some t
  | dateTime t => some t
  | _ => none

/-- The name of the kind of token, as messages give it. -/
def kindName : Token → Text
  | word _ => "Identifier"
  | string _ => "String"
  | number _ => "Number"
  | dateTime _ => "DateTime"
  | eq => "Eq"
  | notEq => "NotEq"
  | lessGreater => "LtGt"
  | less => "Lt"
  | lessEq => "LtEq"
  | greater => "Gt"
  | greaterEq => "GtEq"
  | openParen => "LParen"
  | closeParen => "RParen"
  | comma => "Comma"
  | dot => "Dot"
  | colon => "Colon"
  | finish => "Eof"

/-- The token as messages show it: its kind, and its text as a quotation. -/
def describe (t : Token) : Text :=
  match t.text? with
  | some text => t.kindName ++ "(" ++ text.quote ++ ")"
  | none => t.kindName

end Token

/-- Why a text is not a sequence of tokens; positions count characters from the start. -/
inductive ScanError where
  /-- No token starts with this character. -/
  | unexpectedCharacter (c : Char) (position : Nat)
  /-- A string literal that starts here has no closing quote. -/
  | unterminatedString (position : Nat)
  /-- An exclamation mark that no equals sign follows. -/
  | incompleteOperator (position : Nat)
deriving DecidableEq

/-- The wording of a scanning error. -/
def ScanError.message : ScanError → Text
  | unexpectedCharacter c position =>
    "Unexpected character '" ++ [c] ++ "' at position " ++ Text.decimal position
  | unterminatedString position =>
    "Unterminated string starting at position " ++ Text.decimal position
  | incompleteOperator position =>
    "Unexpected '!' at position " ++ Text.decimal position ++ " (did you mean '!='?)"

end Soql
