/-
  Scanning — taking tokens off the front of a text, one at a time.

  * `front`: what stands at the front of a text that does not start blank.
  * `Scanner`, `Scanner.next`: a place in a text, and the step to the next
    token.  A character that starts no token stops the scanner for good; a
    string literal without its closing quote uses up the text.
-/
import Soql.Token.Basic

namespace Soql

open Unicode

/-! ## Readers for the kinds of token -/

/-- Three ASCII letters followed by at least one digit and nothing else, such as `USD5000`. -/
def isCurrencyWord : Text → Bool
  | a :: b :: c :: amount =>
    a.isAlpha && b.isAlpha && c.isAlpha && !amount.isEmpty && amount.all Char.isDigit
  | _ => false

/-- A decimal point with the digits after it, if the text starts with these, and the rest. -/
def readFraction : Text → Text × Text
  | '.' :: d :: rest =>
    if d.isDigit then
      ('.' :: d :: rest.takeWhile Char.isDigit, rest.dropWhile Char.isDigit)
    else ([], '.' :: d :: rest)
  | rest => ([], rest)

/-- A word, together with the decimals of an amount if it is a currency and a whole amount. -/
def readWord (t : Text) : Text × Text :=
  let word := t.takeWhile isWordPart
  let rest := t.dropWhile isWordPart
  if isCurrencyWord word then
    let (fraction, rest) := readFraction rest
    (word ++ fraction, rest)
  else (word, rest)

/-- The inside of a string literal up to its closing quote, and what follows that quote.  A
    backslash takes the next character along, and both stay as written. -/
def readString : Text → Option (Text × Text)
  | [] => none
  | '\'' :: rest => some ([], rest)
  | ['\\'] => none
  | '\\' :: c :: rest => (readString rest).map fun (inside, after) => ('\\' :: c :: inside, after)
  | c :: rest => (readString rest).map fun (inside, after) => (c :: inside, after)

/-- A character of a date that follows its year. -/
def isDatePart (c : Char) : Bool :=
  c.isDigit || c == '-' || c == ':' || c == '.' || c == '+' || c == 'T' || c == 'Z'

/-- Whether the text goes on with `-` and a digit. -/
def goesOnAsDate : Text → Bool
  | '-' :: d :: _ => d.isDigit
  | _ => false

/-- A number without a sign, or a date if four digits are followed by `-` and a digit. -/
def readNumber (t : Text) : Token × Text :=
  let digits := t.takeWhile Char.isDigit
  let rest := t.dropWhile Char.isDigit
  if digits.length = 4 ∧ goesOnAsDate rest then
    (.dateTime (digits ++ rest.takeWhile isDatePart), rest.dropWhile isDatePart)
  else
    let (fraction, rest) := readFraction rest
    (.number (digits ++ fraction), rest)

/-- A number whose minus sign stands before `t`. -/
def readNegative (t : Text) : Token × Text :=
  let (fraction, rest) := readFraction (t.dropWhile Char.isDigit)
  (.number ('-' :: t.takeWhile Char.isDigit ++ fraction), rest)

/-! ## The front of a text -/

/-- What stands at the front of a text. -/
inductive Front where
  /-- A token, and the text after it. -/
  | token (token : Token) (rest : Text)
  /-- A character that starts no token. -/
  | unexpected
  /-- A string literal without its closing quote. -/
  | unterminated
  /-- An exclamation mark that no equals sign follows. -/
  | incomplete

/-- The front of the text that starts with `c` and goes on with `rest`. -/
def front (c : Char) (rest : Text) : Front :=
  match c, rest with
  | '(', rest => .token .openParen rest
  | ')', rest => .token .closeParen rest
  | ',', rest => .token .comma rest
  | '.', rest => .token .dot rest
  | ':', rest => .token .colon rest
  | '=', rest => .token .eq rest
  | '!', '=' :: rest => .token .notEq rest
  | '!', _ => .incomplete
  | '<', '=' :: rest => .token .lessEq rest
  | '<', '>' :: rest => .token .lessGreater rest
  | '<', rest => .token .less rest
  | '>', '=' :: rest => .token .greaterEq rest
  | '>', rest => .token .greater rest
  | '\'', rest =>
    match readString rest with
    | some (inside, rest) => .token (.string inside) rest
    | none => .unterminated
  | '-', d :: rest =>
    if d.isDigit then
      let (token, rest) := readNegative (d :: rest)
      .token token rest
    else .unexpected
  | c, rest =>
    if c.isDigit then
      let (token, rest) := readNumber (c :: rest)
      .token token rest
    else if isWordStart c then
      let (word, rest) := readWord (c :: rest)
      .token (.word word) rest
    else .unexpected

/-! ## Stepping through a text -/

/-- A place in a text between two tokens. -/
structure Scanner where
  /-- The whole text. -/
  text : Text
  /-- What has not been read. -/
  rest : Text
  /-- Number of characters read. -/
  position : Nat
  /-- Where the last token starts. -/
  tokenStart : Nat

namespace Scanner

/-- The scanner at the start of a text. -/
def ofText (text : Text) : Scanner := ⟨text, text, 0, 0⟩

/-- The part of the text from `start` up to `stop`, cut off at the end of the text. -/
def slice (s : Scanner) (start stop : Nat) : Text := (s.text.take stop).drop start

/-- The scanner past the blanks it stands before. -/
def skipBlanks (s : Scanner) : Scanner :=
  let position := s.position + (s.rest.takeWhile isBlank).length
  { s with rest := s.rest.dropWhile isBlank, position, tokenStart := position }

/-- The next token, or why there is none, and the place after it. -/
def next (s : Scanner) : Except ScanError Token × Scanner :=
  let s := s.skipBlanks
  match s.rest with
  | [] => (.ok .finish, s)
  | c :: rest =>
    match front c rest with
    | .token token rest =>
      (.ok token, { s with rest, position := s.position + token.spelling.length })
    | .unexpected => (.error (.unexpectedCharacter c s.position), s)
    | .incomplete => (.error (.incompleteOperator s.position), s)
    | .unterminated =>
      (.error (.unterminatedString s.position),
        { s with rest := [], position := s.position + s.rest.length })

end Scanner

end Soql
