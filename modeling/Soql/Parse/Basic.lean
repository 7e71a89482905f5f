/-
  Parsers — reading lexemes one after another, with one lexeme in view.

  A parser keeps its place also when it fails, so that another one can go on
  from there.

  * `Cursor`: the lexeme in view and those ahead of it.
  * `Parser`: a step on cursors with a result or an error.
  * `advance`, `expect`, `eatKeyword`, `identifier`, …: the smallest parsers.
  * `many`: repetition for as long as a parser finds something.
-/
import Soql.Parse.Error
import Soql.Token.Lexemes
import Soql.Keyword

namespace Soql

/-- A place among lexemes. -/
structure Cursor where
  /-- The lexeme in view. -/
  current : Lexeme
  /-- The lexemes after it. -/
  ahead : Lexemes
deriving DecidableEq

namespace Cursor

/-- The cursor at the first of the lexemes. -/
def ofLexemes (lexemes : Lexemes) : Except ScanError Cursor :=
  match lexemes.pull with
  | (.ok lexeme, ahead) => .ok ⟨lexeme, ahead⟩
  | (.error error, _) => .error error

/-- A bound on the number of lexemes that can still be taken. -/
def size (c : Cursor) : Nat := c.ahead.size + 1

end Cursor

/-- A parser moves a cursor and yields a result or an error. -/
abbrev Parser := EStateM ParseError Cursor

namespace Parser

variable {α κ : Type}

/-! ## Single lexemes -/

/-- The lexeme in view. -/
def current : Parser Lexeme := return (← get).current

/-- Moves on by one lexeme and yields the one left behind.  Where there is no next lexeme the
    old one stays in view. -/
def advance : Parser Lexeme := fun c =>
  match c.ahead.pull with
  | (.ok lexeme, ahead) => .ok c.current ⟨lexeme, ahead⟩
  | (.error error, ahead) => .error (.scan error) ⟨c.current, ahead⟩

/-- Moves on by one lexeme and yields the one left behind.  Where there is no next lexeme the
    end of the text is in view. -/
def take : Parser Lexeme := do
  let lexeme ← current
  modify fun c => { c with current.token := .finish }
  let _ ← advance
  return lexeme

/-- Fails because something else is expected in place of the lexeme in view. -/
def fail (expected : Expectation) : Parser α := do
  let lexeme ← current
  if lexeme.token = .finish then throw (.unexpectedEnd expected)
  else throw (.unexpectedToken expected lexeme.token lexeme.start)

/-- Whether the token in view is `token`. -/
def atToken (token : Token) : Parser Bool := return (← current).token == token

/-- Takes the sign `token`, which is described by `expected`. -/
def expect (token : Token) (expected : Expectation) : Parser Lexeme := do
  if ← atToken token then advance else fail expected

/-! ## Words -/

/-- Whether the token in view is the keyword. -/
def atKeyword (keyword : Text) : Parser Bool := do
  match (← current).token with
  | .word word => return Text.sameWord word keyword
  | _ => return false

/-- Takes the keyword if it is in view, and tells whether it was. -/
def eatKeyword (keyword : Text) : Parser Bool := do
  if ← atKeyword keyword then
    let _ ← advance
    return true
  else return false

/-- Takes the keyword. -/
def expectKeyword (keyword : Text) : Parser Unit := do
  unless ← eatKeyword keyword do fail (.keyword keyword)

/-- Takes a word of any kind. -/
def identifier (expected : Expectation) : Parser Text := do
  match (← current).token with
  | .word word =>
    let _ ← take
    return word
  | _ => fail expected

/-- The member of a set of keywords that is in view. -/
def keywordInView? (κ : Type) [Keyword κ] : Parser (Option κ) := do
  match (← current).token with
  | .word word => return Keyword.ofWord? word
  | _ => return none

/-- Takes a member of a set of keywords. -/
def expectKeywordOf [Keyword κ] (expected : Expectation) : Parser κ := do
  match ← keywordInView? κ with
  | some keyword =>
    let _ ← advance
    return keyword
  | none => fail expected

/-- Takes an alias, if there is a word in view that is not reserved. -/
def aliasName? : Parser (Option Text) := do
  match (← current).token with
  | .word word =>
    if isReserved word then return none
    else
      let _ ← advance
      return some word
  | _ => return none

/-! ## Repetition -/

/-- The results of `step` until it yields none, at most `n` of them. -/
def manyUpTo (step : Parser (Option α)) : Nat → Parser (List α)
  | 0 => return []
  | n + 1 => do
    match ← step with
    | none => return []
    | some a => return a :: (← manyUpTo step n)

/-- The results of `step` until it yields none.  Where every result takes a lexeme the bound on
    their number is never met. -/
def many (step : Parser (Option α)) : Parser (List α) := do
  manyUpTo step ((← get).size + 1)

/-- Runs `item` if `token` is in view, after taking that. -/
def after (token : Token) (item : Parser α) : Parser (Option α) := do
  if ← atToken token then
    let _ ← advance
    return some (← item)
  else return none

/-- Runs `item` if the keyword is in view, after taking that. -/
def afterKeyword (keyword : Text) (item : Parser α) : Parser (Option α) := do
  if ← eatKeyword keyword then return some (← item) else return none

/-- One item or more, with commas between them: the first, and the others. -/
def commaSeparated (item : Parser α) : Parser (α × List α) := do
  let first ← item
  let others ← many (after .comma item)
  return (first, others)

/-- Items up to a closing parenthesis, which is not taken, with commas between them and possibly
    after the last. -/
def untilClose (item : Parser α) (separator : Expectation) : Parser (List α) :=
  many do
    if ← atToken .closeParen then return none
    let a ← item
    unless ← atToken .closeParen do
      let _ ← expect .comma separator
    return some a

/-- The names after a first one in a dotted path. -/
def pathRest : Parser (List Text) := many (after .dot (identifier .fieldNameAfterDot))

/-- A dotted path: its first name, and the others. -/
def path : Parser (Text × List Text) := do
  let first ← identifier .fieldName
  let others ← pathRest
  return (first, others)

/-- A dotted path as it is written. -/
def dottedPath : Parser Text := do
  let (first, others) ← path
  return Text.joinWith "." (first :: others)

end Parser

end Soql
