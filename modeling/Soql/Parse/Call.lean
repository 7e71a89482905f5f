/-
  Parsing of function calls and of the subjects of conditions and keys.

  * `call`: the call whose name has just been taken.
  * `subject`: a field path or a call.
-/
import Soql.Parse.Basic
import Soql.Query.Call

namespace Soql

/-- What a condition compares, or what rows are grouped or sorted by. -/
inductive Subject where
  | field (path : Text)
  | call (call : FlatCall)
deriving DecidableEq

namespace Subject

/-- The path of a field. -/
def field? : Subject → Option Text
  | field path => some path
  | call _ => none

/-- The call of a function. -/
def call? : Subject → Option FlatCall
  | field _ => none
  | call c => some c

end Subject

namespace Parser

/-- The rest of a call from its opening parenthesis on.  Its source text goes from the name, at
    `first`, to the closing parenthesis. -/
def callAfterName (arguments : Parser (List Argument)) (first : Lexeme) (name : Text) :
    Parser Call := do
  let _ ← expect .openParen .callOpen
  let arguments ← arguments
  let last ← expect .closeParen .callClose
  return { Call.ofParts name arguments none with source := some (first.textUpTo last) }

/-- An argument of a call; `arguments` reads those of a nested call. -/
def argument (arguments : Parser (List Argument)) : Parser Argument := do
  match (← current).token with
  | .word name =>
    let first ← advance
    if ← atToken .openParen then
      return .field (.call (← callAfterName arguments first name))
    else
      let others ← pathRest
      return .text (Text.joinWith "." (name :: others))
  | .string text =>
    let _ ← advance
    return .text ('\'' :: text ++ ['\''])
  | .number text =>
    let _ ← advance
    return .text text
  | .dateTime text =>
    let _ ← advance
    return .text text
  | _ => fail .argument

/-- The arguments of a call up to its closing parenthesis, which is not taken; at most `n` of
    them at most `n` calls deep. -/
def argumentsUpTo : Nat → Parser (List Argument)
  | 0 => return []
  | n + 1 => do
    if ← atToken .closeParen then return []
    let a ← argument (argumentsUpTo n)
    unless ← atToken .closeParen do
      let _ ← expect .comma .argumentSeparator
    return a :: (← argumentsUpTo n)

/-- The call whose name was taken as `first`; its opening parenthesis is in view. -/
def call (first : Lexeme) (name : Text) : Parser Call := do
  callAfterName (argumentsUpTo ((← get).size + 1)) first name

/-- A field path or a call. -/
def subject : Parser Subject := do
  let first ← current
  let name ← identifier .fieldOrFunction
  if ← atToken .openParen then
    return .call (← call first name).flatten
  else
    let others ← pathRest
    return .field (Text.joinWith "." (name :: others))

end Parser

end Soql
