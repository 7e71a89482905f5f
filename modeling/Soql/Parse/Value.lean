/-
  Parsing of the values of conditions.

  * `value`: one value and its kind.
  * `valueList`: values between parentheses.
  * `rowCount`: the number of a `LIMIT` or an `OFFSET`.
-/
import Soql.Parse.Basic
import Soql.Literal.Classify

namespace Soql

/-- The number that a non-empty run of decimal digits stands for. -/
def Text.number? (t : Text) : Option Nat :=
  if !t.isEmpty && t.all Char.isDigit then
    some (t.foldl (fun n c => 10 * n + (c.toNat - '0'.toNat)) 0)
  else none

namespace Parser

/-- One value and its kind.  A string is without its quotes, a bind variable without its
    colon. -/
def value : Parser (Text × LiteralKind) := do
  let first ← current
  match first.token with
  | .string text =>
    let _ ← take
    return (text, .string)
  | .number text =>
    let _ ← take
    return (text, .ofNumber text)
  | .dateTime text =>
    let _ ← take
    match LiteralKind.ofDate? text with
    | some kind => return (text, kind)
    | none => throw (.invalidValue text first.start)
  | .colon =>
    let _ ← take
    let name ← identifier .bindVariable
    return (name, .bindVariable)
  | .word word =>
    let _ ← take
    if ← atToken .colon then
      let _ ← advance
      match (← current).token with
      | .number count =>
        let _ ← take
        return (word ++ ":" ++ count, .countedDate)
      | _ => fail .dateCount
    else
      match LiteralKind.ofWord? word with
      | some kind => return (word, kind)
      | none => throw (.invalidValue word first.start)
  | _ => fail .value

/-- The values after an opening parenthesis, with the closing one. -/
def valueList : Parser (List (Text × LiteralKind)) := do
  let values ← untilClose value .valueSeparator
  let _ ← expect .closeParen .valuesClose
  return values

/-- The number of rows after the keyword of a clause. -/
def rowCount (clause : Text) : Parser UInt64 := do
  let lexeme ← current
  match lexeme.token with
  | .number text =>
    match text.number? with
    | some n =>
      if n < UInt64.size then
        let _ ← advance
        return n.toUInt64
      else throw (.invalidNumber text lexeme.start)
    | none => throw (.invalidNumber text lexeme.start)
  | _ => fail (.rowCount clause)

end Parser

end Soql
