/-
  Writing JSON text.

  * `Json.render`: a value without blanks.
  * `Json.renderPretty`: a value over several lines, two spaces a level.
-/
import Soql.Json.Number

namespace Soql.Json

/-- A character inside a string. -/
def escapeChar (c : Char) : Text :=
  if c = '"' then "\\\""
  else if c = '\\' then "\\\\"
  else if c = '\x08' then "\\b"
  else if c = '\x0c' then "\\f"
  else if c = '\n' then "\\n"
  else if c = '\r' then "\\r"
  else if c = '\t' then "\\t"
  else if c < ' ' then
    "\\u00" ++ [Nat.digitChar (c.toNat / 16), Nat.digitChar (c.toNat % 16)]
  else [c]

/-- A string between quotes. -/
def stringText (t : Text) : Text := '"' :: t.flatMap escapeChar ++ ['"']

mutual

/-- A value without blanks. -/
def render : Json → Text
  | null => "null"
  | bool true => "true"
  | bool false => "false"
  | int i => intText i
  | real x => realText x
  | str t => stringText t
  | arr items => "[" ++ Text.joinWith "," (renderItems items) ++ "]"
  | obj members => "\x7b" ++ Text.joinWith "," (renderMembers members) ++ "\x7d"

/-- The items of an array. -/
def renderItems : List Json → List Text
  | [] => []
  | item :: items => item.render :: renderItems items

/-- The members of an object. -/
def renderMembers : List (Text × Json) → List Text
  | [] => []
  | (key, value) :: members => (stringText key ++ ":" ++ value.render) :: renderMembers members

end

/-- A line break with the indentation of a level. -/
def newLine (level : Nat) : Text := '\n' :: List.replicate (2 * level) ' '

/-- Pieces between brackets, each on a line of its own, at a level below `level`. -/
def block (level : Nat) (opening closing : Char) (pieces : List Text) : Text :=
  match pieces with
  | [] => [opening, closing]
  | _ =>
    [opening] ++ newLine (level + 1) ++ Text.joinWith (',' :: newLine (level + 1)) pieces
      ++ newLine level ++ [closing]

mutual

/-- A value over several lines, at an indentation level. -/
def renderAt (level : Nat) : Json → Text
  | arr items => block level '[' ']' (renderItemsAt (level + 1) items)
  | obj members => block level '\x7b' '\x7d' (renderMembersAt (level + 1) members)
  | null => "null"
  | bool true => "true"
  | bool false => "false"
  | int i => intText i
  | real x => realText x
  | str t => stringText t

/-- The items of an array, at an indentation level. -/
def renderItemsAt (level : Nat) : List Json → List Text
  | [] => []
  | item :: items => item.renderAt level :: renderItemsAt level items

/-- The members of an object, at an indentation level. -/
def renderMembersAt (level : Nat) : List (Text × Json) → List Text
  | [] => []
  | (key, value) :: members =>
    (stringText key ++ ": " ++ value.renderAt level) :: renderMembersAt level members

end

/-- A value over several lines. -/
def renderPretty (value : Json) : Text := value.renderAt 0

end Soql.Json
