/-
  Commands — what the program `soql` can be asked for.

  * `Command`: laying out a query, composing one from JSON, parsing one to
    JSON.
  * `Command.run`: the output of a command, or why there is none.
-/
import Soql.Codec.Form
import Soql.Compose.Query
import Soql.Parse.Query

namespace Soql

/-- The query of a text, laid out over several lines. -/
def Query.reformat (text : Text) (options : LayoutOptions) : Except QueryError Text :=
  match Query.parse text with
  | .ok q => .ok (q.compose (.spreading options))
  | .error error => .error (.parse error)

/-- A command. -/
inductive Command where
  /-- Lays out a query over several lines. -/
  | format (query : Text) (tabs lineWidth : Option Nat) (indentConnectives : Bool)
  /-- Composes a query from its JSON form. -/
  | compose (input : Option Text) (spread logging : Bool)
  /-- Parses a query to its JSON form. -/
  | parse (query : Text) (pretty : Bool)

/-- Why a command has no output. -/
inductive CommandError where
  | query (error : QueryError)
  /-- There is nothing to compose. -/
  | noInput

/-- The wording of a command error. -/
def CommandError.message : CommandError → Text
  | query error => error.message
  | noInput => "No input provided. Use --input or pipe query JSON to stdin."

namespace Command

/-- The layout options with what a command sets. -/
def layoutOptions (tabs lineWidth : Option Nat) (indentConnectives : Bool) : LayoutOptions :=
  let defaults : LayoutOptions := {}
  { defaults with
    tabs := tabs.getD defaults.tabs
    lineWidth := lineWidth.getD defaults.lineWidth
    indentConnectives }

/-- The output of a command. -/
def run : Command → Except CommandError Text
  | format query tabs lineWidth indentConnectives =>
    match Query.reformat query (layoutOptions tabs lineWidth indentConnectives) with
    | .ok text => .ok text
    | .error error => .error (.query error)
  | compose none _ _ => .error .noInput
  | compose (some input) spread logging =>
    match Query.ofJsonText input with
    | .ok q => .ok (q.compose { spread, logging })
    | .error error => .error (.query error)
  | parse query pretty =>
    match Query.parse query with
    | .ok q => .ok (if pretty then q.toJsonPretty else q.toJsonText)
    | .error error => .error (.query (.parse error))

end Command

end Soql
