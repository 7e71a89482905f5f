/-
  Calls — function calls with nested arguments, and their flat form.

  * `Call.ofParts`: a call from its name and arguments.
  * `Call.flatten`: the call with its arguments as texts.
  * `FlatCall.ofParts`: a flat call from its name and arguments.
-/
import Soql.Query.Basic

namespace Soql

/-- The call of a function by name, with no source text. -/
def Call.ofParts (name : Text) (arguments : List Argument) (aliasName : Option Text) : Call :=
  { name, arguments, aliasName, aggregate := isAggregate name, source := none }

/-- A nested argument as text: a call as it was written, a field by its path. -/
def Argument.flatText : Argument → Text
  | .text t => t
  | .field (.call c) => c.source.getD c.name
  | .field (.plain f) => f.name
  | .field (.path f) => Text.joinWith "." f.path ++ "." ++ f.name
  | .field (.subquery _) => ""
  | .field (.typeOf _) => ""

/-- The call with its arguments as texts. -/
def Call.flatten (call : Call) : FlatCall :=
  { source := call.source
    name := some call.name
    arguments := call.arguments.map Argument.flatText
    aliasName := none
    aggregate := isAggregate call.name }

/-- A name with arguments between parentheses. -/
def callText (name : Text) (arguments : List Text) : Text :=
  name ++ "(" ++ Text.joinWith ", " arguments ++ ")"

/-- The call of a function on texts, written out as its source text. -/
def FlatCall.ofParts (name : Text) (arguments : List Text) : FlatCall :=
  { source := some (callText name arguments)
    name := some name
    arguments
    aliasName := none
    aggregate := isAggregate name }

end Soql
