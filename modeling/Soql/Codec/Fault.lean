/-
  Faults — why a JSON value is not the form of what it should be.

  * `Json.describe`: a value as faults show it.
  * `Fault`, `Fault.message`: the faults and their wording.
-/
import Soql.Json.Write
import Soql.Text.Quoted

namespace Soql

/-- A value as faults show it: scalars themselves, arrays and objects by their kind. -/
def Json.describe : Json → Text
  | null => "null"
  | bool true => "boolean `true`"
  | bool false => "boolean `false`"
  | int i => "integer `" ++ intText i ++ "`"
  | real x => "floating point `" ++ realText x ++ "`"
  | str t => "string " ++ Text.quote t
  | arr _ => "sequence"
  | obj _ => "map"

/-- Why a JSON value is not of the wanted form. -/
inductive Fault where
  /-- A value of another type. -/
  | invalidType (found : Json) (wanted : Text)
  /-- An integer out of range. -/
  | invalidInteger (found : Int) (wanted : Text)
  /-- An array of the wrong length. -/
  | invalidLength (found : Nat) (wanted : Text)
  /-- An object without a member that it must have. -/
  | missingField (key : Text)
  /-- A word that is none of the expected ones. -/
  | unknownVariant (word : Text) (wanted : List Text)
  /-- A value that has none of the forms of a type. -/
  | noVariant (type : Text)
  /-- An array or an object where a scalar should stand. -/
  | notScalar (found : Json)

/-- A word as faults show it. -/
def backticked (word : Text) : Text := "`" ++ word ++ "`"

/-- The words to choose from. -/
def choiceText : List Text → Text
  | [a] => backticked a
  | [a, b] => backticked a ++ " or " ++ backticked b
  | words => "one of " ++ Text.joinWith ", " (words.map backticked)

/-- The wording of a fault. -/
def Fault.message : Fault → Text
  | invalidType found wanted => "invalid type: " ++ found.describe ++ ", expected " ++ wanted
  | invalidInteger found wanted =>
    "invalid value: integer " ++ backticked (Json.intText found) ++ ", expected " ++ wanted
  | invalidLength found wanted =>
    "invalid length " ++ Text.decimal found ++ ", expected " ++ wanted
  | missingField key => "missing field " ++ backticked key
  | unknownVariant word wanted =>
    "unknown variant " ++ backticked word ++ ", expected " ++ choiceText wanted
  | noVariant type => "data did not match any variant of untagged enum " ++ type
  | notScalar found => "expected a scalar value, found " ++ found.render

end Soql
