/-
  Errors of the operations on queries.

  * `JsonError`: why a JSON text or value is not of the wanted form.
  * `QueryError`, `QueryError.message`: why there is no query, or no text.
-/
import Soql.Parse.Error
import Soql.Codec.Fault

namespace Soql

/-- Why a JSON text does not stand for what is wanted. -/
inductive JsonError where
  /-- The text is not JSON. -/
  | malformed
  /-- The value is of another form. -/
  | fault (fault : Fault)

/-- The wording of a JSON error. -/
def JsonError.message : JsonError → Text
  | malformed => "malformed JSON text"
  | fault f => f.message

/-- Why an operation on a query fails. -/
inductive QueryError where
  /-- A field expression of no known kind. -/
  | unsupportedField (tag : Text)
  | parse (error : ParseError)
  | json (error : JsonError)

/-- The wording of a query error. -/
def QueryError.message : QueryError → Text
  | unsupportedField tag => "Unsupported field expression type '" ++ tag ++ "'"
  | parse error => "Parse error: " ++ error.message
  | json error => "Invalid query JSON: " ++ error.message

end Soql
