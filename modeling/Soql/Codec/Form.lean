/-
  Queries from and to JSON.

  * `Query.ofJson`, `Query.ofJsonText`: the query of a value or of a text.
    Unknown tags are told before any other fault.
  * `Query.toJsonText`, `Query.toJsonPretty`: the text of the JSON form.
-/
import Soql.Codec.Tags
import Soql.Json.Read
import Soql.Error

namespace Soql.Query

/-- The query that a JSON value stands for. -/
def ofJson (v : Json) : Except QueryError Query :=
  match Tags.unknownTag? v with
  | some tag => .error (.unsupportedField tag)
  | none =>
    match Decode.query v with
    | .ok q => .ok q
    | .error fault => .error (.json (.fault fault))

/-- The query that a JSON text stands for. -/
def ofJsonText (t : Text) : Except QueryError Query :=
  match Json.read t with
  | some v => ofJson v
  | none => .error (.json .malformed)

/-- The JSON form of a query without blanks. -/
def toJsonText (q : Query) : Text := (Encode.query q).render

/-- The JSON form of a query over several lines. -/
def toJsonPretty (q : Query) : Text := (Encode.query q).renderPretty

end Soql.Query
