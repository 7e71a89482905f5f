/-
  Unknown tags — field expressions of no known kind, looked for before a
  query is decoded.

  Only tags are looked at: a value of another shape than expected has no tag
  in it, and is left to the decoder.

  * `unknownTag?`: the first tag in a query that is no kind of field
    expression.  The fields of a query come in order, each before its own
    query or arguments; then come the queries along the filter.
-/
import Soql.Codec.Query

namespace Soql.Tags

/-- The items of the array that a member of an object is; none if it is something else. -/
def itemsOf (key : Text) (v : Json) : List Json := ((v.get? key).bind Json.items?).getD []

/-- The word in the member `type`. -/
def tagOf (v : Json) : Option Text := (v.get? "type").bind Json.text?

mutual

/-- The first unknown tag in a query, at most `n` steps down. -/
def inQuery : Nat → Json → Option Text
  | 0, _ => none
  | n + 1, v =>
    ((itemsOf "fields" v).findSome? (inField n)).or ((v.get? "where").bind (inFilter n))

/-- The first unknown tag in a field expression, at most `n` steps down.  Without a word for a
    tag nothing in it is looked at. -/
def inField : Nat → Json → Option Text
  | 0, _ => none
  | n + 1, v =>
    match tagOf v with
    | none => none
    | some word =>
      if (FieldTag.ofWord? word).isNone then some word
      else ((v.get? "subquery").bind (inQuery n)).or
        ((itemsOf "parameters" v).findSome? (inField n))

/-- The first unknown tag in the queries along a filter, at most `n` steps down. -/
def inFilter : Nat → Json → Option Text
  | 0, _ => none
  | n + 1, v =>
    (((v.get? "left").bind fun condition => condition.get? "valueQuery").bind (inQuery n)).or
      ((v.get? "right").bind (inFilter n))

end

/-- The first unknown tag in a query.  Every step goes into an array or an object. -/
def unknownTag? (v : Json) : Option Text := inQuery (v.depth + 1) v

end Soql.Tags
