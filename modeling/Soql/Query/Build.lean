/-
  Building queries part by part.

  * `Query.ofSource`, `Query.ofObject`, `Query.ofRelationship`: queries that
    only select fields.
  * `Field.ofName`, `Field.ofPath`: fields by name or dotted path.
  * `Condition.ofValue`, `Condition.ofQuery`: conditions on a field.
-/
import Soql.Query.Call

namespace Soql

namespace Query

/-- The query that only selects fields from a source. -/
def ofSource (source : Source) (fields : List Field) : Query :=
  { fields, source, aliasName := none, filter := none, grouping := none, sorting := none
    limit := none, offset := none, categories := none, securityEnforced := false
    forTarget := none, update := none }

/-- The query that only selects fields from an object. -/
def ofObject (name : Text) (fields : List Field) : Query := ofSource (.object name) fields

/-- The query that only selects fields from a child relationship. -/
def ofRelationship (name : Text) (fields : List Field) : Query :=
  ofSource (.relationship name []) fields

end Query

namespace Field

/-- The field of that name. -/
def ofName (name : Text) : Field := .plain { name }

/-- The field at the end of a dotted path; without dots it is a plain field. -/
def ofPath (text : Text) : Field :=
  match (text.segments '.').reverse with
  | [] => ofName []
  | [name] => ofName name
  | name :: before => .path { name, path := before.reverse }

end Field

namespace Condition

/-- The comparison of a field with a value, the kind of which is open. -/
def ofValue (field : Text) (comparison : Comparison) (value : FilterValue) : Condition :=
  { opens := 0, closes := 0, negated := false, field := some field, call := none, comparison
    value := some value, kinds := none, query := none }

/-- The comparison of a field with the rows of a query. -/
def ofQuery (field : Text) (comparison : Comparison) (query : Query) : Condition :=
  { opens := 0, closes := 0, negated := false, field := some field, call := none, comparison
    value := none, kinds := none, query := some query }

end Condition

end Soql
