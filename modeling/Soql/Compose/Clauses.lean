/-
  The text of the parts of a query that hold no query.

  * `FlatCall.text`, `Grouping.text`, `SortKey.text`, `categoriesText`,
    `TypeOf.text`, `Source.text`, `GroupCondition.text`.
-/
import Soql.Query.Call

namespace Soql

/-- The text after the qualifier and a dot, if there is a qualifier. -/
def qualified (owner : Option Text) (text : Text) : Text :=
  match owner with
  | some owner => owner ++ "." ++ text
  | none => text

/-- The text with the alias after it, if there is one. -/
def aliased (text : Text) (aliasName : Option Text) : Text :=
  match aliasName with
  | some aliasName => text ++ " " ++ aliasName
  | none => text

/-! ## Fields -/

/-- A field by its name. -/
def PlainField.text (f : PlainField) : Text := aliased (qualified f.owner f.name) f.aliasName

/-- A field reached through relationships. -/
def PathField.text (f : PathField) : Text :=
  aliased (qualified f.owner (Text.joinWith "." (f.path ++ [f.name]))) f.aliasName

/-- A branch of `TYPEOF`. -/
def TypeBranch.text (b : TypeBranch) : Text :=
  let fields := Text.joinWith ", " b.fields
  match b.object with
  | some object => Keyword.spelling b.kind ++ " " ++ object ++ " THEN " ++ fields
  | none => Keyword.spelling b.kind ++ " " ++ fields

/-- A `TYPEOF` expression. -/
def TypeOf.text (e : TypeOf) : Text :=
  "TYPEOF " ++ e.field ++ " " ++ Text.joinWith " " (e.branches.map TypeBranch.text) ++ " END"

/-! ## Calls -/

/-- A call as it was written, or put together from its parts, with its alias. -/
def FlatCall.text (c : FlatCall) : Text :=
  let text := match c.source, c.name with
    | some source, _ => source
    | none, some name => callText name c.arguments
    | none, none => ""
  match c.aliasName with
  | some aliasName => Text.trim (text ++ " " ++ aliasName)
  | none => text

/-- What a condition compares: the call if there is one, otherwise the field. -/
def subjectText (field : Option Text) (call : Option FlatCall) : Text :=
  match call with
  | some call => call.text
  | none => field.getD []

/-! ## Clauses -/

/-- A source, with its alias. -/
def sourceText (source : Source) (aliasName : Option Text) : Text :=
  let text := match source with
    | .object name => name
    | .relationship name path => Text.joinWith "." (path ++ [name])
  aliased text aliasName

/-- A condition of `HAVING` with the parentheses around it. -/
def GroupCondition.text (c : GroupCondition) : Text :=
  List.replicate c.opens '(' ++ subjectText c.field c.call ++ " " ++ Keyword.spelling c.comparison
    ++ " " ++ c.value ++ List.replicate c.closes ')'

/-- The keys of `GROUP BY`: a call put together from its parts if it has a name. -/
def Grouping.text (g : Grouping) : Text :=
  match g.call with
  | some call =>
    match call.name with
    | some name => callText name call.arguments
    | none => call.text
  | none =>
    match g.fields with
    | some fields => Text.joinWith ", " fields.toList
    | none => ""

/-- A key of `ORDER BY`: its subject, its direction and the place of nulls. -/
def SortKey.text (k : SortKey) : Text :=
  let subject := match k.field, k.call with
    | some field, _ => field
    | none, some call => call.text
    | none, none => ""
  let order := (k.order.map Keyword.spelling).toList
  let nulls := (k.nulls.map fun place => "NULLS " ++ Keyword.spelling place).toList
  Text.joinWith " " ((subject :: (order ++ nulls)).filter (!·.isEmpty))

/-- A condition on a group of data categories; several categories stand between parentheses. -/
def CategoryCondition.text (c : CategoryCondition) : Text :=
  let categories := Text.joinWith ", " c.categories
  c.group ++ " " ++ Keyword.spelling c.selector ++ " "
    ++ (if 1 < c.categories.length then "(" ++ categories ++ ")" else categories)

/-- The conditions of `WITH DATA CATEGORY`. -/
def categoriesText (cs : List CategoryCondition) : Text :=
  Text.joinWith " AND " (cs.map CategoryCondition.text)

end Soql
