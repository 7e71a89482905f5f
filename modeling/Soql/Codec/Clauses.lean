/-
  The JSON form of the parts of a query that hold no query.

  * `Decode.chain`: filters, which are nested to the right in JSON.
  * `Decode.flatCall`, `grouping`, `sortKeys`, `categories`, `typeOf`, … and
    their counterparts in `Encode`.
-/
import Soql.Codec.Literal
import Soql.Query.Basic

namespace Soql

namespace Decode

variable {κ : Type}

/-! ## Calls -/

/-- A call with its arguments as texts. -/
def flatCall (origin : Origin) : Decoder FlatCall :=
  record
    { name := "FunctionExp"
      slots := [
        defaulted "rawValue" (optional text) fun c v => { c with source := v },
        defaulted "functionName" (optional text) fun c v => { c with name := v },
        defaulted "parameters" (list text) fun c v => { c with arguments := v },
        defaulted "alias" (optional text) fun c v => { c with aliasName := v },
        defaulted "isAggregateFn" bool fun c v => { c with aggregate := v }]
      blank := {} } origin

/-! ## Filters -/

/-- A link of a filter, with the links after it. -/
structure Node (κ : Type) where
  condition : Option κ := none
  connective : Option Connective := none
  right : Option (Chain κ) := none

/-- The filter that starts with a link. -/
def Node.toChain (node : Node κ) : Chain κ :=
  ⟨⟨node.condition, node.connective⟩, (node.right.map Chain.links).getD []⟩

/-- A filter of the type called `name`, at most `n` links long. -/
def chainUpTo (name : Text) (condition : Decoder κ) (origin : Origin) :
    Nat → Decoder (Chain κ)
  | 0 => fun v => .error (.invalidType v ("struct " ++ name))
  | n + 1 => fun v => Node.toChain <$> record
    { name
      slots := [
        defaulted "left" (optional condition) fun (s : Node κ) v => { s with condition := v },
        defaulted "operator" (optional keyword) fun s v => { s with connective := v },
        defaulted "right" (optional (chainUpTo name condition origin n))
          fun s v => { s with right := v }]
      blank := {} } origin v

/-- A filter of the type called `name`.  Every link lies in an object or an array of its own. -/
def chain (name : Text) (condition : Decoder κ) (origin : Origin) : Decoder (Chain κ) := fun v =>
  chainUpTo name condition origin (v.depth + 1) v

/-- A number of parentheses. -/
def parenCount : Decoder Nat := natBelow UInt32.size "u32"

/-- A condition of `HAVING`. -/
def groupCondition (origin : Origin) : Decoder GroupCondition :=
  record
    { name := "HavingCondition"
      slots := [
        defaulted "openParen" parenCount fun c v => { c with opens := v },
        defaulted "closeParen" parenCount fun c v => { c with closes := v },
        defaulted "field" (optional text) fun c v => { c with field := v },
        defaulted "fn" (optional (flatCall origin)) fun c v => { c with call := v },
        required "operator" keyword fun c v => { c with comparison := v },
        required "value" scalarText fun c v => { c with value := v }]
      blank := { field := none, call := none, comparison := .equal, value := [] } } origin

/-- The filter of a `HAVING` clause. -/
def groupFilter (origin : Origin) : Decoder (Chain GroupCondition) :=
  chain "HavingClause" (groupCondition origin) origin

/-! ## Grouping and sorting -/

/-- The fields of `GROUP BY`. -/
def groupFields : Decoder GroupFields :=
  either "GroupByFields" (fun v => .one <$> text v) (fun v => .many <$> list text v)

/-- A `GROUP BY` clause with its `HAVING` clause. -/
def grouping (origin : Origin) : Decoder Grouping :=
  record
    { name := "GroupByClause"
      slots := [
        defaulted "field" (optional groupFields) fun g v => { g with fields := v },
        defaulted "fn" (optional (flatCall origin)) fun g v => { g with call := v },
        defaulted "having" (optional (groupFilter origin)) fun g v => { g with having := v }]
      blank := {} } origin

/-- A key of `ORDER BY`. -/
def sortKey (origin : Origin) : Decoder SortKey :=
  record
    { name := "OrderByClause"
      slots := [
        defaulted "field" (optional text) fun k v => { k with field := v },
        defaulted "fn" (optional (flatCall origin)) fun k v => { k with call := v },
        defaulted "order" (optional keyword) fun k v => { k with order := v },
        defaulted "nulls" (optional keyword) fun k v => { k with nulls := v }]
      blank := {} } origin

/-- The keys of `ORDER BY`: one, or a list. -/
def sortKeys : Decoder SortKeys :=
  either "OrderByClauses" (fun v => .one <$> sortKey .heldBack v)
    (fun v => .many <$> list (sortKey .heldBack) v)

/-! ## Data categories -/

/-- A condition on a group of data categories. -/
def categoryCondition (origin : Origin) : Decoder CategoryCondition :=
  record
    { name := "DataCategoryCondition"
      slots := [
        required "groupName" text fun c v => { c with group := v },
        required "selector" keyword fun c v => { c with selector := v },
        required "parameters" (list text) fun c v => { c with categories := v }]
      blank := { group := [], selector := .exactly, categories := [] } } origin

/-- The conditions of a `WITH DATA CATEGORY` clause. -/
def categories (origin : Origin) : Decoder (List CategoryCondition) :=
  record
    { name := "WithDataCategoryClause"
      slots := [required "conditions" (list (categoryCondition origin)) fun _ v => v]
      blank := [] } origin

/-! ## Fields that hold no query -/

/-- A field by its name. -/
def plainField (origin : Origin) : Decoder PlainField :=
  record
    { name := "Field"
      slots := [
        required "field" text fun f v => { f with name := v },
        defaulted "objectPrefix" (optional text) fun f v => { f with owner := v },
        defaulted "alias" (optional text) fun f v => { f with aliasName := v }]
      blank := { name := [] } } origin

/-- A field reached through relationships. -/
def pathField (origin : Origin) : Decoder PathField :=
  record
    { name := "FieldRelationship"
      slots := [
        required "field" text fun f v => { f with name := v },
        required "relationships" (list text) fun f v => { f with path := v },
        defaulted "objectPrefix" (optional text) fun f v => { f with owner := v },
        defaulted "alias" (optional text) fun f v => { f with aliasName := v }]
      blank := { name := [], path := [] } } origin

/-- A branch of `TYPEOF`. -/
def typeBranch (origin : Origin) : Decoder TypeBranch :=
  record
    { name := "TypeOfCondition"
      slots := [
        required "type" keyword fun b v => { b with kind := v },
        defaulted "objectType" (optional text) fun b v => { b with object := v },
        required "fieldList" (list text) fun b v => { b with fields := v }]
      blank := { kind := .when, object := none, fields := [] } } origin

/-- A `TYPEOF` expression. -/
def typeOf (origin : Origin) : Decoder TypeOf :=
  record
    { name := "FieldTypeOf"
      slots := [
        required "field" text fun e v => { e with field := v },
        required "conditions" (list (typeBranch origin)) fun e v => { e with branches := v }]
      blank := { field := [], branches := [] } } origin

end Decode

namespace Encode

/-! ## Members of objects -/

/-- Members of an object. -/
abbrev Members := List (Text × Json)

/-- A member that is always there. -/
def always (key : Text) (value : Json) : Members := [(key, value)]

/-- A member for a value that may be absent. -/
def present (key : Text) (value : Option Json) : Members :=
  match value with
  | some v => [(key, v)]
  | none => []

/-- A member for a text that may be absent. -/
def presentText (key : Text) (value : Option Text) : Members := present key (value.map .str)

/-- A member that is there only if it is true. -/
def flag (key : Text) (value : Bool) : Members := if value then [(key, .bool true)] else []

/-- A member for a count, which is there unless that is zero. -/
def count (key : Text) (n : Nat) : Members := if n = 0 then [] else [(key, .int n)]

/-- A member for a list of texts, which is there unless that is empty. -/
def someTexts (key : Text) (ts : List Text) : Members :=
  if ts.isEmpty then [] else [(key, texts ts)]

/-! ## Clauses -/

/-- A call with its arguments as texts. -/
def flatCall (c : FlatCall) : Json :=
  .obj (presentText "rawValue" c.source ++ presentText "functionName" c.name
    ++ someTexts "parameters" c.arguments ++ presentText "alias" c.aliasName
    ++ flag "isAggregateFn" c.aggregate)

/-- Links as one object inside of another, the first outermost; nothing for no links. -/
def links : List (Link Json) → Option Json
  | [] => none
  | link :: rest =>
    some (.obj (present "left" link.condition
      ++ present "operator" (link.connective.map keyword) ++ present "right" (links rest)))

/-- A filter whose conditions are already encoded. -/
def chain (c : Chain Json) : Json := (links c.links).getD .null

/-- A condition of `HAVING`. -/
def groupCondition (c : GroupCondition) : Json :=
  .obj (count "openParen" c.opens ++ count "closeParen" c.closes ++ presentText "field" c.field
    ++ present "fn" (c.call.map flatCall) ++ always "operator" (keyword c.comparison)
    ++ always "value" (.str c.value))

/-- The fields of `GROUP BY`. -/
def groupFields : GroupFields → Json
  | .one name => .str name
  | .many names => texts names

/-- A `GROUP BY` clause with its `HAVING` clause. -/
def grouping (g : Grouping) : Json :=
  .obj (present "field" (g.fields.map groupFields) ++ present "fn" (g.call.map flatCall)
    ++ present "having" (g.having.map fun c => chain (c.map groupCondition)))

/-- A key of `ORDER BY`. -/
def sortKey (k : SortKey) : Json :=
  .obj (presentText "field" k.field ++ present "fn" (k.call.map flatCall)
    ++ present "order" (k.order.map keyword) ++ present "nulls" (k.nulls.map keyword))

/-- The keys of `ORDER BY`. -/
def sortKeys : SortKeys → Json
  | .one key => sortKey key
  | .many keys => .arr (keys.map sortKey)

/-- A condition on a group of data categories. -/
def categoryCondition (c : CategoryCondition) : Json :=
  .obj (always "groupName" (.str c.group) ++ always "selector" (keyword c.selector)
    ++ always "parameters" (texts c.categories))

/-- The conditions of a `WITH DATA CATEGORY` clause. -/
def categories (cs : List CategoryCondition) : Json :=
  .obj (always "conditions" (.arr (cs.map categoryCondition)))

/-- A branch of `TYPEOF`. -/
def typeBranch (b : TypeBranch) : Json :=
  .obj (always "type" (keyword b.kind) ++ presentText "objectType" b.object
    ++ always "fieldList" (texts b.fields))

end Encode

end Soql
