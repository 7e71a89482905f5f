/-
  The JSON form of queries.

  A field expression carries its kind in the member `type`; the source of a
  query is told by the members that name it.

  * `Decode.query`, `Decode.field`, `Decode.condition`.
  * `Encode.query`, `Encode.field`, `Encode.condition`.
-/
import Soql.Codec.Clauses

namespace Soql

/-- The kinds of field expressions. -/
inductive FieldTag where
  | plain | call | path | subquery | typeOf
deriving DecidableEq

namespace FieldTag

/-- The kinds in their order. -/
def all : List FieldTag := [.plain, .call, .path, .subquery, .typeOf]

/-- The word that tells the kind. -/
def word : FieldTag → Text
  | plain => "Field"
  | call => "FieldFunctionExpression"
  | path => "FieldRelationship"
  | subquery => "FieldSubquery"
  | typeOf => "FieldTypeof"

/-- The kind that a word tells, if it is spelled exactly. -/
def ofWord? (w : Text) : Option FieldTag := all.find? (·.word == w)

end FieldTag

namespace Decode

/-! ## Parts that hold queries -/

/-- The kind of a field expression.  Held back, it may also be told by its number. -/
def fieldTag (origin : Origin) : Decoder FieldTag
  | .str w =>
    match FieldTag.ofWord? w with
    | some tag => .ok tag
    | none => .error (.unknownVariant w (FieldTag.all.map FieldTag.word))
  | .int i =>
    if origin = .heldBack ∧ 0 ≤ i then
      match FieldTag.all[i.toNat]? with
      | some tag => .ok tag
      | none => .error (.invalidInteger i "variant index 0 <= i < 5")
    else .error (.invalidType (.int i) "variant identifier")
  | v => .error (.invalidType v "variant identifier")

/-- The kind of a field expression and what is left of it without that. -/
def splitTag (origin : Origin) : Decoder (FieldTag × Json)
  | .obj members =>
    match members.lookup ("type" : Text) with
    | some v => return (← fieldTag origin v, .obj (members.filter (·.1 != ("type" : Text))))
    | none => .error (.missingField "type")
  | .arr (v :: items) => return (← fieldTag origin v, .arr items)
  | .arr [] => .error (.missingField "type")
  | v => .error (.invalidType v "internally tagged enum FieldType")

/-- An argument of a call: a text, or a field expression. -/
def argument (field : Decoder Field) : Decoder Argument :=
  either "FunctionParameter" (fun v => .text <$> text v) (fun v => .field <$> field v)

/-- A function call; `field` reads nested expressions. -/
def call (field : Decoder Field) (origin : Origin) : Decoder Call :=
  record
    { name := "FieldFunctionExpression"
      slots := [
        required "functionName" text fun c v => { c with name := v },
        defaulted "parameters" (list (argument field)) fun c v => { c with arguments := v },
        defaulted "alias" (optional text) fun c v => { c with aliasName := v },
        defaulted "isAggregateFn" bool fun c v => { c with aggregate := v },
        defaulted "rawValue" (optional text) fun c v => { c with source := v }]
      blank := { name := [], arguments := [], aliasName := none, aggregate := false
                 source := none } } origin

/-- A query as a field; `query` reads it. -/
def subquery (query : Decoder Query) (origin : Origin) : Decoder (Option Query) :=
  record
    { name := "FieldSubquery"
      slots := [required "subquery" query fun _ v => some v]
      blank := none } origin

/-- A condition of `WHERE`; `query` reads a query to compare with. -/
def condition (query : Decoder Query) (origin : Origin) : Decoder Condition :=
  record
    { name := "Condition"
      slots := [
        defaulted "openParen" parenCount fun c v => { c with opens := v },
        defaulted "closeParen" parenCount fun c v => { c with closes := v },
        defaulted "logicalPrefix" (optional (keyword : Decoder Negation))
          fun c v => { c with negated := v.isSome },
        defaulted "field" (optional text) fun c v => { c with field := v },
        defaulted "fn" (optional (flatCall origin)) fun c v => { c with call := v },
        required "operator" keyword fun c v => { c with comparison := v },
        defaulted "value" (optional filterValue) fun c v => { c with value := v },
        defaulted "literalType" (optional literalKinds) fun c v => { c with kinds := v },
        defaulted "valueQuery" (optional query) fun c v => { c with query := v }]
      blank := { opens := 0, closes := 0, negated := false, field := none, call := none
                 comparison := .equal, value := none, kinds := none, query := none } } origin

/-- The filter of a `WHERE` clause; `query` reads a query to compare with. -/
def filter (query : Decoder Query) (origin : Origin) : Decoder (Chain Condition) :=
  chain "WhereClause" (condition query origin) origin

/-- The members that name a relationship. -/
def relationship : Decoder Source := fun v => do
  let (name, path) ← record
    { name := "QuerySource"
      slots := [
        required "relationshipName" text fun (s : Text × List Text) v => (v, s.2),
        defaulted "sObjectPrefix" (list text) fun s v => (s.1, v)]
      blank := ([], []) } .heldBack v
  return .relationship name path

/-- The member that names an object. -/
def object : Decoder Source := fun v => do
  let name ← record
    { name := "QuerySource"
      slots := [required "sObject" text fun _ v => v]
      blank := [] } .heldBack v
  return .object name

/-- The source of a query from the members that are none of its other components. -/
def source : Decoder Source := either "QuerySource" relationship object

/-- The components of a query apart from its source; `field` and `query` read what lies in it. -/
def queryRecord (field : Decoder Field) (query : Decoder Query) (origin : Origin) :
    Record Query where
  name := "Query"
  slots := [
    required "fields" (list field) fun q v => { q with fields := v },
    defaulted "sObjectAlias" (optional text) fun q v => { q with aliasName := v },
    defaulted "where" (optional (filter query origin)) fun q v => { q with filter := v },
    defaulted "groupBy" (optional (grouping origin)) fun q v => { q with grouping := v },
    defaulted "orderBy" (optional sortKeys) fun q v => { q with sorting := v },
    defaulted "limit" (optional (natBelow UInt64.size "u64"))
      fun q v => { q with limit := v.map Nat.toUInt64 },
    defaulted "offset" (optional (natBelow UInt64.size "u64"))
      fun q v => { q with offset := v.map Nat.toUInt64 },
    defaulted "withDataCategory" (optional (categories origin))
      fun q v => { q with categories := v },
    defaulted "withSecurityEnforced" bool fun q v => { q with securityEnforced := v },
    defaulted "for" (optional keyword) fun q v => { q with forTarget := v },
    defaulted "update" (optional keyword) fun q v => { q with update := v }]
  blank :=
    { fields := [], source := .object [], aliasName := none, filter := none, grouping := none
      sorting := none, limit := none, offset := none, categories := none
      securityEnforced := false, forTarget := none, update := none }

/-- A query; `field` and `query` read what lies in it.  Only an object is one. -/
def queryWith (field : Decoder Field) (query : Decoder Query) (origin : Origin) : Decoder Query
  | .obj members => do
    let form := queryRecord field query origin
    let q ← recordOfMembers form members
    let others := members.filter fun (key, _) => form.slots.all (·.key != key)
    return { q with source := ← source (.obj others) }
  | v => .error (.invalidType v "struct Query")

/-- A field expression; `field` and `query` read what lies in it. -/
def fieldWith (field : Decoder Field) (query : Decoder Query) (origin : Origin) :
    Decoder Field := fun v => do
  let (tag, content) ← splitTag origin v
  match tag with
  | .plain => .plain <$> plainField .heldBack content
  | .call => .call <$> call field .heldBack content
  | .path => .path <$> pathField .heldBack content
  | .subquery =>
    match ← subquery query .heldBack content with
    | some q => return .subquery q
    | none => .error (.missingField "subquery")
  | .typeOf => .typeOf <$> typeOf .heldBack content

/-! ## Queries -/

mutual

/-- A query with at most `n` queries and field expressions inside of one another. -/
def queryUpTo : Nat → Origin → Decoder Query
  | 0, _ => fun v => .error (.invalidType v "struct Query")
  | n + 1, origin => queryWith (fieldUpTo n origin) (queryUpTo n origin) origin

/-- A field expression with at most `n` queries and field expressions inside of one another. -/
def fieldUpTo : Nat → Origin → Decoder Field
  | 0, _ => fun v => .error (.invalidType v "internally tagged enum FieldType")
  | n + 1, origin => fieldWith (fieldUpTo n .heldBack) (queryUpTo n .heldBack) origin

end

/-- A query.  What lies in it lies in arrays or objects of its own. -/
def query : Decoder Query := fun v => queryUpTo (v.depth + 1) .direct v

/-- A field expression.  What lies in it lies in arrays or objects of its own. -/
def field : Decoder Field := fun v => fieldUpTo (v.depth + 1) .direct v

end Decode

namespace Encode

/-- The members that name a source. -/
def source : Source → Members
  | .relationship name path =>
    always "relationshipName" (.str name) ++ someTexts "sObjectPrefix" path
  | .object name => always "sObject" (.str name)

/-- A number of rows. -/
def rowCount (n : UInt64) : Json := .int n.toNat

/-- The member that tells the kind of a field expression. -/
def tag (t : FieldTag) : Members := always "type" (.str t.word)

mutual

/-- A query. -/
def query : Query → Json
  | ⟨fs, src, aliasName, filter, grouping?, sorting, limit, offset, categories?, securityEnforced,
      forTarget, update⟩ =>
    .obj (always "fields" (.arr (fields fs)) ++ source src ++ presentText "sObjectAlias" aliasName
      ++ present "where" (filter? filter) ++ present "groupBy" (grouping?.map grouping)
      ++ present "orderBy" (sorting.map sortKeys) ++ present "limit" (limit.map rowCount)
      ++ present "offset" (offset.map rowCount)
      ++ present "withDataCategory" (categories?.map categories)
      ++ flag "withSecurityEnforced" securityEnforced ++ present "for" (forTarget.map keyword)
      ++ present "update" (update.map keyword))

/-- Field expressions in order. -/
def fields : List Field → List Json
  | [] => []
  | f :: fs => field f :: fields fs

/-- A field expression. -/
def field : Field → Json
  | .plain f =>
    .obj (tag .plain ++ always "field" (.str f.name) ++ presentText "objectPrefix" f.owner
      ++ presentText "alias" f.aliasName)
  | .call c => .obj (tag .call ++ call c)
  | .path f =>
    .obj (tag .path ++ always "field" (.str f.name) ++ always "relationships" (texts f.path)
      ++ presentText "objectPrefix" f.owner ++ presentText "alias" f.aliasName)
  | .subquery q => .obj (tag .subquery ++ always "subquery" (query q))
  | .typeOf e =>
    .obj (tag .typeOf ++ always "field" (.str e.field)
      ++ always "conditions" (.arr (e.branches.map typeBranch)))

/-- The members of a call. -/
def call : Call → Members
  | ⟨name, args, aliasName, aggregate, source⟩ =>
    always "functionName" (.str name) ++ always "parameters" (.arr (arguments args))
      ++ presentText "alias" aliasName ++ flag "isAggregateFn" aggregate
      ++ presentText "rawValue" source

/-- Arguments in order. -/
def arguments : List Argument → List Json
  | [] => []
  | a :: as => argument a :: arguments as

/-- An argument. -/
def argument : Argument → Json
  | .text t => .str t
  | .field f => field f

/-- The filter of a `WHERE` clause that may be absent. -/
def filter? : Option (Chain Condition) → Option Json
  | none => none
  | some ⟨head, tail⟩ => some (chain ⟨conditionLink head, conditionLinks tail⟩)

/-- Links with their conditions encoded. -/
def conditionLinks : List (Link Condition) → List (Link Json)
  | [] => []
  | link :: links => conditionLink link :: conditionLinks links

/-- A link with its condition encoded. -/
def conditionLink : Link Condition → Link Json
  | ⟨none, connective⟩ => ⟨none, connective⟩
  | ⟨some c, connective⟩ => ⟨some (condition c), connective⟩

/-- A condition of `WHERE`. -/
def condition : Condition → Json
  | ⟨opens, closes, negated, field, call, comparison, value, kinds, query?⟩ =>
    .obj (count "openParen" opens ++ count "closeParen" closes
      ++ present "logicalPrefix" (if negated then some (keyword Negation.not) else none)
      ++ presentText "field" field ++ present "fn" (call.map flatCall)
      ++ always "operator" (keyword comparison) ++ present "value" (value.map filterValue)
      ++ present "literalType" (kinds.map literalKinds)
      ++ present "valueQuery" (valueQuery query?))

/-- A query to compare with that may be absent. -/
def valueQuery : Option Query → Option Json
  | none => none
  | some q => some (query q)

end

end Encode

end Soql
