/-
  Queries — the values that query text and its JSON form stand for.

  A query selects fields from a source; a field may itself be a query over a
  child relationship, and a condition may compare with the rows of a query.
  Filters are kept flat: a chain of links, each with a condition and the
  operator that joins it to the links after it.  Parentheses are no structure
  of their own; a condition counts those before it and those after it.

  * `Query`, `Field`, `Call`, `Argument`, `Condition`: the recursive part.
  * `Chain`, `Link`: filters of `WHERE` and `HAVING`.
  * `Grouping`, `SortKeys`, `CategoryCondition`: the other clauses.
-/
import Soql.Literal.Basic

namespace Soql

/-! ## Pieces of clauses -/

/-- A function call whose arguments are kept as texts: the subject of a condition, a group key or
    a sort key. -/
structure FlatCall where
  /-- The call as it was written. -/
  source : Option Text := none
  name : Option Text := none
  arguments : List Text := []
  aliasName : Option Text := none
  aggregate : Bool := false
deriving DecidableEq

/-- A link of a filter. -/
structure Link (κ : Type) where
  /-- The condition; a link that negates the group after it has none. -/
  condition : Option κ
  /-- The operator that joins the links after this one. -/
  connective : Option Connective
deriving DecidableEq

/-- A filter: one link or more. -/
structure Chain (κ : Type) where
  head : Link κ
  tail : List (Link κ)
deriving DecidableEq

/-- The link with its condition replaced. -/
def Link.map {κ μ : Type} (f : κ → μ) (link : Link κ) : Link μ :=
  ⟨link.condition.map f, link.connective⟩

namespace Chain

variable {κ μ : Type}

/-- The filter with its conditions replaced. -/
def map (f : κ → μ) (chain : Chain κ) : Chain μ := ⟨chain.head.map f, chain.tail.map (Link.map f)⟩

/-- The links from the first to the last. -/
def links (chain : Chain κ) : List (Link κ) := chain.head :: chain.tail

/-- The filter of a single condition. -/
def single (condition : κ) : Chain κ := ⟨⟨some condition, none⟩, []⟩

/-- The condition in front of a filter, joined to it. -/
def cons (condition : κ) (connective : Connective) (chain : Chain κ) : Chain κ :=
  ⟨⟨some condition, some connective⟩, chain.links⟩

end Chain

/-- A condition of `HAVING`.  Its value is text as it stands in the query. -/
structure GroupCondition where
  opens : Nat := 0
  closes : Nat := 0
  field : Option Text
  call : Option FlatCall
  comparison : Comparison
  value : Text
deriving DecidableEq

/-- The fields of `GROUP BY`. -/
inductive GroupFields where
  | one (name : Text)
  | many (names : List Text)
deriving DecidableEq

/-- The names in order. -/
def GroupFields.toList : GroupFields → List Text
  | one name => [name]
  | many names => names

/-- A `GROUP BY` clause with its `HAVING` clause. -/
structure Grouping where
  fields : Option GroupFields := none
  call : Option FlatCall := none
  having : Option (Chain GroupCondition) := none
deriving DecidableEq

/-- A key of `ORDER BY`. -/
structure SortKey where
  field : Option Text := none
  call : Option FlatCall := none
  order : Option SortOrder := none
  nulls : Option NullsPlace := none
deriving DecidableEq

/-- The keys of `ORDER BY`. -/
inductive SortKeys where
  | one (key : SortKey)
  | many (keys : List SortKey)
deriving DecidableEq

/-- A condition of `WITH DATA CATEGORY`. -/
structure CategoryCondition where
  group : Text
  selector : CategorySelector
  categories : List Text
deriving DecidableEq

/-! ## Fields that hold no query -/

/-- A field by its name. -/
structure PlainField where
  name : Text
  /-- Alias of the source that the name is qualified with. -/
  owner : Option Text := none
  aliasName : Option Text := none
deriving DecidableEq

/-- A field reached through relationships. -/
structure PathField where
  name : Text
  /-- The relationships on the way to the field, in order. -/
  path : List Text
  /-- Alias of the source that the path is qualified with. -/
  owner : Option Text := none
  aliasName : Option Text := none
deriving DecidableEq

/-- A branch of `TYPEOF`. -/
structure TypeBranch where
  kind : BranchKind
  /-- The object that a `WHEN` branch is for. -/
  object : Option Text
  fields : List Text
deriving DecidableEq

/-- A `TYPEOF` expression: fields chosen by the object that a reference points to. -/
structure TypeOf where
  field : Text
  branches : List TypeBranch
deriving DecidableEq

/-- What a query reads from. -/
inductive Source where
  /-- A child relationship, possibly through others. -/
  | relationship (name : Text) (path : List Text)
  /-- An object. -/
  | object (name : Text)
deriving DecidableEq

/-- The name that the source ends in. -/
def Source.name : Source → Text
  | relationship name _ => name
  | object name => name

/-! ## The recursive part -/

mutual

/-- An entry of a field list. -/
inductive Field where
  | plain (field : PlainField)
  | call (call : Call)
  | path (field : PathField)
  | subquery (query : Query)
  | typeOf (expression : TypeOf)

/-- An argument of a function call in a field list. -/
inductive Argument where
  /-- A name or a literal, as written. -/
  | text (text : Text)
  /-- A nested expression. -/
  | field (field : Field)

/-- A function call in a field list. -/
structure Call where
  name : Text
  arguments : List Argument
  aliasName : Option Text
  aggregate : Bool
  /-- The call as it was written. -/
  source : Option Text

/-- A condition of `WHERE`. -/
structure Condition where
  /-- Number of parentheses that open before the condition. -/
  opens : Nat
  /-- Number of parentheses that close after the condition. -/
  closes : Nat
  negated : Bool
  /-- The field compared; passed over if there is a call. -/
  field : Option Text
  call : Option FlatCall
  comparison : Comparison
  value : Option FilterValue
  kinds : Option LiteralKinds
  /-- The query whose rows are compared with, in place of a value. -/
  query : Option Query

/-- A query. -/
structure Query where
  fields : List Field
  source : Source
  aliasName : Option Text
  filter : Option (Chain Condition)
  grouping : Option Grouping
  sorting : Option SortKeys
  limit : Option UInt64
  offset : Option UInt64
  categories : Option (List CategoryCondition)
  securityEnforced : Bool
  forTarget : Option ForTarget
  update : Option UpdateTarget

end

/-- Whether a query reads from a relationship. -/
def Query.isSubquery (q : Query) : Bool :=
  match q.source with
  | .relationship .. => true
  | .object _ => false

end Soql
