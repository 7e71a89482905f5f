/-
  Parsing of queries.

  * `select`: a query, alone or between parentheses.
  * `Query.parse`: the query that a text stands for.
-/
import Soql.Parse.Clauses

namespace Soql

/-! ## Aliases of the source -/

/-- The field with a leading alias of the source taken out of its path. -/
def Field.qualify (aliasName : Text) : Field → Field
  | .path f =>
    match f.path with
    | owner :: rest =>
      if Text.sameWord owner aliasName then
        match rest with
        | [] => .plain { name := f.name, owner := some owner, aliasName := f.aliasName }
        | _ => .path { f with path := rest, owner := some owner }
      else .path f
    | [] => .path f
  | f => f

namespace Parser

/-! ## Fields -/

/-- The last name of a path. -/
def lastName (first : Text) (others : List Text) : Text :=
  (first :: others).getLast (List.cons_ne_nil first others)

/-- The names of a path before the last. -/
def pathNames (first : Text) (others : List Text) : List Text := (first :: others).dropLast

/-- An entry of a field list; `nested` reads a query between parentheses. -/
def field (nested : Parser Query) : Parser Field := do
  if ← atToken .openParen then
    let _ ← advance
    let query ← nested
    let _ ← expect .closeParen .subqueryClose
    return .subquery query
  else if ← eatKeyword "TYPEOF" then return .typeOf (← typeOf)
  else
    let first ← current
    let name ← identifier .field
    if ← atToken .openParen then
      let call ← call first name
      return .call { call with aliasName := ← aliasName? }
    else
      let others ← pathRest
      let aliasName ← aliasName?
      match others with
      | [] => return .plain { name, aliasName }
      | _ => return .path { name := lastName name others, path := pathNames name others, aliasName }

/-! ## Clauses -/

/-- The source of a query: the relationship of a nested one, the object of any other. -/
def source (isNested : Bool) : Parser Source := do
  let (first, others) ← path
  if isNested then return .relationship (lastName first others) (pathNames first others)
  else return .object (Text.joinWith "." (first :: others))

/-- The `GROUP BY` clause, if there is one. -/
def grouping? : Parser (Option Grouping) :=
  afterKeyword "GROUP" do
    expectKeyword "BY"
    grouping

/-- The grouping with the `HAVING` clause, if there is one; that needs a `GROUP BY` clause. -/
def having? (grouping : Option Grouping) : Parser (Option Grouping) := do
  let first ← current
  match ← afterKeyword "HAVING" groupFilter with
  | none => return grouping
  | some having =>
    match grouping with
    | some grouping => return some { grouping with having := some having }
    | none => throw (.unsupported .havingWithoutGroupBy first.start)

/-- The `ORDER BY` clause, if there is one. -/
def sorting? : Parser (Option SortKeys) :=
  afterKeyword "ORDER" do
    expectKeyword "BY"
    sorting

/-- The data categories of the last clause that has any. -/
def lastCategories : List WithClause → Option (List CategoryCondition)
  | [] => none
  | .securityEnforced :: clauses => lastCategories clauses
  | .categories conditions :: clauses => (lastCategories clauses).or (some conditions)

/-! ## Queries -/

/-- A query; `nested` reads one between parentheses, in a field list or in a condition. -/
def selectWith (nested : Bool → Parser Query) (isNested : Bool) : Parser Query := do
  expectKeyword "SELECT"
  let (first, others) ← commaSeparated (field (nested true))
  let fields := first :: others
  expectKeyword "FROM"
  let source ← source isNested
  let aliasName ← aliasName?
  let fields := match aliasName with
    | some aliasName => fields.map (Field.qualify aliasName)
    | none => fields
  let filter ← afterKeyword "WHERE" (filter (nested false))
  let earlyClauses ← withClauses
  let grouping ← having? (← grouping?)
  let sorting ← sorting?
  let limit ← afterKeyword "LIMIT" (rowCount "LIMIT")
  let offset ← afterKeyword "OFFSET" (rowCount "OFFSET")
  let clauses := earlyClauses ++ (← withClauses)
  let forTarget ← afterKeyword "FOR" (expectKeywordOf .forTarget)
  let update ← afterKeyword "UPDATE" (expectKeywordOf .updateTarget)
  return {
    fields, source, aliasName, filter, grouping, sorting, limit, offset
    categories := lastCategories clauses
    securityEnforced := clauses.contains .securityEnforced
    forTarget, update }

/-- A query with at most `n` queries inside of one another. -/
def selectUpTo : Nat → Bool → Parser Query
  | 0 => fun _ => fail (.keyword "SELECT")
  | n + 1 => selectWith (selectUpTo n)

/-- A query, up to where it ends. -/
def select : Parser Query := do selectUpTo ((← get).size + 1) false

/-- A query that nothing follows. -/
def query : Parser Query := do
  let query ← select
  let _ ← expect .finish .endOfQuery
  return query

end Parser

/-- The query that a text stands for. -/
def Query.parse (text : Text) : Except ParseError Query :=
  match Cursor.ofLexemes (Lexemes.ofText text) with
  | .error error => .error (.scan error)
  | .ok cursor =>
    match Parser.query cursor with
    | .ok query _ => .ok query
    | .error error _ => .error error

end Soql
