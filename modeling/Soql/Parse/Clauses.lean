/-
  Parsing of the clauses that hold no query: grouping, sorting, data
  categories and `TYPEOF`.

  * `grouping`, `sorting`: the keys of `GROUP BY` and `ORDER BY`.
  * `withClauses`: any number of `WITH` clauses.
  * `typeOf`: a `TYPEOF` expression.
-/
import Soql.Parse.Filter

namespace Soql

/-- A clause that starts with `WITH`. -/
inductive WithClause where
  | securityEnforced
  | categories (conditions : List CategoryCondition)
deriving DecidableEq

namespace Parser

/-! ## Grouping and sorting -/

/-- The grouping by the given subjects: a single call, or fields only. -/
def groupingOf (position : Nat) (first : Subject) (others : List Subject) :
    Except ParseError Grouping :=
  match first, others with
  | .call call, [] => .ok { call := some call }
  | .field name, [] => .ok { fields := some (.one name) }
  | _, _ =>
    match (first :: others).mapM Subject.field? with
    | some names => .ok { fields := some (.many names) }
    | none => .error (.unsupported .mixedGroupKeys position)

/-- The keys of a `GROUP BY` clause. -/
def grouping : Parser Grouping := do
  let start ← current
  let (first, others) ← commaSeparated subject
  match groupingOf start.start first others with
  | .ok grouping => return grouping
  | .error error => throw error

/-- The sort direction in view, if there is one. -/
def order? : Parser (Option SortOrder) := do
  match ← keywordInView? SortOrder with
  | some order =>
    let _ ← advance
    return some order
  | none => return none

/-- A key of an `ORDER BY` clause. -/
def sortKey : Parser SortKey := do
  let subject ← subject
  let order ← order?
  let nulls ← afterKeyword "NULLS" (expectKeywordOf .nullsPlace)
  return { field := subject.field?, call := subject.call?, order, nulls }

/-- The keys of an `ORDER BY` clause. -/
def sorting : Parser SortKeys := do
  let (first, others) ← commaSeparated sortKey
  match others with
  | [] => return .one first
  | _ => return .many (first :: others)

/-! ## Data categories -/

/-- The categories of a condition: one, or several between parentheses. -/
def categories : Parser (List Text) := do
  if ← atToken .openParen then
    let _ ← advance
    let (first, others) ← commaSeparated (identifier .category)
    let _ ← expect .closeParen .categoriesClose
    return first :: others
  else return [← identifier .category]

/-- A condition on a group of data categories. -/
def categoryCondition : Parser CategoryCondition := do
  let group ← identifier .categoryGroup
  let selector ← expectKeywordOf .categorySelector
  let categories ← categories
  return { group, selector, categories }

/-- What follows the keyword `WITH`. -/
def withClause : Parser WithClause := do
  if ← eatKeyword "SECURITY_ENFORCED" then return .securityEnforced
  else if ← eatKeyword "DATA" then
    expectKeyword "CATEGORY"
    let first ← categoryCondition
    let others ← many (afterKeyword "AND" categoryCondition)
    return .categories (first :: others)
  else fail .withClause

/-- Any number of `WITH` clauses. -/
def withClauses : Parser (List WithClause) := many (afterKeyword "WITH" withClause)

/-! ## `TYPEOF` -/

/-- The fields of a branch. -/
def branchFields : Parser (List Text) := do
  let (first, others) ← commaSeparated dottedPath
  return first :: others

/-- What follows the keyword `WHEN`. -/
def whenBranch : Parser TypeBranch := do
  let object ← identifier .branchObject
  expectKeyword "THEN"
  return { kind := .when, object := some object, fields := ← branchFields }

/-- What follows the keyword `ELSE`. -/
def elseBranch : Parser TypeBranch :=
  return { kind := .otherwise, object := none, fields := ← branchFields }

/-- What follows the keyword `TYPEOF`. -/
def typeOf : Parser TypeOf := do
  let field ← dottedPath
  let branches ← many (afterKeyword "WHEN" whenBranch)
  let last ← afterKeyword "ELSE" elseBranch
  expectKeyword "END"
  return { field, branches := branches ++ last.toList }

end Parser

end Soql
