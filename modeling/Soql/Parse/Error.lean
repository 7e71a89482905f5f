/-
  Parse errors — why a sequence of tokens is not a query.

  * `Expectation`: what would have been right where parsing stopped.
  * `ParseError`, `ParseError.message`: the errors and their wording.
-/
import Soql.Token.Basic

namespace Soql

/-- What would have been right at some place of a query. -/
inductive Expectation where
  | keyword (word : Text)
  | field
  | fieldName
  | fieldNameAfterDot
  | fieldOrFunction
  | subqueryClose
  | callOpen
  | argument
  | argumentSeparator
  | callClose
  | branchObject
  | withClause
  | categoryGroup
  | categorySelector
  | category
  | categoriesClose
  | comparison
  | value
  | valueSeparator
  | valuesClose
  | bindVariable
  | dateCount
  | rowCount (clause : Text)
  | nullsPlace
  | forTarget
  | updateTarget
  | endOfQuery
deriving DecidableEq

/-- The wording of an expectation. -/
def Expectation.describe : Expectation → Text
  | keyword word => word
  | field => "field"
  | fieldName => "field name"
  | fieldNameAfterDot => "field name after '.'"
  | fieldOrFunction => "field or function"
  | subqueryClose => "')' after subquery"
  | callOpen => "'('"
  | argument => "function argument"
  | argumentSeparator => "',' or ')' in function arguments"
  | callClose => "')'"
  | branchObject => "object type after WHEN"
  | withClause => "DATA CATEGORY or SECURITY_ENFORCED after WITH"
  | categoryGroup => "data category group"
  | categorySelector => "AT, ABOVE, BELOW or ABOVE_OR_BELOW"
  | category => "data category"
  | categoriesClose => "')' after data categories"
  | comparison => "comparison operator"
  | value => "value"
  | valueSeparator => "',' or ')' in value list"
  | valuesClose => "')' after value list"
  | bindVariable => "bind variable name"
  | dateCount => "number after ':'"
  | rowCount clause => "number after " ++ clause
  | nullsPlace => "FIRST or LAST"
  | forTarget => "VIEW, UPDATE or REFERENCE"
  | updateTarget => "TRACKING or VIEWSTAT"
  | endOfQuery => "end of query"

/-- Forms of queries that are understood but not supported. -/
inductive UnsupportedForm where
  | negatedGroupInParentheses
  | havingWithoutGroupBy
  | mixedGroupKeys
deriving DecidableEq

/-- The wording of an unsupported form. -/
def UnsupportedForm.describe : UnsupportedForm → Text
  | negatedGroupInParentheses => "negated group directly inside parentheses"
  | havingWithoutGroupBy => "HAVING without GROUP BY"
  | mixedGroupKeys => "GROUP BY mixing functions with other keys"

/-- Why a text is not a query; positions count characters from the start of the text. -/
inductive ParseError where
  /-- The text does not go on with a token. -/
  | scan (error : ScanError)
  /-- A token stands where something else is expected. -/
  | unexpectedToken (expected : Expectation) (found : Token) (position : Nat)
  /-- The text ends where something is expected. -/
  | unexpectedEnd (expected : Expectation)
  /-- A number of rows that is not a natural number of 64 bits. -/
  | invalidNumber (text : Text) (position : Nat)
  /-- A word or a date that is no value. -/
  | invalidValue (text : Text) (position : Nat)
  | unsupported (form : UnsupportedForm) (position : Nat)
deriving DecidableEq

/-- The wording of a parse error. -/
def ParseError.message : ParseError → Text
  | scan error => error.message
  | unexpectedToken expected found position =>
    "Expected " ++ expected.describe ++ " at position " ++ Text.decimal position ++ ", found "
      ++ found.describe
  | unexpectedEnd expected => "Unexpected end of query, expected " ++ expected.describe
  | invalidNumber text position =>
    "Invalid number '" ++ text ++ "' at position " ++ Text.decimal position
  | invalidValue text position =>
    "Invalid value '" ++ text ++ "' at position " ++ Text.decimal position
  | unsupported form position =>
    "Unsupported syntax at position " ++ Text.decimal position ++ ": " ++ form.describe

end Soql
