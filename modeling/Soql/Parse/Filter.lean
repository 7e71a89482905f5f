/-
  Parsing of filters: the conditions of `WHERE` and `HAVING`.

  Parentheses around conditions are counted, not matched up: those that open
  before a condition, and those that close after it as long as some of the
  same filter are open.  The counts here have no bound; filters with 2^32 open
  parentheses, which a counter of 32 bits cannot hold, are beyond this model.

  * `filter`: a `WHERE` filter; `nested` reads a query between parentheses.
  * `groupFilter`: a `HAVING` filter.
-/
import Soql.Parse.Call
import Soql.Parse.Value

namespace Soql

/-- The kinds of the values of a list: one for all if they agree, otherwise one for each. -/
def LiteralKinds.ofList : List LiteralKind → LiteralKinds
  | [] => .each []
  | kind :: kinds => if kinds.all (· == kind) then .uniform kind else .each (kind :: kinds)

namespace Parser

/-! ## Parts of conditions -/

/-- Takes opening parentheses and counts them. -/
def openParens : Parser Nat := return (← many (after .openParen (pure ()))).length

/-- Takes closing parentheses, at most `depth` of them, and counts them. -/
def closeParens (depth : Nat) : Parser Nat :=
  return (← manyUpTo (after .closeParen (pure ())) depth).length

/-- Takes the operator that joins another condition, if there is one. -/
def connective? : Parser (Option Connective) := do
  if ← eatKeyword "AND" then return some .and
  else if ← eatKeyword "OR" then return some .or
  else return none

/-- The comparison that a token stands for. -/
def comparisonOf? : Token → Option Comparison
  | .eq => some .equal
  | .notEq => some .notEqual
  | .lessGreater => some .lessGreater
  | .less => some .less
  | .lessEq => some .lessEqual
  | .greater => some .greater
  | .greaterEq => some .greaterEqual
  | .word word => Keyword.ofWord? word
  | _ => none

/-- A comparison operator. -/
def comparison : Parser Comparison := do
  if ← eatKeyword "NOT" then
    expectKeyword "IN"
    return .notIn
  else
    match comparisonOf? (← current).token with
    | some comparison =>
      let _ ← advance
      return comparison
    | none => fail .comparison

/-! ## `WHERE` -/

/-- A condition without what stands around it; `nested` reads a query to compare with. -/
def condition (nested : Parser Query) : Parser Condition := do
  let subject ← subject
  let comparison ← comparison
  let bare : Condition :=
    { opens := 0, closes := 0, negated := false, field := subject.field?, call := subject.call?
      comparison, value := none, kinds := none, query := none }
  if ← atToken .openParen then
    let _ ← advance
    if ← atKeyword "SELECT" then
      let query ← nested
      let _ ← expect .closeParen .subqueryClose
      return { bare with query := some query }
    else
      let values ← valueList
      return { bare with
        value := some (.list (values.map (·.1)))
        kinds := some (.ofList (values.map (·.2))) }
  else
    let (text, kind) ← value
    return { bare with value := some (.single text), kinds := some (.uniform kind) }

/-- A filter of at most `n` links, inside of `depth` open parentheses of the same filter. -/
def filterUpTo (nested : Parser Query) : Nat → Nat → Parser (Chain Condition)
  | 0, _ => fail .fieldOrFunction
  | n + 1, depth => do
    let opens ← openParens
    let first ← current
    let negated ← eatKeyword "NOT"
    if negated && (← atToken .openParen) then
      if opens = 0 then
        return ⟨⟨none, some .not⟩, (← filterUpTo nested n depth).links⟩
      else throw (.unsupported .negatedGroupInParentheses first.start)
    else
      let bare ← condition nested
      let closes ← closeParens (depth + opens)
      let connective ← connective?
      let link : Link Condition := ⟨some { bare with opens, closes, negated }, connective⟩
      match connective with
      | none => return ⟨link, []⟩
      | some _ => return ⟨link, (← filterUpTo nested n (depth + opens - closes)).links⟩

/-- The filter of a `WHERE` clause. -/
def filter (nested : Parser Query) : Parser (Chain Condition) := do
  filterUpTo nested ((← get).size + 1) 0

/-! ## `HAVING` -/

/-- A value as it is written. -/
def literalText : Parser Text := do
  let (text, kind) ← value
  return kind.render text

/-- The value of a `HAVING` condition as it is written: one literal, or a list of them. -/
def groupValue : Parser Text := do
  if ← atToken .openParen then
    let _ ← advance
    let values ← untilClose literalText .valueSeparator
    let _ ← expect .closeParen .valuesClose
    return "(" ++ Text.joinWith ", " values ++ ")"
  else literalText

/-- A filter of at most `n` links, inside of `depth` open parentheses of the same filter. -/
def groupFilterUpTo : Nat → Nat → Parser (Chain GroupCondition)
  | 0, _ => fail .fieldOrFunction
  | n + 1, depth => do
    let opens ← openParens
    let subject ← subject
    let comparison ← comparison
    let value ← groupValue
    let closes ← closeParens (depth + opens)
    let connective ← connective?
    let condition : GroupCondition :=
      { opens, closes, field := subject.field?, call := subject.call?, comparison, value }
    let link : Link GroupCondition := ⟨some condition, connective⟩
    match connective with
    | none => return ⟨link, []⟩
    | some _ => return ⟨link, (← groupFilterUpTo n (depth + opens - closes)).links⟩

/-- The filter of a `HAVING` clause. -/
def groupFilter : Parser (Chain GroupCondition) := do
  groupFilterUpTo ((← get).size + 1) 0

end Parser

end Soql
