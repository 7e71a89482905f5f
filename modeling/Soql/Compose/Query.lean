/-
  Composing — the text of a query.

  The clauses come in a fixed order, each if the query has it.  Queries among
  the fields and in conditions are composed in the same way.

  * `Compose.query`: the text of a query under a layout, with its journal.
  * `Query.compose`: the text of a query under a configuration.
  * `Composer`: a query to compose, and the text composed so far.
-/
import Soql.Compose.Journal
import Soql.Compose.Clauses
import Soql.Layout.Spread

namespace Soql

namespace Compose

open Journaled

/-! ## Questions to the layout -/

/-- A field list laid out. -/
def layFields (layout : Layout) (texts : List Text) : Journaled Text := do
  let line := FieldItem.renderAll (layout.fields (texts.map FieldItem.ofText))
  note (.fields texts line)
  return line

/-- A composed query between parentheses. -/
def laySubquery (layout : Layout) (level : Nat) (inFilter : Bool) (text : Text) :
    Journaled Text := do
  note (.subquery text level inFilter)
  return layout.subquery text level inFilter

/-- An operator of a filter and the text to its right. -/
def layConnective (layout : Layout) (operator right : Text) : Journaled Text := do
  note (.connective operator right)
  return layout.connective operator right

/-- Sort keys put together. -/
def laySortKeys (layout : Layout) (texts : List Text) : Journaled Text := do
  note (.sortKeys texts)
  return layout.sortKeys texts

/-- A clause after the text so far: its keyword, and its content if there is any. -/
def addClause (layout : Layout) (keyword : Text) (text content : Text) : Journaled Text := do
  let text := text ++ layout.clause keyword
    ++ (if content.isEmpty then [] else ' ' :: content)
  note (.clause keyword text)
  return text

/-! ## Clauses without queries -/

/-- The text of a link before the text of the links after it. -/
def joinLink (layout : Layout) (right : Text) (link : Link Text) : Journaled Text := do
  let operator := (link.connective.map Keyword.spelling).getD []
  let joined ← layConnective layout operator right
  return Text.trim (link.condition.getD [] ++ joined)

/-- The text of a filter whose conditions are composed: put together from the last link to the
    first, and trimmed at each.  The operator of the last link is left out. -/
def joinLinks (layout : Layout) (links : List (Link Text)) : Journaled Text :=
  match links.reverse with
  | [] => return []
  | last :: before => before.foldlM (joinLink layout) (Text.trim (last.condition.getD []))

/-- The filter of a `HAVING` clause. -/
def groupFilter (layout : Layout) (chain : Chain GroupCondition) : Journaled Text :=
  joinLinks layout (chain.map GroupCondition.text).links

/-- The keys of an `ORDER BY` clause. -/
def sortKeys (layout : Layout) : SortKeys → Journaled Text
  | .one key => return key.text
  | .many keys => laySortKeys layout (keys.map SortKey.text)

/-- Adds a clause for a value that may be absent. -/
def addClause? {α : Type} (layout : Layout) (keyword : Text) (content : α → Journaled Text)
    (value : Option α) (text : Text) : Journaled Text :=
  match value with
  | none => return text
  | some a => do addClause layout keyword text (← content a)

/-- Adds the `GROUP BY` clause and the `HAVING` clause. -/
def addGrouping (layout : Layout) (grouping : Option Grouping) (text : Text) :
    Journaled Text :=
  match grouping with
  | none => return text
  | some g => do
    let text ← addClause layout "GROUP BY" text g.text
    addClause? layout "HAVING" (groupFilter layout) g.having text

/-- A number of rows. -/
def rowCount (n : UInt64) : Text := Text.decimal n.toNat

/-! ## Queries -/

mutual

/-- The text of a query. -/
def query (layout : Layout) : Query → Journaled Text
  | ⟨fs, source, aliasName, filter, grouping, sorting, limit, offset, categories,
      securityEnforced, forTarget, update⟩ => do
    let line ← layFields layout (← fields layout fs)
    let text ← addClause layout "FROM" ("SELECT " ++ line) (sourceText source aliasName)
    let text ← addFilter layout text filter
    let text ← addGrouping layout grouping text
    let text ← addClause? layout "ORDER BY" (sortKeys layout) sorting text
    let text ← addClause? layout "LIMIT" (fun n => pure (rowCount n)) limit text
    let text ← addClause? layout "OFFSET" (fun n => pure (rowCount n)) offset text
    let text ← addClause? layout "WITH DATA CATEGORY" (fun cs => pure (categoriesText cs))
      categories text
    let text ← if securityEnforced then addClause layout "WITH SECURITY_ENFORCED" text []
      else pure text
    let text ← addClause? layout "FOR" (fun k => pure (Keyword.spelling k)) forTarget text
    addClause? layout "UPDATE" (fun k => pure (Keyword.spelling k)) update text

/-- The texts of fields in order. -/
def fields (layout : Layout) : List Field → Journaled (List Text)
  | [] => return []
  | f :: fs => do
    let text ← field layout f
    return text :: (← fields layout fs)

/-- The text of a field. -/
def field (layout : Layout) : Field → Journaled Text
  | .plain f => return f.text
  | .call c => call layout c
  | .path f => return f.text
  | .subquery q => do laySubquery layout 2 false (← query layout q)
  | .typeOf e => return e.text

/-- The text of a call; its arguments are put together without blanks. -/
def call (layout : Layout) : Call → Journaled Text
  | ⟨name, args, aliasName, _, _⟩ => do
    let texts ← arguments layout args
    return aliased (name ++ "(" ++ Text.joinWith "," texts ++ ")") aliasName

/-- The texts of arguments in order. -/
def arguments (layout : Layout) : List Argument → Journaled (List Text)
  | [] => return []
  | a :: as => do
    let text ← argument layout a
    return text :: (← arguments layout as)

/-- The text of an argument. -/
def argument (layout : Layout) : Argument → Journaled Text
  | .text t => return t
  | .field f => field layout f

/-- Adds the `WHERE` clause. -/
def addFilter (layout : Layout) (text : Text) : Option (Chain Condition) → Journaled Text
  | none => return text
  | some ⟨head, tail⟩ => do
    let first ← link layout head
    let others ← links layout tail
    addClause layout "WHERE" text (← joinLinks layout (first :: others))

/-- Links with the texts of their conditions, in order. -/
def links (layout : Layout) : List (Link Condition) → Journaled (List (Link Text))
  | [] => return []
  | l :: ls => do
    let text ← link layout l
    return text :: (← links layout ls)

/-- A link with the text of its condition. -/
def link (layout : Layout) : Link Condition → Journaled (Link Text)
  | ⟨none, connective⟩ => return ⟨none, connective⟩
  | ⟨some c, connective⟩ => return ⟨some (← condition layout c), connective⟩

/-- The text of a condition of `WHERE` with the parentheses around it. -/
def condition (layout : Layout) : Condition → Journaled Text
  | ⟨opens, closes, negated, field, call, comparison, value, kinds, query?⟩ => do
    let right ← valueText layout value kinds query?
    let negation : Text := if negated then Keyword.spelling Negation.not ++ " " else []
    return List.replicate opens '(' ++ negation ++ subjectText field call ++ " "
      ++ Keyword.spelling comparison ++ " " ++ right ++ List.replicate closes ')'

/-- What a condition compares with: the rows of a query if there is one, otherwise a value. -/
def valueText (layout : Layout) (value : Option FilterValue) (kinds : Option LiteralKinds) :
    Option Query → Journaled Text
  | some q => do laySubquery layout 1 true (← query layout q)
  | none =>
    match value with
    | some v => return v.render kinds
    | none => return []

end

/-- The filter of a `WHERE` clause. -/
def filter (layout : Layout) (chain : Chain Condition) : Journaled Text := do
  joinLinks layout (← links layout chain.links)

end Compose

/-! ## Composers -/

/-- A query to compose under a layout, and the text composed so far. -/
structure Composer where
  query : Query
  layout : Layout
  text : Text := []

namespace Composer

/-- Composes the query. -/
def start (c : Composer) : Journaled Composer := do
  Journaled.note (.started c.query.source.name)
  let text ← Compose.query c.layout c.query
  Journaled.note (.finished text)
  return { c with text }

/-- The composer of a configuration, which has composed already if the configuration says so. -/
def ofConfig (q : Query) (config : Config) : Journaled Composer :=
  let c : Composer := { query := q, layout := .ofConfig config }
  if config.autoCompose then c.start else pure c

end Composer

namespace Query

/-- The text of a query under a configuration, with the journal of composing it. -/
def composeJournaled (q : Query) (config : Config) : Journaled Text := do
  let c ← Composer.ofConfig q config
  let c ← if config.autoCompose then pure c else c.start
  return c.text

/-- The text of a query under a configuration. -/
def compose (q : Query) (config : Config) : Text := (q.composeJournaled config).value

end Query

end Soql
