/-
  Source texts of calls — what composing passes over.

  A call in a field list and the call of `GROUP BY` are composed from their
  parts, so the text that they were written with can be forgotten.

  * `Query.forgetSources`: the query without these texts, at every depth.
  * `Compose.value_forgetSources`: its text under any layout is the same.
  * `Query.compose_eq`: the text of a query under a configuration.
-/
import Mathlib
import Soql.Compose.Query

namespace Soql

/-! ## Queries without source texts -/

/-- The call without the text it was written with; one without a name is nothing but that
    text. -/
def FlatCall.forgetSource (c : FlatCall) : FlatCall :=
  match c.name with
  | some _ => { c with source := none }
  | none => c

/-- The grouping without the text of its call. -/
def Grouping.forgetSource (g : Grouping) : Grouping :=
  { g with call := g.call.map FlatCall.forgetSource }

mutual

/-- The query without the texts of the calls in its field lists and of its group keys. -/
def Query.forgetSources : Query → Query
  | ⟨fs, source, aliasName, filter, grouping, sorting, limit, offset, categories,
      securityEnforced, forTarget, update⟩ =>
    ⟨Field.forgetAll fs, source, aliasName, Condition.forgetFilter filter,
      grouping.map Grouping.forgetSource, sorting, limit, offset, categories, securityEnforced,
      forTarget, update⟩

/-- Fields without source texts. -/
def Field.forgetAll : List Field → List Field
  | [] => []
  | f :: fs => f.forgetSources :: Field.forgetAll fs

/-- A field without source texts. -/
def Field.forgetSources : Field → Field
  | .plain f => .plain f
  | .call c => .call c.forgetSources
  | .path f => .path f
  | .subquery q => .subquery q.forgetSources
  | .typeOf e => .typeOf e

/-- A call without source texts. -/
def Call.forgetSources : Call → Call
  | ⟨name, args, aliasName, aggregate, _⟩ =>
    ⟨name, Argument.forgetAll args, aliasName, aggregate, none⟩

/-- Arguments without source texts. -/
def Argument.forgetAll : List Argument → List Argument
  | [] => []
  | a :: as => a.forgetSources :: Argument.forgetAll as

/-- An argument without source texts. -/
def Argument.forgetSources : Argument → Argument
  | .text t => .text t
  | .field f => .field f.forgetSources

/-- A filter without source texts. -/
def Condition.forgetFilter : Option (Chain Condition) → Option (Chain Condition)
  | none => none
  | some ⟨head, tail⟩ => some ⟨Condition.forgetLink head, Condition.forgetLinks tail⟩

/-- Links without source texts. -/
def Condition.forgetLinks : List (Link Condition) → List (Link Condition)
  | [] => []
  | l :: ls => Condition.forgetLink l :: Condition.forgetLinks ls

/-- A link without source texts. -/
def Condition.forgetLink : Link Condition → Link Condition
  | ⟨none, connective⟩ => ⟨none, connective⟩
  | ⟨some c, connective⟩ => ⟨some c.forgetSources, connective⟩

/-- A condition without source texts; the call that it compares keeps its own. -/
def Condition.forgetSources : Condition → Condition
  | ⟨opens, closes, negated, field, call, comparison, value, kinds, query⟩ =>
    ⟨opens, closes, negated, field, call, comparison, value, kinds, Query.forgetOption query⟩

/-- A query that may be absent, without source texts. -/
def Query.forgetOption : Option Query → Option Query
  | none => none
  | some q => some q.forgetSources

end

/-! ## Composing without source texts -/

theorem Grouping.text_forgetSource (g : Grouping) : g.forgetSource.text = g.text := by
  rcases g with ⟨fields, _ | c, having⟩
  · rfl
  · rcases c with ⟨source, _ | name, args, aliasName, aggregate⟩ <;> rfl

namespace Compose

variable (layout : Layout)

theorem value_addGrouping_forgetSource (g : Option Grouping) (text : Text) :
    (addGrouping layout (g.map Grouping.forgetSource) text).value =
      (addGrouping layout g text).value := by
  cases g with
  | none => rfl
  | some g => simp [addGrouping, Grouping.text_forgetSource]; rfl

mutual

/-- **The text of a query does not depend on the source texts of the calls it selects and groups
    by.** -/
theorem value_forgetSources : ∀ q : Query,
    (query layout q.forgetSources).value = (query layout q).value
  | ⟨fs, source, aliasName, filter, grouping, sorting, limit, offset, categories,
      securityEnforced, forTarget, update⟩ => by
    simp only [Query.forgetSources, query, Journaled.value_bind, value_forgetAll fs,
      value_forgetFilter _ filter, value_addGrouping_forgetSource]

theorem value_forgetAll : ∀ fs : List Field,
    (fields layout (Field.forgetAll fs)).value = (fields layout fs).value
  | [] => rfl
  | f :: fs => by
    simp only [Field.forgetAll, fields, Journaled.value_bind, Journaled.value_pure,
      value_forgetField f, value_forgetAll fs]

theorem value_forgetField : ∀ f : Field,
    (field layout f.forgetSources).value = (field layout f).value
  | .plain _ => rfl
  | .call c => by simp only [Field.forgetSources, field, value_forgetCall c]
  | .path _ => rfl
  | .subquery q => by
    simp only [Field.forgetSources, field, Journaled.value_bind, value_forgetSources q]
  | .typeOf _ => rfl

theorem value_forgetCall : ∀ c : Call,
    (call layout c.forgetSources).value = (call layout c).value
  | ⟨name, args, aliasName, _, _⟩ => by
    simp only [Call.forgetSources, call, Journaled.value_bind, Journaled.value_pure,
      value_forgetArguments args]

theorem value_forgetArguments : ∀ as : List Argument,
    (arguments layout (Argument.forgetAll as)).value = (arguments layout as).value
  | [] => rfl
  | a :: as => by
    simp only [Argument.forgetAll, arguments, Journaled.value_bind, Journaled.value_pure,
      value_forgetArgument a, value_forgetArguments as]

theorem value_forgetArgument : ∀ a : Argument,
    (argument layout a.forgetSources).value = (argument layout a).value
  | .text _ => rfl
  | .field f => by simp only [Argument.forgetSources, argument, value_forgetField f]

theorem value_forgetFilter (text : Text) : ∀ filter : Option (Chain Condition),
    (addFilter layout text (Condition.forgetFilter filter)).value =
      (addFilter layout text filter).value
  | none => rfl
  | some ⟨head, tail⟩ => by
    simp only [Condition.forgetFilter, addFilter, Journaled.value_bind, value_forgetLink head,
      value_forgetLinks tail]

theorem value_forgetLinks : ∀ ls : List (Link Condition),
    (links layout (Condition.forgetLinks ls)).value = (links layout ls).value
  | [] => rfl
  | l :: ls => by
    simp only [Condition.forgetLinks, links, Journaled.value_bind, Journaled.value_pure,
      value_forgetLink l, value_forgetLinks ls]

theorem value_forgetLink : ∀ l : Link Condition,
    (link layout (Condition.forgetLink l)).value = (link layout l).value
  | ⟨none, _⟩ => rfl
  | ⟨some c, _⟩ => by
    simp only [Condition.forgetLink, link, Journaled.value_bind, Journaled.value_pure,
      value_forgetCondition c]

theorem value_forgetCondition : ∀ c : Condition,
    (condition layout c.forgetSources).value = (condition layout c).value
  | ⟨opens, closes, negated, field, call, comparison, value, kinds, query?⟩ => by
    simp only [Condition.forgetSources, condition, Journaled.value_bind, Journaled.value_pure,
      value_forgetOption value kinds query?]

theorem value_forgetOption (value : Option FilterValue) (kinds : Option LiteralKinds) :
    ∀ q : Option Query, (valueText layout value kinds (Query.forgetOption q)).value =
      (valueText layout value kinds q).value
  | none => rfl
  | some q => by
    simp only [Query.forgetOption, valueText, Journaled.value_bind, value_forgetSources q]

end

end Compose

/-- The text of a query is what composing it under the layout yields. -/
theorem Query.compose_eq (q : Query) (config : Config) :
    q.compose config = (Compose.query (.ofConfig config) q).value := by
  unfold Query.compose Query.composeJournaled Composer.ofConfig
  split <;> simp [Composer.start, *]

theorem Query.compose_of_forgetSources {p q : Query} (h : p.forgetSources = q.forgetSources)
    (config : Config) : p.compose config = q.compose config := by
  rw [compose_eq, compose_eq, ← Compose.value_forgetSources, h, Compose.value_forgetSources]

end Soql
