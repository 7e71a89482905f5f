/-
  The clauses that are told of while a query is composed.

  Each clause is told of when it is written, with the text so far, and queries
  among the fields and in the filter are composed on the way.  What is told
  follows the query: its subqueries, `FROM`, the queries in its filter, and
  its other clauses.

  * `Journaled.clauses`: the clauses told of, in order.
  * `Query.subqueries`, `Query.semiJoins`: the queries right inside of a query.
  * `Query.keywords`: the clauses that a query has after `FROM`.
  * `Journaled.Extends`: a text goes on with some clauses, and nothing else is
    told.
  * `Compose.query_clauses`: what is told of a query.
-/
import Mathlib
import Soql.Compose.Query
import Soql.Query.Build
import Soql.Proofs.Query.Inner

namespace Soql

/-! ## The queries right inside of a query -/

mutual

/-- The queries of a field that are not inside of one another, in order. -/
def Field.subqueries : Field → List Query
  | .call c => c.subqueries
  | .subquery q => [q]
  | .plain _ | .path _ | .typeOf _ => []

/-- The queries of the arguments of a call. -/
def Call.subqueries : Call → List Query
  | ⟨_, args, _, _, _⟩ => Argument.subqueriesAll args

/-- The queries of arguments. -/
def Argument.subqueriesAll : List Argument → List Query
  | [] => []
  | a :: as => a.subqueries ++ Argument.subqueriesAll as

/-- The queries of an argument. -/
def Argument.subqueries : Argument → List Query
  | .text _ => []
  | .field f => f.subqueries

end

/-- The clauses that are there, of clauses with whether they are. -/
def present (clauses : List (Text × Bool)) : List Text := (clauses.filter Prod.snd).map Prod.fst

theorem present_append (clauses clauses' : List (Text × Bool)) :
    present (clauses ++ clauses') = present clauses ++ present clauses' := by
  simp [present]

namespace Query

variable (q : Query)

/-- The queries among the fields, also in the arguments of calls. -/
def subqueries : List Query := q.fields.flatMap Field.subqueries

/-- The queries that the conditions of the filter compare with. -/
def semiJoins : List Query :=
  (q.filter.toList.flatMap Chain.conditions).filterMap Condition.query

/-- The keywords of the clauses that the query has after `FROM`. -/
def keywords : List Text := present
  [("WHERE", q.filter.isSome), ("GROUP BY", q.grouping.isSome),
    ("HAVING", (q.grouping.bind Grouping.having).isSome), ("ORDER BY", q.sorting.isSome),
    ("LIMIT", q.limit.isSome), ("OFFSET", q.offset.isSome),
    ("WITH DATA CATEGORY", q.categories.isSome), ("WITH SECURITY_ENFORCED", q.securityEnforced),
    ("FOR", q.forTarget.isSome), ("UPDATE", q.update.isSome)]

end Query

/-! ## Growing texts -/

/-- The texts go on with `first` and each with the one before it, and the last of all is `last`. -/
def Grows (first : Text) (texts : List Text) (last : Text) : Prop :=
  (first :: texts).IsChain (· <+: ·) ∧ (first :: texts).getLast? = some last

namespace Grows

variable {first last : Text} {texts : List Text}

theorem nil (text : Text) : Grows text [] text := ⟨List.isChain_singleton _, rfl⟩

theorem cons {second : Text} (h : first <+: second) (hgrows : Grows second texts last) :
    Grows first (second :: texts) last :=
  ⟨hgrows.1.cons_cons h, by rw [List.getLast?_cons_cons]; exact hgrows.2⟩

theorem append {last' : Text} {texts' : List Text} (h : Grows first texts last)
    (h' : Grows last texts' last') : Grows first (texts ++ texts') last' := by
  induction texts generalizing first with
  | nil =>
    obtain rfl := Option.some.inj h.2
    exact h'
  | cons second texts ih =>
    obtain ⟨hfirst, hchain⟩ := List.isChain_cons_cons.1 h.1
    exact cons hfirst (ih ⟨hchain, by rw [← h.2, List.getLast?_cons_cons]⟩)

end Grows

/-! ## Clauses of a journal -/

/-- The keyword of a clause that has been written, with the text so far. -/
def Entry.clause? : Entry → Option (Text × Text)
  | clause keyword text => some (keyword, text)
  | _ => none

namespace Journaled

variable {α β : Type}

/-- The clauses told of, in order: keywords, each with the text so far. -/
def clauses (x : Journaled α) : List (Text × Text) := x.log.filterMap Entry.clause?

@[simp] theorem clauses_pure (a : α) : (pure a : Journaled α).clauses = [] := rfl

@[simp] theorem clauses_bind (x : Journaled α) (f : α → Journaled β) :
    (x >>= f).clauses = x.clauses ++ (f x.value).clauses := List.filterMap_append

@[simp] theorem clauses_map (f : α → β) (x : Journaled α) : (f <$> x).clauses = x.clauses := by
  rw [clauses, log_map, clauses]

/-- The text goes on with clauses of these keywords, as growing texts up to the result.  What is
    told of queries inside comes first. -/
def Extends (x : Journaled Text) (inside : List (Text × Text)) (keywords : List Text)
    (text : Text) : Prop :=
  ∃ own : List (Text × Text), x.clauses = inside ++ own ∧ own.map Prod.fst = keywords ∧
    Grows text (own.map Prod.snd) x.value

theorem Extends.pure (text : Text) : Extends (pure text) [] [] text :=
  ⟨[], rfl, rfl, .nil text⟩

theorem Extends.bind {x : Journaled Text} {f : Text → Journaled Text}
    {inside : List (Text × Text)} {keywords keywords' : List Text} {text : Text}
    (hx : x.Extends inside keywords text) (hf : ∀ t, (f t).Extends [] keywords' t) :
    (x >>= f).Extends inside (keywords ++ keywords') text := by
  obtain ⟨own, hclauses, hkeywords, hgrows⟩ := hx
  obtain ⟨own', hclauses', hkeywords', hgrows'⟩ := hf x.value
  refine ⟨own ++ own', ?_, ?_, ?_⟩
  · rw [clauses_bind, hclauses, hclauses', List.nil_append, List.append_assoc]
  · rw [List.map_append, hkeywords, hkeywords']
  · rw [List.map_append]
    exact hgrows.append hgrows'

end Journaled

namespace Compose

open Journaled

variable (l : Layout)

/-! ## Clauses without queries -/

@[simp] theorem clauses_layFields (texts : List Text) : (layFields l texts).clauses = [] := rfl

@[simp] theorem clauses_laySubquery (level : Nat) (inFilter : Bool) (text : Text) :
    (laySubquery l level inFilter text).clauses = [] := rfl

@[simp] theorem clauses_layConnective (operator right : Text) :
    (layConnective l operator right).clauses = [] := rfl

@[simp] theorem clauses_addClause (keyword text content : Text) :
    (addClause l keyword text content).clauses =
      [(keyword, (addClause l keyword text content).value)] := rfl

@[simp] theorem clauses_joinLinks (xs : List (Link Text)) : (joinLinks l xs).clauses = [] := by
  have hfold (before : List (Link Text)) (right : Text) :
      (before.foldlM (joinLink l) right).clauses = [] := by
    induction before generalizing right with
    | nil => rfl
    | cons x before ih => simp [joinLink, ih]
  rw [joinLinks]
  split
  · rfl
  · exact hfold ..

theorem clauses_sortKeys (keys : SortKeys) : (sortKeys l keys).clauses = [] := by
  cases keys <;> rfl

theorem extends_addClause (keyword text content : Text) :
    (addClause l keyword text content).Extends [] [keyword] text := by
  have hgoes : text <+: (addClause l keyword text content).value := by
    rw [addClause, value_bind, value_pure, List.append_assoc]
    exact List.prefix_append ..
  exact ⟨[_], rfl, rfl, .cons hgoes (.nil _)⟩

theorem extends_addClause? {α : Type} {content : α → Journaled Text}
    (hcontent : ∀ a, (content a).clauses = []) (keyword : Text) (value : Option α) (text : Text) :
    (addClause? l keyword content value text).Extends [] (present [(keyword, value.isSome)])
      text := by
  cases value with
  | none => exact .pure text
  | some a =>
    obtain ⟨own, hclauses, h⟩ := extends_addClause l keyword text (content a).value
    exact ⟨own, by rw [addClause?, clauses_bind, hcontent, hclauses, List.nil_append], h⟩

theorem extends_addGrouping (grouping : Option Grouping) (text : Text) :
    (addGrouping l grouping text).Extends []
      (present [("GROUP BY", grouping.isSome), ("HAVING", (grouping.bind Grouping.having).isSome)])
      text := by
  cases grouping with
  | none => exact .pure text
  | some g =>
    exact (extends_addClause l "GROUP BY" text g.text).bind fun t =>
      extends_addClause? l (fun _ => clauses_joinLinks l _) "HAVING" g.having t

/-! ## Fields and links -/

/-- What is told of queries, one after another. -/
def told (qs : List Query) : List (Text × Text) := qs.flatMap fun q => (query l q).clauses

@[simp] theorem told_nil : told l [] = [] := rfl

@[simp] theorem told_append (qs qs' : List Query) : told l (qs ++ qs') = told l qs ++ told l qs' :=
  List.flatMap_append

mutual

theorem clauses_field : ∀ f, (field l f).clauses = told l f.subqueries
  | .plain _ | .path _ | .typeOf _ => by simp [field, Field.subqueries]
  | .call c => by rw [field, Field.subqueries, clauses_call]
  | .subquery q => by simp [field, Field.subqueries, told]

theorem clauses_call : ∀ c, (call l c).clauses = told l c.subqueries
  | ⟨_, args, _, _, _⟩ => by simp [call, Call.subqueries, clauses_arguments args]

theorem clauses_arguments : ∀ as, (arguments l as).clauses = told l (Argument.subqueriesAll as)
  | [] => by simp [arguments, Argument.subqueriesAll]
  | a :: as => by
    simp [arguments, Argument.subqueriesAll, clauses_argument a, clauses_arguments as]

theorem clauses_argument : ∀ a, (argument l a).clauses = told l a.subqueries
  | .text _ => by simp [argument, Argument.subqueries]
  | .field f => by rw [argument, Argument.subqueries, clauses_field]

end

theorem clauses_fields (fs : List Field) :
    (fields l fs).clauses = told l (fs.flatMap Field.subqueries) := by
  induction fs with
  | nil => rw [fields]; rfl
  | cons f fs ih => simp [fields, clauses_field, ih]

theorem clauses_condition (c : Condition) :
    (condition l c).clauses = told l c.query.toList := by
  obtain ⟨opens, closes, negated, field, call, comparison, value, kinds, query⟩ := c
  cases query with
  | none => cases value <;> simp [condition, valueText]
  | some q => simp [condition, valueText, told]

theorem clauses_link (x : Link Condition) :
    (link l x).clauses = told l (x.condition.toList.filterMap Condition.query) := by
  obtain ⟨condition, connective⟩ := x
  cases condition with
  | none => simp [link]
  | some c => cases hc : c.query <;> simp [link, clauses_condition, hc]

theorem clauses_links (xs : List (Link Condition)) :
    (links l xs).clauses = told l ((Link.conditions xs).filterMap Condition.query) := by
  induction xs with
  | nil => rw [links]; rfl
  | cons x xs ih => simp [links, clauses_link, Link.conditions_cons, ih]

theorem extends_addFilter (text : Text) (filter : Option (Chain Condition)) :
    (addFilter l text filter).Extends
      (told l ((filter.toList.flatMap Chain.conditions).filterMap Condition.query))
      (present [("WHERE", filter.isSome)]) text := by
  cases filter with
  | none => exact .pure text
  | some chain =>
    obtain ⟨head, tail⟩ := chain
    obtain ⟨own, hclauses, h⟩ := extends_addClause l "WHERE" text
      (joinLinks l ((link l head).value :: (links l tail).value)).value
    refine ⟨own, ?_, by rw [addFilter]; exact h⟩
    rw [addFilter, clauses_bind, clauses_bind, clauses_bind, clauses_joinLinks, List.nil_append,
      hclauses, clauses_link, clauses_links]
    simp [Chain.conditions, Chain.links, Link.conditions_cons]

/-! ## Queries -/

/-- Adds the clause `WITH SECURITY_ENFORCED`, if it is asked for. -/
def addSecurity (enforced : Bool) (text : Text) : Journaled Text :=
  if enforced then addClause l "WITH SECURITY_ENFORCED" text [] else pure text

/-- Adds the clauses after `FROM`. -/
def addOthers (q : Query) (text : Text) : Journaled Text := do
  let text ← addFilter l text q.filter
  let text ← addGrouping l q.grouping text
  let text ← addClause? l "ORDER BY" (sortKeys l) q.sorting text
  let text ← addClause? l "LIMIT" (fun n => pure (rowCount n)) q.limit text
  let text ← addClause? l "OFFSET" (fun n => pure (rowCount n)) q.offset text
  let text ← addClause? l "WITH DATA CATEGORY" (fun cs => pure (categoriesText cs)) q.categories
    text
  let text ← addSecurity l q.securityEnforced text
  let text ← addClause? l "FOR" (fun k => pure (Keyword.spelling k)) q.forTarget text
  addClause? l "UPDATE" (fun k => pure (Keyword.spelling k)) q.update text

theorem query_eq (q : Query) : query l q = (do
    let line ← layFields l (← fields l q.fields)
    let text ← addClause l "FROM" ("SELECT " ++ line) (sourceText q.source q.aliasName)
    addOthers l q text) := by
  obtain ⟨fs, source, aliasName, filter, grouping, sorting, limit, offset, categories,
    securityEnforced, forTarget, update⟩ := q
  rw [query]
  cases securityEnforced <;> rfl

theorem extends_addSecurity (enforced : Bool) (text : Text) :
    (addSecurity l enforced text).Extends [] (present [("WITH SECURITY_ENFORCED", enforced)])
      text := by
  cases enforced with
  | false => exact .pure text
  | true => exact extends_addClause ..

theorem extends_addOthers (q : Query) (text : Text) :
    (addOthers l q text).Extends (told l q.semiJoins) q.keywords text := by
  have h := (extends_addFilter l text q.filter).bind fun text =>
    (extends_addGrouping l q.grouping text).bind fun text =>
    (extends_addClause? l (clauses_sortKeys l) "ORDER BY" q.sorting text).bind fun text =>
    (extends_addClause? l (fun n => clauses_pure (rowCount n)) "LIMIT" q.limit text).bind
      fun text =>
    (extends_addClause? l (fun n => clauses_pure (rowCount n)) "OFFSET" q.offset text).bind
      fun text =>
    (extends_addClause? l (fun cs => clauses_pure (categoriesText cs)) "WITH DATA CATEGORY"
      q.categories text).bind fun text =>
    (extends_addSecurity l q.securityEnforced text).bind fun text =>
    (extends_addClause? l (fun k => clauses_pure (Keyword.spelling k)) "FOR" q.forTarget text).bind
      fun text =>
    extends_addClause? l (fun k => clauses_pure (Keyword.spelling k)) "UPDATE" q.update text
  simp only [← present_append] at h
  exact h

/-- **What is told of a query follows the query.**  First come its subqueries, all that is told of
    each; then `FROM`; then the queries in its filter, likewise; then the other clauses that it has,
    in the order in which they are written.  Each text told of its own clauses goes on with the one
    before it, and the last is all of its text.  This holds under every layout, and of the queries
    inside as well, which are composed by the same function. -/
theorem query_clauses (q : Query) : ∃ (first : Text) (others : List (Text × Text)),
    (query l q).clauses =
      told l q.subqueries ++ [(("FROM" : Text), first)] ++ told l q.semiJoins ++ others ∧
    others.map Prod.fst = q.keywords ∧
    Grows first (others.map Prod.snd) (query l q).value := by
  let line := layFields l (fields l q.fields).value
  let first := addClause l "FROM" ("SELECT " ++ line.value) (sourceText q.source q.aliasName)
  obtain ⟨others, hclauses, hkeywords, hgrows⟩ := extends_addOthers l q first.value
  refine ⟨first.value, others, ?_, hkeywords, by rw [query_eq]; exact hgrows⟩
  have hall : (query l q).clauses = (fields l q.fields).clauses ++ (line.clauses ++
      (first.clauses ++ (addOthers l q first.value).clauses)) := by
    rw [query_eq]
    simp only [clauses_bind, line, first]
  rw [hall, clauses_fields, hclauses]
  simp [line, first, Query.subqueries]

/-- The subquery is told of before the query, and the semi-join before the filter. -/
example :
    let part := Query.ofObject "E" [.ofName "Id"]
    let q := { Query.ofObject "A" [.subquery (Query.ofRelationship "B" [.ofName "C"])] with
      filter := some (.single (.ofQuery "D" .isIn part)), limit := some 1 }
    (query .plain q).clauses.map Prod.fst = ["FROM", "FROM", "FROM", "WHERE", "LIMIT"] := by
  decide_cbv

end Compose

/-- Composing a query anew tells of the clauses of that query. -/
theorem Composer.clauses_start (c : Composer) :
    c.start.clauses = (Compose.query c.layout c.query).clauses := by
  have hstarted (source : Text) : (Journaled.note (.started source)).clauses = [] := rfl
  have hfinished (text : Text) : (Journaled.note (.finished text)).clauses = [] := rfl
  simp [start, hstarted, hfinished]

end Soql
