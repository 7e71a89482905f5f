/-
  Queries inside of queries.

  A query holds others in its field list, in the arguments of the calls there
  and in the conditions of its filter.

  * `Query.inner`: the queries inside of a query at every depth, each with
    whether it is a field.
  * `Query.all`: the query and those inside of it.
  * `Chain.conditions`: the conditions of a filter, from the first to the last.
-/
import Mathlib
import Soql.Query.Basic

namespace Soql

mutual

/-- The queries inside of a query, each with whether it is a field. -/
def Query.inner : Query → List (Bool × Query)
  | ⟨fs, _, _, filter, _, _, _, _, _, _, _, _⟩ => Field.innerAll fs ++ Condition.innerFilter filter

/-- The queries inside of fields. -/
def Field.innerAll : List Field → List (Bool × Query)
  | [] => []
  | f :: fs => f.inner ++ Field.innerAll fs

/-- The queries inside of a field. -/
def Field.inner : Field → List (Bool × Query)
  | .call c => c.inner
  | .subquery q => (true, q) :: q.inner
  | .plain _ | .path _ | .typeOf _ => []

/-- The queries inside of a call. -/
def Call.inner : Call → List (Bool × Query)
  | ⟨_, args, _, _, _⟩ => Argument.innerAll args

/-- The queries inside of arguments. -/
def Argument.innerAll : List Argument → List (Bool × Query)
  | [] => []
  | a :: as => a.inner ++ Argument.innerAll as

/-- The queries inside of an argument. -/
def Argument.inner : Argument → List (Bool × Query)
  | .text _ => []
  | .field f => f.inner

/-- The queries inside of a filter. -/
def Condition.innerFilter : Option (Chain Condition) → List (Bool × Query)
  | none => []
  | some ⟨head, tail⟩ => Condition.innerLink head ++ Condition.innerLinks tail

/-- The queries inside of links. -/
def Condition.innerLinks : List (Link Condition) → List (Bool × Query)
  | [] => []
  | l :: ls => Condition.innerLink l ++ Condition.innerLinks ls

/-- The queries inside of a link. -/
def Condition.innerLink : Link Condition → List (Bool × Query)
  | ⟨none, _⟩ => []
  | ⟨some c, _⟩ => c.inner

/-- The queries inside of a condition. -/
def Condition.inner : Condition → List (Bool × Query)
  | ⟨_, _, _, _, _, _, _, _, query⟩ => Query.innerOption query

/-- The query that a condition compares with, and those inside of it. -/
def Query.innerOption : Option Query → List (Bool × Query)
  | none => []
  | some q => (false, q) :: q.inner

end

/-- The query and those inside of it. -/
def Query.all (q : Query) : List Query := q :: q.inner.map Prod.snd

/-- The conditions of links in order. -/
def Link.conditions {κ : Type} (xs : List (Link κ)) : List κ := xs.filterMap Link.condition

/-- The conditions of a filter in order. -/
def Chain.conditions {κ : Type} (chain : Chain κ) : List κ := Link.conditions chain.links

theorem Link.conditions_cons {κ : Type} (x : Link κ) (xs : List (Link κ)) :
    Link.conditions (x :: xs) = x.condition.toList ++ Link.conditions xs := by
  cases h : x.condition <;> simp [Link.conditions, h]

theorem Field.innerAll_eq (fs : List Field) : Field.innerAll fs = fs.flatMap Field.inner := by
  induction fs with
  | nil => rfl
  | cons f fs ih => rw [Field.innerAll, ih, List.flatMap_cons]

theorem Argument.innerAll_eq (as : List Argument) :
    Argument.innerAll as = as.flatMap Argument.inner := by
  induction as with
  | nil => rfl
  | cons a as ih => rw [Argument.innerAll, ih, List.flatMap_cons]

theorem Condition.innerLink_eq (x : Link Condition) :
    Condition.innerLink x = x.condition.toList.flatMap Condition.inner := by
  rcases x with ⟨_ | c, connective⟩
  · rfl
  · exact (List.append_nil _).symm

theorem Condition.innerLinks_eq (xs : List (Link Condition)) :
    Condition.innerLinks xs = (Link.conditions xs).flatMap Condition.inner := by
  induction xs with
  | nil => rfl
  | cons x xs ih =>
    rw [Condition.innerLinks, ih, Condition.innerLink_eq, Link.conditions_cons,
      List.flatMap_append]

/-- The queries inside of a filter are those inside of its conditions. -/
theorem Condition.innerFilter_eq (filter : Option (Chain Condition)) :
    Condition.innerFilter filter =
      (filter.toList.flatMap Chain.conditions).flatMap Condition.inner := by
  cases filter with
  | none => rfl
  | some chain =>
    simp only [Option.toList_some, List.flatMap_cons, List.flatMap_nil, List.append_nil]
    exact Condition.innerLinks_eq chain.links

theorem Query.inner_eq (q : Query) : q.inner =
    q.fields.flatMap Field.inner ++
      (q.filter.toList.flatMap Chain.conditions).flatMap Condition.inner := by
  rw [← Field.innerAll_eq, ← Condition.innerFilter_eq]
  cases q
  rfl

theorem Call.inner_eq (c : Call) : c.inner = c.arguments.flatMap Argument.inner := by
  obtain ⟨name, args, aliasName, aggregate, source⟩ := c
  exact Argument.innerAll_eq args

/-- A query that a condition compares with, and those inside of it, lie inside of the condition. -/
theorem Condition.mem_inner {c : Condition} {q r : Query} (hq : q ∈ c.query) (hr : r ∈ q.all) :
    r ∈ c.inner.map Prod.snd := by
  obtain ⟨_, _, _, _, _, _, _, _, query⟩ := c
  obtain rfl := Option.mem_def.1 hq
  exact hr

namespace Query

variable {q r t : Query}

theorem mem_all_of_field {f : Field} {x : Bool × Query} (hf : f ∈ q.fields) (hx : x ∈ f.inner) :
    x.2 ∈ q.all := by
  refine List.mem_cons_of_mem _ (List.mem_map_of_mem ?_)
  rw [inner_eq]
  exact List.mem_append_left _ (List.mem_flatMap.2 ⟨f, hf, hx⟩)

theorem mem_all_of_condition {chain : Chain Condition} {c : Condition} (hchain : chain ∈ q.filter)
    (hc : c ∈ chain.conditions) (hr : r ∈ c.query) (ht : t ∈ r.all) : t ∈ q.all := by
  obtain ⟨x, hx, rfl⟩ := List.mem_map.1 (Condition.mem_inner hr ht)
  refine List.mem_cons_of_mem _ (List.mem_map_of_mem ?_)
  rw [inner_eq]
  refine List.mem_append_right _ (List.mem_flatMap.2 ⟨c, List.mem_flatMap.2 ⟨chain, ?_, hc⟩, hx⟩)
  exact Option.mem_toList.2 hchain

end Query

end Soql
