/-
  The calls of a query.

  Calls stand in the field list of a query, with others among their arguments,
  and in its conditions, group keys and sort keys.

  * `Field.calls`, `Call.calls`: a call and those inside of it.
  * `Query.calls`: the calls of a query, all in their flat form; those of the
    queries inside of it are their own.
-/
import Mathlib
import Soql.Query.Call
import Soql.Proofs.Query.Inner
import Soql.Proofs.Query.Parts

namespace Soql

mutual

/-- A call and those among its arguments, at every depth. -/
def Call.calls : Call → List Call
  | ⟨name, args, aliasName, aggregate, source⟩ =>
    ⟨name, args, aliasName, aggregate, source⟩ :: Argument.callsAll args

/-- The calls of arguments. -/
def Argument.callsAll : List Argument → List Call
  | [] => []
  | a :: as => a.calls ++ Argument.callsAll as

/-- The calls of an argument. -/
def Argument.calls : Argument → List Call
  | .text _ => []
  | .field f => f.calls

/-- The calls of a field. -/
def Field.calls : Field → List Call
  | .call c => c.calls
  | .plain _ | .path _ | .subquery _ | .typeOf _ => []

end

theorem Argument.callsAll_eq (as : List Argument) :
    Argument.callsAll as = as.flatMap Argument.calls := by
  induction as with
  | nil => rfl
  | cons a as ih => rw [Argument.callsAll, ih, List.flatMap_cons]

theorem Call.calls_eq (c : Call) : c.calls = c :: c.arguments.flatMap Argument.calls := by
  obtain ⟨name, args, aliasName, aggregate, source⟩ := c
  rw [Call.calls, Argument.callsAll_eq]

/-- The calls of conditions with their links. -/
def Chain.calls {κ : Type} (call : κ → Option FlatCall) (chain : Chain κ) : List FlatCall :=
  chain.conditions.filterMap call

/-- The calls of a grouping: its key, and those of its conditions. -/
def Grouping.calls (g : Grouping) : List FlatCall :=
  g.call.toList ++ g.having.toList.flatMap (Chain.calls GroupCondition.call)

/-- The calls of sort keys. -/
def SortKeys.calls (keys : SortKeys) : List FlatCall := keys.toList.filterMap SortKey.call

/-- The calls of a query, without those of the queries inside of it. -/
def Query.calls (q : Query) : List FlatCall :=
  (q.fields.flatMap Field.calls).map Call.flatten ++
    (q.filter.toList.flatMap (Chain.calls Condition.call) ++
      (q.grouping.toList.flatMap Grouping.calls ++ q.sorting.toList.flatMap SortKeys.calls))

section forall_mem_calls

variable {P : FlatCall → Prop}

theorem Grouping.forall_mem_calls {g : Grouping} : (∀ c ∈ g.calls, P c) ↔
    (∀ c ∈ g.call, P c) ∧ ∀ chain ∈ g.having, ∀ x ∈ chain.conditions, ∀ c ∈ x.call, P c := by
  simp only [calls, Chain.calls, List.forall_mem_append, List.forall_mem_flatMap,
    List.forall_mem_filterMap, Option.mem_toList, Option.mem_def]

theorem SortKeys.forall_mem_calls {keys : SortKeys} :
    (∀ c ∈ keys.calls, P c) ↔ ∀ key ∈ keys.toList, ∀ c ∈ key.call, P c := by
  simp only [calls, List.forall_mem_filterMap, Option.mem_def]

/-- What holds of the calls of a query holds of those of each clause. -/
theorem Query.forall_mem_calls {q : Query} : (∀ c ∈ q.calls, P c) ↔
    (∀ f ∈ q.fields, ∀ c ∈ f.calls, P c.flatten) ∧
      (∀ chain ∈ q.filter, ∀ x ∈ chain.conditions, ∀ c ∈ x.call, P c) ∧
      (∀ g ∈ q.grouping, ∀ c ∈ g.calls, P c) ∧ ∀ keys ∈ q.sorting, ∀ c ∈ keys.calls, P c := by
  simp only [calls, Chain.calls, List.forall_mem_append, List.forall_mem_flatMap,
    List.forall_mem_filterMap, List.forall_mem_map, Option.mem_toList, Option.mem_def]

end forall_mem_calls

end Soql
