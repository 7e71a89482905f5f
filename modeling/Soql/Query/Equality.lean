/-
  Equality of queries, decided part by part.

  * `Query.beq` and its companions for what lies in a query.
  * `Query.beq_iff_eq`: they decide equality, so that queries, fields, calls,
    arguments and conditions have decidable equality.
-/
import Soql.Query.Basic

namespace Soql

mutual

/-- Whether two queries are equal. -/
def Query.beq : Query → Query → Bool
  | ⟨fs, source, aliasName, filter, grouping, sorting, limit, offset, categories,
      securityEnforced, forTarget, update⟩, q =>
    Field.beqAll fs q.fields && source == q.source && aliasName == q.aliasName
      && Condition.beqFilter filter q.filter && grouping == q.grouping && sorting == q.sorting
      && limit == q.limit && offset == q.offset && categories == q.categories
      && securityEnforced == q.securityEnforced && forTarget == q.forTarget && update == q.update

/-- Whether two queries that may be absent are equal. -/
def Query.beqOption : Option Query → Option Query → Bool
  | none, none => true
  | some p, some q => p.beq q
  | _, _ => false

/-- Whether two fields are equal. -/
def Field.beq : Field → Field → Bool
  | .plain f, .plain g => f == g
  | .call c, .call d => c.beq d
  | .path f, .path g => f == g
  | .subquery p, .subquery q => p.beq q
  | .typeOf e, .typeOf g => e == g
  | _, _ => false

/-- Whether two field lists are equal. -/
def Field.beqAll : List Field → List Field → Bool
  | [], [] => true
  | f :: fs, g :: gs => f.beq g && Field.beqAll fs gs
  | _, _ => false

/-- Whether two calls are equal. -/
def Call.beq : Call → Call → Bool
  | ⟨name, args, aliasName, aggregate, source⟩, d =>
    name == d.name && Argument.beqAll args d.arguments && aliasName == d.aliasName
      && aggregate == d.aggregate && source == d.source

/-- Whether two arguments are equal. -/
def Argument.beq : Argument → Argument → Bool
  | .text t, .text u => t == u
  | .field f, .field g => f.beq g
  | _, _ => false

/-- Whether two lists of arguments are equal. -/
def Argument.beqAll : List Argument → List Argument → Bool
  | [], [] => true
  | a :: as, b :: bs => a.beq b && Argument.beqAll as bs
  | _, _ => false

/-- Whether two filters that may be absent are equal. -/
def Condition.beqFilter : Option (Chain Condition) → Option (Chain Condition) → Bool
  | none, none => true
  | some ⟨head, tail⟩, some chain =>
    Condition.beqLink head chain.head && Condition.beqLinks tail chain.tail
  | _, _ => false

/-- Whether two lists of links are equal. -/
def Condition.beqLinks : List (Link Condition) → List (Link Condition) → Bool
  | [], [] => true
  | l :: ls, m :: ms => Condition.beqLink l m && Condition.beqLinks ls ms
  | _, _ => false

/-- Whether two links are equal. -/
def Condition.beqLink : Link Condition → Link Condition → Bool
  | ⟨none, connective⟩, ⟨none, connective'⟩ => connective == connective'
  | ⟨some c, connective⟩, ⟨some d, connective'⟩ => c.beq d && connective == connective'
  | _, _ => false

/-- Whether two conditions are equal. -/
def Condition.beq : Condition → Condition → Bool
  | ⟨opens, closes, negated, field, call, comparison, value, kinds, query⟩, d =>
    opens == d.opens && closes == d.closes && negated == d.negated && field == d.field
      && call == d.call && comparison == d.comparison && value == d.value && kinds == d.kinds
      && Query.beqOption query d.query

end

/-! ## The comparisons decide equality -/

mutual

theorem Query.beq_iff_eq : ∀ p q : Query, p.beq q = true ↔ p = q
  | ⟨fs, source, aliasName, filter, grouping, sorting, limit, offset, categories,
      securityEnforced, forTarget, update⟩, ⟨gs, _, _, filter', _, _, _, _, _, _, _, _⟩ => by
    simp [Query.beq, Field.beqAll_iff_eq fs gs, Condition.beqFilter_iff_eq filter filter',
      and_assoc]

theorem Query.beqOption_iff_eq : ∀ p q : Option Query, Query.beqOption p q = true ↔ p = q
  | none, none => by simp [Query.beqOption]
  | some p, some q => by simp [Query.beqOption, Query.beq_iff_eq p q]
  | none, some _ => by simp [Query.beqOption]
  | some _, none => by simp [Query.beqOption]

theorem Field.beq_iff_eq : ∀ f g : Field, f.beq g = true ↔ f = g
  | .plain f, g => by cases g <;> simp [Field.beq]
  | .call c, .call d => by simp [Field.beq, Call.beq_iff_eq c d]
  | .call _, .plain _ | .call _, .path _ | .call _, .subquery _ | .call _, .typeOf _ => by
    simp [Field.beq]
  | .path f, g => by cases g <;> simp [Field.beq]
  | .subquery p, .subquery q => by simp [Field.beq, Query.beq_iff_eq p q]
  | .subquery _, .plain _ | .subquery _, .path _ | .subquery _, .call _
  | .subquery _, .typeOf _ => by simp [Field.beq]
  | .typeOf e, g => by cases g <;> simp [Field.beq]

theorem Field.beqAll_iff_eq : ∀ fs gs : List Field, Field.beqAll fs gs = true ↔ fs = gs
  | [], gs => by cases gs <;> simp [Field.beqAll]
  | f :: fs, [] => by simp [Field.beqAll]
  | f :: fs, g :: gs => by
    simp [Field.beqAll, Field.beq_iff_eq f g, Field.beqAll_iff_eq fs gs]

theorem Call.beq_iff_eq : ∀ c d : Call, c.beq d = true ↔ c = d
  | ⟨name, args, aliasName, aggregate, source⟩, ⟨_, args', _, _, _⟩ => by
    simp [Call.beq, Argument.beqAll_iff_eq args args', and_assoc]

theorem Argument.beq_iff_eq : ∀ a b : Argument, a.beq b = true ↔ a = b
  | .text t, b => by cases b <;> simp [Argument.beq]
  | .field f, .field g => by simp [Argument.beq, Field.beq_iff_eq f g]
  | .field f, .text _ => by simp [Argument.beq]

theorem Argument.beqAll_iff_eq :
    ∀ as bs : List Argument, Argument.beqAll as bs = true ↔ as = bs
  | [], bs => by cases bs <;> simp [Argument.beqAll]
  | a :: as, [] => by simp [Argument.beqAll]
  | a :: as, b :: bs => by
    simp [Argument.beqAll, Argument.beq_iff_eq a b, Argument.beqAll_iff_eq as bs]

theorem Condition.beqFilter_iff_eq :
    ∀ c d : Option (Chain Condition), Condition.beqFilter c d = true ↔ c = d
  | none, d => by cases d <;> simp [Condition.beqFilter]
  | some _, none => by simp [Condition.beqFilter]
  | some ⟨head, tail⟩, some ⟨head', tail'⟩ => by
    simp [Condition.beqFilter, Condition.beqLink_iff_eq head head',
      Condition.beqLinks_iff_eq tail tail']

theorem Condition.beqLinks_iff_eq :
    ∀ ls ms : List (Link Condition), Condition.beqLinks ls ms = true ↔ ls = ms
  | [], ms => by cases ms <;> simp [Condition.beqLinks]
  | l :: ls, [] => by simp [Condition.beqLinks]
  | l :: ls, m :: ms => by
    simp [Condition.beqLinks, Condition.beqLink_iff_eq l m, Condition.beqLinks_iff_eq ls ms]

theorem Condition.beqLink_iff_eq :
    ∀ l m : Link Condition, Condition.beqLink l m = true ↔ l = m
  | ⟨none, connective⟩, ⟨none, connective'⟩ => by simp [Condition.beqLink]
  | ⟨some c, connective⟩, ⟨some d, connective'⟩ => by
    simp [Condition.beqLink, Condition.beq_iff_eq c d]
  | ⟨none, _⟩, ⟨some _, _⟩ => by simp [Condition.beqLink]
  | ⟨some _, _⟩, ⟨none, _⟩ => by simp [Condition.beqLink]

theorem Condition.beq_iff_eq : ∀ c d : Condition, c.beq d = true ↔ c = d
  | ⟨opens, closes, negated, field, call, comparison, value, kinds, query⟩,
    ⟨_, _, _, _, _, _, _, _, query'⟩ => by
    simp [Condition.beq, Query.beqOption_iff_eq query query', and_assoc]

end

instance : DecidableEq Query := fun p q => decidable_of_iff _ (Query.beq_iff_eq p q)

instance : DecidableEq Field := fun f g => decidable_of_iff _ (Field.beq_iff_eq f g)

instance : DecidableEq Call := fun c d => decidable_of_iff _ (Call.beq_iff_eq c d)

instance : DecidableEq Argument := fun a b => decidable_of_iff _ (Argument.beq_iff_eq a b)

instance : DecidableEq Condition := fun c d => decidable_of_iff _ (Condition.beq_iff_eq c d)

end Soql
