/-
  The shape of filters.

  Parentheses of a filter are counted at its conditions and not matched up, so
  what groups a filter has is a matter of these counts.

  * `Link.opened`, `Link.closed`: the parentheses of links.
  * `Chain.Formed`: operators, negated groups and parentheses of a filter are
    where the grammar has them.
  * `LinksFrom depth xs after`: links that are read inside of `depth` open
    parentheses and leave `after` of them open.
  * `LinksFrom.formed`: such links are a filter of that shape.
  * `Chain.Balanced`, `Chain.Closes`: as many parentheses close as open, by
    their numbers and link by link.
-/
import Mathlib
import Soql.Proofs.Query.Inner

namespace Soql

/-- Conditions that count the parentheses around them. -/
class Parenthesized (κ : Type) where
  /-- Number of parentheses that open before the condition. -/
  opens : κ → Nat
  /-- Number of parentheses that close after the condition. -/
  closes : κ → Nat

instance : Parenthesized Condition := ⟨Condition.opens, Condition.closes⟩

instance : Parenthesized GroupCondition := ⟨GroupCondition.opens, GroupCondition.closes⟩

open Parenthesized

variable {κ : Type} [Parenthesized κ]

/-- How many parentheses open in links. -/
def Link.opened (xs : List (Link κ)) : Nat := ((Link.conditions xs).map opens).sum

/-- How many parentheses close in links. -/
def Link.closed (xs : List (Link κ)) : Nat := ((Link.conditions xs).map closes).sum

/-- A filter as the grammar has it. -/
structure Chain.Formed (chain : Chain κ) : Prop where
  /-- The last link has a condition and no operator, and all before it have an operator. -/
  ends : ∃ xs c, chain.links = xs ++ [⟨some c, none⟩] ∧ ∀ x ∈ xs, x.connective.isSome
  /-- A link has no condition if its operator negates what follows, and only then. -/
  negates : ∀ x ∈ chain.links, x.condition = none ↔ x.connective = some .not
  /-- What is negated starts with a parenthesis. -/
  groups : ∀ xs x y ys, chain.links = xs ++ x :: y :: ys → x.condition = none →
    ∃ c, y.condition = some c ∧ 1 ≤ opens c
  /-- Up to any place no more parentheses close than have been opened. -/
  nested : ∀ xs ys, chain.links = xs ++ ys → Link.closed xs ≤ Link.opened xs

/-- As many parentheses close in the filter as open. -/
def Chain.Balanced (chain : Chain κ) : Prop := Link.opened chain.links = Link.closed chain.links

/-- How many parentheses are open after a link, if `depth` are open before it. -/
def Link.after (depth : Nat) (x : Link κ) : Nat :=
  x.condition.elim depth fun c => depth + opens c - closes c

/-- Taken link by link, the filter leaves no parenthesis open. -/
def Chain.Closes (chain : Chain κ) : Prop := chain.links.foldl Link.after 0 = 0

/-! ## Filters link by link -/

/-- Links read inside of `depth` open parentheses, of which `after` stay open. -/
inductive LinksFrom : Nat → List (Link κ) → Nat → Prop
  /-- The last condition. -/
  | last {depth : Nat} (c : κ) (h : closes c ≤ depth + opens c) :
      LinksFrom depth [⟨some c, none⟩] (depth + opens c - closes c)
  /-- A condition that is joined to the links after it. -/
  | cons {depth after : Nat} {op : Connective} {c : κ} {xs : List (Link κ)} (hop : op ≠ .not)
      (h : closes c ≤ depth + opens c) (hxs : LinksFrom (depth + opens c - closes c) xs after) :
      LinksFrom depth (⟨some c, some op⟩ :: xs) after
  /-- The negation of a group that starts with the next condition. -/
  | group {depth after : Nat} {c : κ} {o : Option Connective} {xs : List (Link κ)}
      (h : 1 ≤ opens c) (hxs : LinksFrom depth (⟨some c, o⟩ :: xs) after) :
      LinksFrom depth (⟨none, some .not⟩ :: ⟨some c, o⟩ :: xs) after

section Counts

variable (c : κ) (o : Option Connective) (xs : List (Link κ))

@[simp] theorem Link.opened_nil : Link.opened ([] : List (Link κ)) = 0 := rfl

@[simp] theorem Link.closed_nil : Link.closed ([] : List (Link κ)) = 0 := rfl

@[simp] theorem Link.opened_cons :
    Link.opened (⟨some c, o⟩ :: xs) = opens c + Link.opened xs := by
  simp [Link.opened, Link.conditions_cons]

@[simp] theorem Link.closed_cons :
    Link.closed (⟨some c, o⟩ :: xs) = closes c + Link.closed xs := by
  simp [Link.closed, Link.conditions_cons]

@[simp] theorem Link.opened_group : Link.opened (⟨none, o⟩ :: xs) = Link.opened xs := by
  simp [Link.opened, Link.conditions_cons]

@[simp] theorem Link.closed_group : Link.closed (⟨none, o⟩ :: xs) = Link.closed xs := by
  simp [Link.closed, Link.conditions_cons]

end Counts

namespace LinksFrom

variable {depth after : Nat} {xs : List (Link κ)}

/-- The parentheses that stay open. -/
theorem count (h : LinksFrom depth xs after) :
    after + Link.closed xs = depth + Link.opened xs := by
  induction h with
  | last c h => simp; omega
  | cons _ h _ ih => simp only [Link.opened_cons, Link.closed_cons]; omega
  | group _ _ ih => simpa using ih

theorem ends (h : LinksFrom depth xs after) :
    ∃ ys c, xs = ys ++ [⟨some c, none⟩] ∧ ∀ y ∈ ys, y.connective.isSome := by
  induction h with
  | last c _ => exact ⟨[], c, rfl, by simp⟩
  | @cons _ _ op c xs _ _ _ ih =>
    obtain ⟨ys, d, rfl, hys⟩ := ih
    exact ⟨⟨some c, some op⟩ :: ys, d, rfl, by simpa using hys⟩
  | @group _ _ c o xs _ _ ih =>
    obtain ⟨ys, d, hxs, hys⟩ := ih
    exact ⟨⟨none, some .not⟩ :: ys, d, by rw [hxs, List.cons_append], by simpa using hys⟩

theorem negates (h : LinksFrom depth xs after) :
    ∀ x ∈ xs, x.condition = none ↔ x.connective = some .not := by
  induction h with
  | last c _ => simp
  | cons hop _ _ ih => exact List.forall_mem_cons.2 ⟨by simpa using hop, ih⟩
  | group _ _ ih => exact List.forall_mem_cons.2 ⟨by simp, ih⟩

theorem groups (h : LinksFrom depth xs after) {ys zs : List (Link κ)} {y z : Link κ}
    (hs : xs = ys ++ y :: z :: zs) (hy : y.condition = none) :
    ∃ c, z.condition = some c ∧ 1 ≤ opens c := by
  induction h generalizing ys with
  | last c _ =>
    rcases ys with _ | ⟨y', ys⟩ <;> simp at hs
  | cons _ _ _ ih =>
    rcases ys with _ | ⟨y', ys⟩
    · simp only [List.nil_append, List.cons.injEq] at hs
      simp [← hs.1] at hy
    · simp only [List.cons_append, List.cons.injEq] at hs
      exact ih hs.2
  | group hc _ ih =>
    rcases ys with _ | ⟨y', ys⟩
    · simp only [List.nil_append, List.cons.injEq] at hs
      exact ⟨_, by rw [← hs.2.1], hc⟩
    · simp only [List.cons_append, List.cons.injEq] at hs
      exact ih hs.2

theorem nested (h : LinksFrom depth xs after) {ys zs : List (Link κ)} (hs : xs = ys ++ zs) :
    Link.closed ys ≤ depth + Link.opened ys := by
  induction h generalizing ys with
  | last c h =>
    rcases ys with _ | ⟨y, ys⟩
    · simp
    · simp only [List.cons_append, List.cons.injEq, List.nil_eq_append_iff] at hs
      obtain ⟨rfl, rfl, rfl⟩ := hs
      simpa using h
  | cons _ h _ ih =>
    rcases ys with _ | ⟨y, ys⟩
    · simp
    · simp only [List.cons_append, List.cons.injEq] at hs
      obtain ⟨rfl, hs⟩ := hs
      have := ih hs
      simp only [Link.opened_cons, Link.closed_cons]
      omega
  | group _ _ ih =>
    rcases ys with _ | ⟨y, ys⟩
    · simp
    · simp only [List.cons_append, List.cons.injEq] at hs
      obtain ⟨rfl, hs⟩ := hs
      simpa using ih hs

/-- **Links that are read one after another have the shape of a filter.** -/
theorem formed {chain : Chain κ} (h : LinksFrom 0 chain.links after) : chain.Formed where
  ends := h.ends
  negates := h.negates
  groups _ _ _ _ := h.groups
  nested _ _ hs := (h.nested hs).trans (Nat.zero_add _).le

end LinksFrom

/-! ## The excess of parentheses -/

/-- How many more parentheses open in a filter than close. -/
def Chain.excess (chain : Chain κ) : Int := Link.opened chain.links - Link.closed chain.links

theorem Chain.Formed.excess_nonneg {chain : Chain κ} (h : chain.Formed) : 0 ≤ chain.excess := by
  have := h.nested chain.links [] (List.append_nil _).symm
  unfold Chain.excess
  omega

/-- Where no more parentheses close than have been opened, those that stay open are counted. -/
theorem Link.foldl_after {depth : Nat} {xs : List (Link κ)}
    (h : ∀ ys zs, xs = ys ++ zs → Link.closed ys ≤ depth + Link.opened ys) :
    xs.foldl Link.after depth + Link.closed xs = depth + Link.opened xs := by
  induction xs generalizing depth with
  | nil => rfl
  | cons x xs ih =>
    rcases x with ⟨_ | c, o⟩
    · rw [List.foldl_cons, Link.closed_group, Link.opened_group]
      refine ih fun ys zs hs => ?_
      change Link.closed ys ≤ depth + Link.opened ys
      simpa using h (⟨none, o⟩ :: ys) zs (by rw [hs, List.cons_append])
    · have hc : closes c ≤ depth + opens c := by simpa using h [⟨some c, o⟩] xs rfl
      have hrest := @ih (Link.after depth ⟨some c, o⟩) fun ys zs hs => by
        have := h (⟨some c, o⟩ :: ys) zs (by rw [hs, List.cons_append])
        simp only [Link.closed_cons, Link.opened_cons, Link.after, Option.elim_some] at this ⊢
        omega
      simp only [List.foldl_cons, Link.closed_cons, Link.opened_cons, Link.after,
        Option.elim_some] at hrest ⊢
      omega

/-- A filter of the grammar's shape leaves no parenthesis open if as many close as open. -/
theorem Chain.Formed.closes_iff {chain : Chain κ} (h : chain.Formed) :
    chain.Closes ↔ chain.Balanced := by
  have hsum : chain.links.foldl Link.after 0 + Link.closed chain.links =
      0 + Link.opened chain.links := Link.foldl_after fun ys zs hs => by
    rw [Nat.zero_add]
    exact h.nested ys zs hs
  unfold Chain.Closes Chain.Balanced
  omega

theorem Chain.balanced_iff {chain : Chain κ} : chain.Balanced ↔ chain.excess = 0 := by
  unfold Chain.Balanced Chain.excess
  omega

end Soql
