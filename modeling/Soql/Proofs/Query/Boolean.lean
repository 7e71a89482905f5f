/-
  Boolean filters.

  A filter joins terms by `AND` and `OR`, and a term may be a filter of its
  own between parentheses.  The chain of such a filter has no groups any more,
  only counts of parentheses at its conditions.

  * `Term`, `Formula`: filters as they are grouped.
  * `Formula.links`: the chain of a filter.
  * `Formula.Admissible`: no group starts with the negation of another one.
  * `Formula.links_inj`: admissible filters are told apart by their chains.
-/
import Mathlib
import Soql.Proofs.Parse.Filters

namespace Soql

/-- An operator that joins the terms of a filter. -/
inductive Joint where
  | and | or
deriving DecidableEq

/-- The operator of a link that joins it to others. -/
def Joint.connective : Joint → Connective
  | .and => .and
  | .or => .or

theorem Joint.connective_ne_not (op : Joint) : op.connective ≠ .not := by
  cases op <;> decide

mutual

/-- A term of a filter. -/
inductive Term where
  /-- A condition without what stands around it. -/
  | condition (negated : Bool) (c : Condition)
  /-- A filter between parentheses. -/
  | group (negated : Bool) (body : Formula)

/-- Terms joined by operators. -/
inductive Formula where
  | last (t : Term)
  | join (t : Term) (op : Joint) (rest : Formula)

end

/-! ## Chains -/

mutual

/-- The links of a term with which `opens` groups start and `closes` groups end, and after which
    comes an operator. -/
def Term.links (opens closes : Nat) (after : Option Connective) : Term → List (Link Condition)
  | .condition negated c => [⟨some (c.surround opens negated closes), after⟩]
  | .group false body => body.links (opens + 1) (closes + 1) after
  | .group true body => ⟨none, some .not⟩ :: body.links (opens + 1) (closes + 1) after

/-- The links of a filter with which `opens` groups start and `closes` groups end, and after which
    comes an operator. -/
def Formula.links (opens closes : Nat) (after : Option Connective) : Formula → List (Link Condition)
  | .last t => t.links opens closes after
  | .join t op rest => t.links opens 0 (some op.connective) ++ rest.links 0 closes after

end

/-- Whether the term is the negation of a group. -/
def Term.isNegatedGroup : Term → Bool
  | .group true _ => true
  | _ => false

/-- The first term of a filter. -/
def Formula.first : Formula → Term
  | .last t => t
  | .join t _ _ => t

mutual

/-- No group in the term starts with the negation of another one. -/
def Term.Admissible : Term → Prop
  | .condition _ _ => True
  | .group _ body => body.first.isNegatedGroup = false ∧ body.Admissible

/-- No group in the filter starts with the negation of another one. -/
def Formula.Admissible : Formula → Prop
  | .last t => t.Admissible
  | .join t _ rest => t.Admissible ∧ rest.Admissible

end

mutual

/-- The conditions of a term in order. -/
def Term.conditions : Term → List Condition
  | .condition _ c => [c]
  | .group _ body => body.conditions

/-- The conditions of a filter in order. -/
def Formula.conditions : Formula → List Condition
  | .last t => t.conditions
  | .join t _ rest => t.conditions ++ rest.conditions

end

/-- Nothing stands around the condition. -/
def Condition.Bare (c : Condition) : Prop := c.surround 0 false 0 = c

/-! ## Signs -/

/-- What a filter is written with. -/
inductive Sign where
  | opening | closing | not
  | condition (c : Condition)
  | operator (op : Connective)

/-- The negation of what follows. -/
def negation (negated : Bool) : List Sign := if negated then [.not] else []

mutual

/-- The signs of a term. -/
def Term.signs : Term → List Sign
  | .condition negated c => negation negated ++ [.condition c]
  | .group negated body => negation negated ++ .opening :: (body.signs ++ [.closing])

/-- The signs of a filter. -/
def Formula.signs : Formula → List Sign
  | .last t => t.signs
  | .join t op rest => t.signs ++ .operator op.connective :: rest.signs

end

/-- The signs of a link. -/
def Link.signs : Link Condition → List Sign
  | ⟨none, _⟩ => [.not]
  | ⟨some c, o⟩ => List.replicate c.opens .opening ++ (negation c.negated ++
      .condition (c.surround 0 false 0) :: (List.replicate c.closes .closing ++
        (o.map Sign.operator).toList))

mutual

/-- The chain of an admissible filter has all its signs, in their order. -/
theorem Term.flatMap_signs_links : ∀ (t : Term) (opens closes : Nat) (o : Option Connective),
    t.Admissible → (0 < opens → t.isNegatedGroup = false) → (∀ c ∈ t.conditions, c.Bare) →
    (t.links opens closes o).flatMap Link.signs = List.replicate opens .opening ++ (t.signs ++
      (List.replicate closes .closing ++ (o.map Sign.operator).toList))
  | .condition negated c, opens, closes, o, _, _, hc => by
    have hbare : c.surround 0 false 0 = c := hc c (List.mem_singleton.2 rfl)
    have hlink : Link.signs ⟨some (c.surround opens negated closes), o⟩ =
        List.replicate opens .opening ++ (negation negated ++ .condition (c.surround 0 false 0) ::
          (List.replicate closes .closing ++ (o.map Sign.operator).toList)) := rfl
    simp [Term.links, Term.signs, hlink, hbare]
  | .group false body, opens, closes, o, h, _, hc => by
    rw [Term.links, Formula.flatMap_signs_links body _ _ o h.2 (fun _ => h.1) hc]
    simp [Term.signs, negation, List.replicate_succ' (n := opens),
      List.replicate_succ (n := closes)]
  | .group true body, opens, closes, o, h, hn, hc => by
    obtain rfl : opens = 0 := by simpa [Term.isNegatedGroup] using hn
    rw [Term.links, List.flatMap_cons,
      Formula.flatMap_signs_links body _ _ o h.2 (fun _ => h.1) hc]
    simp [Term.signs, Link.signs, negation, List.replicate_succ (n := closes)]

theorem Formula.flatMap_signs_links : ∀ (f : Formula) (opens closes : Nat) (o : Option Connective),
    f.Admissible → (0 < opens → f.first.isNegatedGroup = false) → (∀ c ∈ f.conditions, c.Bare) →
    (f.links opens closes o).flatMap Link.signs = List.replicate opens .opening ++ (f.signs ++
      (List.replicate closes .closing ++ (o.map Sign.operator).toList))
  | .last t, opens, closes, o, h, hn, hc => Term.flatMap_signs_links t opens closes o h hn hc
  | .join t op rest, opens, closes, o, h, hn, hc => by
    obtain ⟨ht, hrest⟩ := List.forall_mem_append.1 hc
    rw [Formula.links, List.flatMap_append, Term.flatMap_signs_links t _ _ _ h.1 hn ht,
      Formula.flatMap_signs_links rest _ _ o h.2 (by simp) hrest]
    simp [Formula.signs]

end

/-! ## Filters from their signs -/

theorem negation_append_inj {m n : Bool} {a b : Sign} {xs ys : List Sign} (ha : a ≠ .not)
    (hb : b ≠ .not) (h : negation m ++ a :: xs = negation n ++ b :: ys) :
    m = n ∧ a = b ∧ xs = ys := by
  cases m <;> cases n <;> simp_all [negation]

/-- No operator stands at the start. -/
def Ended (xs : List Sign) : Prop := ∀ op ys, xs ≠ .operator op :: ys

theorem Joint.connective_inj {op op' : Joint} (h : op.connective = op'.connective) : op = op' := by
  cases op <;> cases op' <;> simp_all [Joint.connective]

mutual

/-- A term is told by its signs, whatever follows. -/
theorem Term.signs_append_inj : ∀ (t u : Term) (xs ys : List Sign),
    t.signs ++ xs = u.signs ++ ys → t = u ∧ xs = ys
  | .condition m c, .condition n d, xs, ys, h => by
    simp only [Term.signs, List.append_assoc, List.singleton_append] at h
    obtain ⟨rfl, hc, rfl⟩ := negation_append_inj (by simp) (by simp) h
    cases hc
    exact ⟨rfl, rfl⟩
  | .condition m c, .group n body, xs, ys, h => by
    simp only [Term.signs, List.append_assoc, List.cons_append] at h
    obtain ⟨-, hc, -⟩ := negation_append_inj (by simp) (by simp) h
    cases hc
  | .group m body, .condition n d, xs, ys, h => by
    simp only [Term.signs, List.append_assoc, List.cons_append] at h
    obtain ⟨-, hc, -⟩ := negation_append_inj (by simp) (by simp) h
    cases hc
  | .group m body, .group n body', xs, ys, h => by
    simp only [Term.signs, List.append_assoc, List.cons_append, List.nil_append] at h
    obtain ⟨rfl, -, h⟩ := negation_append_inj (by simp) (by simp) h
    obtain ⟨rfl, hrest⟩ := Formula.signs_append_inj body body' (.closing :: xs) (.closing :: ys)
      (by simp [Ended]) (by simp [Ended]) h
    exact ⟨rfl, List.tail_eq_of_cons_eq hrest⟩

/-- A filter is told by its signs, if no operator follows. -/
theorem Formula.signs_append_inj : ∀ (f g : Formula) (xs ys : List Sign), Ended xs → Ended ys →
    f.signs ++ xs = g.signs ++ ys → f = g ∧ xs = ys
  | .last t, .last u, xs, ys, _, _, h => by
    obtain ⟨rfl, hrest⟩ := Term.signs_append_inj t u xs ys h
    exact ⟨rfl, hrest⟩
  | .last t, .join u op g, xs, ys, hx, _, h => by
    simp only [Formula.signs, List.append_assoc, List.cons_append] at h
    exact absurd (Term.signs_append_inj t u _ _ h).2 (hx _ _)
  | .join t op f, .last u, xs, ys, _, hy, h => by
    simp only [Formula.signs, List.append_assoc, List.cons_append] at h
    exact absurd (Term.signs_append_inj t u _ _ h).2.symm (hy _ _)
  | .join t op f, .join u op' g, xs, ys, hx, hy, h => by
    simp only [Formula.signs, List.append_assoc, List.cons_append] at h
    obtain ⟨rfl, hrest⟩ := Term.signs_append_inj t u _ _ h
    obtain ⟨hop, htail⟩ := List.cons.inj hrest
    obtain rfl := Joint.connective_inj (Sign.operator.inj hop)
    obtain ⟨rfl, hend⟩ := Formula.signs_append_inj f g xs ys hx hy htail
    exact ⟨rfl, hend⟩

end

/-- **Admissible filters are told apart by their chains.** -/
theorem Formula.links_inj {f g : Formula} (hf : f.Admissible) (hg : g.Admissible)
    (hf' : ∀ c ∈ f.conditions, c.Bare) (hg' : ∀ c ∈ g.conditions, c.Bare)
    (h : f.links 0 0 none = g.links 0 0 none) : f = g := by
  have hsigns := congrArg (List.flatMap Link.signs) h
  rw [f.flatMap_signs_links 0 0 none hf (by simp) hf',
    g.flatMap_signs_links 0 0 none hg (by simp) hg'] at hsigns
  exact (Formula.signs_append_inj f g [] [] (by simp [Ended]) (by simp [Ended])
    (by simpa using hsigns)).1

end Soql
