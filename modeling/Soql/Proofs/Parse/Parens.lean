/-
  Filters with their parentheses.

  The parentheses that a filter is read with are those that its conditions
  count, whatever the conditions are.

  * `FrontTaken`, `LinkTaken`, `ChainTaken`: what is taken in front of a
    condition, for a link and for a filter.
  * `excess_linkOf`: links take the parentheses that they count.
  * `excess_chainUpTo`: so do filters, and they have the shape of one.
-/
import Mathlib
import Soql.Proofs.Parse.Yields
import Soql.Proofs.Parse.Links
import Soql.Proofs.Query.Shape

namespace Soql

open Unicode Token Soql.Parser Parenthesized

namespace Parser

/-! ## Runs of parentheses -/

/-- Parentheses that are in view are taken and counted. -/
theorem excess_openParens : Reads openParens fun us n ds =>
    excess us = n ∧ (inView (us ++ ds) = .openParen → 1 ≤ n) := by
  have hparen : Yields (pure ()) (fun _ => 0) (fun _ : Unit => True) := Yields.pure rfl trivial
  have hmany := (hparen.after (t := .openParen) (by decide)).many
  intro E T ps c n c' hc h
  obtain ⟨as, c₁, h1, h2⟩ := bind_eq_ok.1 h
  obtain ⟨rfl, rfl⟩ := pure_eq_ok.1 h2
  obtain ⟨us, ds, rfl, hc', hm, -⟩ := hmany hc h1
  refine ⟨us, ds, rfl, hc', ?_, fun hview => ?_⟩
  · rw [hm]
    simp [Token.paren]
  · -- the bound on the number of steps is positive, so the first one is made
    obtain ⟨_, _, hget, h1⟩ := bind_eq_ok.1 h1
    cases hget
    obtain ⟨o, c₂, ho, h1⟩ := bind_eq_ok.1 h1
    cases o with
    | some a =>
      obtain ⟨as', _, _, h1⟩ := bind_eq_ok.1 h1
      obtain ⟨rfl, -⟩ := pure_eq_ok.1 h1
      simp
    | none =>
      obtain ⟨b, _, hb, ho⟩ := bind_eq_ok.1 ho
      rw [atToken_eq, hc.token, hview] at hb
      cases hb
      obtain ⟨_, _, _, ho⟩ := bind_eq_ok.1 ho
      obtain ⟨_, _, _, ho⟩ := bind_eq_ok.1 ho
      cases ho

theorem length_manyUpTo {α : Type} {step : Parser (Option α)} {n : Nat} {c c' : Cursor}
    {as : List α} (h : manyUpTo step n c = .ok as c') : as.length ≤ n := by
  induction n generalizing c c' as with
  | zero =>
    obtain ⟨rfl, -⟩ := pure_eq_ok.1 h
    exact le_rfl
  | succ n ih =>
    obtain ⟨o, c₁, -, h⟩ := bind_eq_ok.1 h
    cases o with
    | none =>
      obtain ⟨rfl, -⟩ := pure_eq_ok.1 h
      exact Nat.zero_le _
    | some a =>
      obtain ⟨as', c₂, h1, h2⟩ := bind_eq_ok.1 h
      obtain ⟨rfl, -⟩ := pure_eq_ok.1 h2
      exact Nat.succ_le_succ (ih h1)

theorem yields_closeParens (depth : Nat) :
    Yields (closeParens depth) (fun n => -n) fun n => n ≤ depth := by
  have hparen : Yields (pure ()) (fun _ => 0) (fun _ : Unit => True) := Yields.pure rfl trivial
  have hmany := (hparen.after (t := .closeParen) (by decide)).manyUpTo depth
  intro E T ps c n c' hc h
  obtain ⟨as, c₁, h1, h2⟩ := bind_eq_ok.1 h
  obtain ⟨rfl, rfl⟩ := pure_eq_ok.1 h2
  obtain ⟨us, ds, rfl, hc', hm, -⟩ := hmany hc h1
  refine ⟨us, ds, rfl, hc', ?_, length_manyUpTo h1⟩
  rw [hm]
  simp [Token.paren]

theorem yields_connective : Yields connective? (fun _ => 0) fun o => o ≠ some .not := by
  refine (yields_eatKeyword "AND").seq fun b _ => Yields.ite (fun _ => ?_) fun _ => ?_
  · exact Yields.pure rfl (by simp)
  · refine (yields_eatKeyword "OR").seq fun b _ => Yields.ite (fun _ => ?_) fun _ => ?_
    · exact Yields.pure rfl (by simp)
    · exact Yields.pure rfl (by simp)

theorem yields_closing (depth : Nat) : Yields (closing depth) (fun r => -r.1)
    fun r => r.1 ≤ depth ∧ r.2 ≠ some .not := by
  refine (yields_closeParens depth).bind fun n hn => ?_
  exact yields_connective.map (fun _ _ => by simp) fun _ ho => ⟨hn, ho⟩

/-! ## Links -/

/-- What is taken in front of a condition: the parentheses that it counts, or a negation before a
    parenthesis. -/
def FrontTaken (us : List Piece) (r : Option (Nat × Bool)) (ds : List Piece) : Prop :=
  excess us = r.elim 0 (fun x => (x.1 : Int)) ∧
    (r = none → inView ds = .openParen ∧ inView (us ++ ds) ≠ .openParen) ∧
    ∀ x ∈ r, inView (us ++ ds) = .openParen → 1 ≤ x.1

theorem excess_groupFront : Reads groupFront fun us r ds => FrontTaken us r ds ∧ r ≠ none := by
  refine (excess_openParens.bind fun opens => Reads.pure (some (opens, false))).mono ?_
  rintro us r ds ⟨os, opens, _, rfl, ⟨h1, h2⟩, rfl, rfl⟩
  rw [List.append_nil]
  refine ⟨⟨h1, by simp, ?_⟩, by simp⟩
  rintro _ ⟨⟩
  exact h2

theorem excess_front : Reads front FrontTaken := by
  refine (excess_openParens.bind fun opens => Reads.current.bind fun _ =>
    (yields_eatKeyword "NOT").reads.bind fun negated => (reads_atToken .openParen).bind
      (R := fun b us r _ => us = [] ∧ ((b = true ∧ opens = 0 ∧ r = none) ∨
        r = some (opens, negated))) ?_).mono ?_
  · intro b
    refine Reads.ite (fun hb => Reads.ite (fun h0 => ?_) fun _ => Reads.throw _) fun hb => ?_
    · rw [Bool.and_eq_true] at hb
      exact (Reads.pure _).mono fun us r ds h => ⟨h.1, Or.inl ⟨hb.2, h0, h.2⟩⟩
    · exact (Reads.pure _).mono fun us r ds h => ⟨h.1, Or.inr h.2⟩
  · rintro us r ds ⟨os, opens, _, rfl, ⟨h1, h2⟩, _, _, _, rfl, ⟨rfl, -⟩, ns, negated, _, rfl,
      ⟨hn, -⟩, _, b, _, rfl, ⟨rfl, hb⟩, rfl, ⟨rfl, rfl, rfl⟩ | rfl⟩
    · simp only [List.nil_append, List.append_nil] at hb h2 ⊢
      refine ⟨by rw [excess_append, h1, hn]; rfl, fun _ => ⟨by simpa using hb.symm, ?_⟩, by simp⟩
      intro hview
      rw [List.append_assoc] at hview
      exact absurd (h2 hview) (by decide)
    · simp only [List.nil_append, List.append_nil] at h2 ⊢
      refine ⟨by rw [excess_append, h1, hn]; simp, by simp, ?_⟩
      rintro _ ⟨⟩ hview
      rw [List.append_assoc] at hview
      exact h2 hview

section Chains

variable {κ : Type} [Parenthesized κ] {front : Parser (Option (Nat × Bool))} {bare : Parser κ}
  {surround : κ → Nat → Bool → Nat → κ} {m : κ → Int} {P : κ → Prop}

/-- Conditions keep what is known of them when parentheses are put around them. -/
structure Keeps (surround : κ → Nat → Bool → Nat → κ) (m : κ → Int) (P : κ → Prop) : Prop where
  opens : ∀ c o n k, opens (surround c o n k) = o
  closes : ∀ c o n k, closes (surround c o n k) = k
  excess : ∀ c o n k, m (surround c o n k) = m c
  holds : ∀ c o n k, P c → P (surround c o n k)

/-- A link that is read inside of `depth` open parentheses. -/
def LinkTaken (m : κ → Int) (P : κ → Prop) (depth : Nat) (us : List Piece) (r : Link κ × Nat)
    (ds : List Piece) : Prop :=
  (r = (⟨none, some .not⟩, depth) ∧ excess us = 0 ∧ inView ds = .openParen ∧
      inView (us ++ ds) ≠ .openParen) ∨
    ∃ c o, r = (⟨some c, o⟩, depth + opens c - closes c) ∧ P c ∧ o ≠ some .not ∧
      closes c ≤ depth + opens c ∧ excess us = opens c - closes c + m c ∧
      (inView (us ++ ds) = .openParen → 1 ≤ opens c)

theorem excess_linkOf (hfront : Reads front FrontTaken) (hbare : Yields bare m P)
    (hk : Keeps surround m P) (depth : Nat) :
    Reads (linkOf front bare surround depth) (LinkTaken m P depth) := by
  refine (hfront.bind (R := fun r us x _ => (r = none ∧ us = [] ∧
    x = (⟨none, some .not⟩, depth)) ∨ ∃ opens negated c closes o, r = some (opens, negated) ∧
      x = (⟨some (surround c opens negated closes), o⟩, depth + opens - closes) ∧ P c ∧
      o ≠ some .not ∧ closes ≤ depth + opens ∧ excess us = m c - closes) ?_).mono ?_
  · rintro (_ | ⟨opens, negated⟩)
    · exact (Reads.pure _).mono fun us x ds h => Or.inl ⟨rfl, h⟩
    · refine (hbare.reads.bind fun c => (yields_closing (depth + opens)).reads.bind fun r =>
        Reads.pure ((⟨some (surround c opens negated r.1), r.2⟩ : Link κ),
          depth + opens - r.1)).mono ?_
      rintro us x ds ⟨ws, c, _, rfl, ⟨hm, hP⟩, zs, ⟨closes, o⟩, _, rfl, ⟨hz, hle, ho⟩, rfl, rfl⟩
      refine Or.inr ⟨opens, negated, c, closes, o, rfl, rfl, hP, ho, hle, ?_⟩
      rw [List.append_nil, excess_append, hm, hz, sub_eq_add_neg]
  · rintro us x ds ⟨us, r, ws, rfl, ⟨h1, h2, h3⟩, ⟨rfl, rfl, rfl⟩ | ⟨opens, negated, c, closes, o,
      rfl, rfl, hP, ho, hle, hws⟩⟩
    · rw [List.append_nil]
      exact Or.inl ⟨rfl, h1, h2 rfl⟩
    · refine Or.inr ⟨surround c opens negated closes, o, ?_, hk.holds _ _ _ _ hP, ho, ?_, ?_, ?_⟩
      · rw [hk.opens, hk.closes]
      · rwa [hk.opens, hk.closes]
      · rw [hk.opens, hk.closes, hk.excess, excess_append, h1, hws]
        simp only [Option.elim_some]
        omega
      · rw [hk.opens, List.append_assoc]
        exact h3 _ rfl

/-- Links that are read inside of `depth` open parentheses. -/
def ChainTaken (m : κ → Int) (P : κ → Prop) (depth : Nat) (us : List Piece) (chain : Chain κ)
    (ds : List Piece) : Prop :=
  (∃ after, LinksFrom depth chain.links after) ∧ (∀ c ∈ chain.conditions, P c) ∧
    excess us = chain.excess + (chain.conditions.map m).sum ∧
    (inView (us ++ ds) = .openParen → ∃ c, chain.head.condition = some c ∧ 1 ≤ opens c)

namespace ChainTaken

variable {depth : Nat} {us ws ds : List Piece} {c : κ}

/-- The last condition. -/
theorem last (hP : P c) (hle : closes c ≤ depth + opens c)
    (hex : excess us = opens c - closes c + m c)
    (hview : inView (us ++ ds) = .openParen → 1 ≤ opens c) :
    ChainTaken m P depth us ⟨⟨some c, none⟩, []⟩ ds := by
  refine ⟨⟨_, .last c hle⟩, ?_, ?_, fun hv => ⟨c, rfl, hview hv⟩⟩
  · simpa [Chain.conditions, Chain.links, Link.conditions_cons, Link.conditions] using hP
  · rw [hex]
    simp [Chain.excess, Chain.conditions, Chain.links, Link.conditions]

/-- A condition that is joined to others. -/
theorem cons {op : Connective} {rest : Chain κ} (hP : P c) (hop : op ≠ .not)
    (hle : closes c ≤ depth + opens c) (hex : excess us = opens c - closes c + m c)
    (hview : inView (us ++ (ws ++ ds)) = .openParen → 1 ≤ opens c)
    (hrest : ChainTaken m P (depth + opens c - closes c) ws rest ds) :
    ChainTaken m P depth (us ++ ws) ⟨⟨some c, some op⟩, rest.links⟩ ds := by
  obtain ⟨⟨after, hlinks⟩, hall, hws, -⟩ := hrest
  rw [Chain.conditions] at hall
  refine ⟨⟨after, .cons hop hle hlinks⟩, ?_, ?_, fun hv => ⟨c, rfl, hview ?_⟩⟩
  · rw [Chain.conditions, Chain.links, Link.conditions_cons]
    exact List.forall_mem_append.2 ⟨by simpa using hP, hall⟩
  · rw [excess_append, hex, hws]
    simp only [Chain.excess, Chain.conditions, Chain.links, Link.opened_cons,
      Link.closed_cons, Link.conditions_cons ⟨some c, some op⟩, Option.toList_some,
      List.singleton_append, List.map_cons, List.sum_cons]
    omega
  · rwa [List.append_assoc] at hv

/-- A negation: what follows starts with a parenthesis, so the next link has a condition. -/
theorem group {rest : Chain κ} (hex : excess us = 0) (hws : inView (ws ++ ds) = .openParen)
    (hview : inView (us ++ (ws ++ ds)) ≠ .openParen) (hrest : ChainTaken m P depth ws rest ds) :
    ChainTaken m P depth (us ++ ws) ⟨⟨none, some .not⟩, rest.links⟩ ds := by
  obtain ⟨⟨_ | d, o⟩, ys⟩ := rest
  · obtain ⟨c, hc, -⟩ := hrest.2.2.2 hws
    cases hc
  · obtain ⟨⟨after, hlinks⟩, hall, hexcess, hopens⟩ := hrest
    obtain ⟨_, hd, hopens⟩ := hopens hws
    cases hd
    refine ⟨⟨after, .group hopens hlinks⟩, ?_, ?_, fun hv => ?_⟩
    · simpa [Chain.conditions, Chain.links, Link.conditions_cons] using hall
    · rw [excess_append, hex, hexcess]
      simp [Chain.excess, Chain.conditions, Chain.links, Link.conditions_cons]
    · rw [List.append_assoc] at hv
      exact absurd hv hview

end ChainTaken

theorem excess_chainUpTo {link : Nat → Parser (Link κ × Nat)}
    (h : ∀ depth, Reads (link depth) (LinkTaken m P depth)) (n depth : Nat) :
    Reads (chainUpTo link n depth) (ChainTaken m P depth) := by
  induction n generalizing depth with
  | zero => exact Reads.fail _
  | succ n ih =>
    refine (Reads.chainUpTo h ih depth).mono ?_
    rintro us _ ds (⟨x, after, hc, rfl, hx | ⟨c, o, hx, hP, ho, hle, hex, hview⟩⟩ |
      ⟨x, mid, op, us, ws, rest, hc, rfl, rfl,
        ⟨hx, h1, h2, h3⟩ | ⟨c, o, hx, hP, ho, hle, hex, hview⟩, hrest⟩)
    · cases hx.1
      cases hc
    · cases hx
      obtain rfl : o = none := hc
      exact .last hP hle hex hview
    · cases hx
      exact .group h1 h2 h3 hrest
    · cases hx
      obtain rfl : o = some op := hc
      refine .cons hP ?_ hle hex hview hrest
      rintro rfl
      exact ho rfl

end Chains

theorem chainUpTo_links {κ : Type} {link : Nat → Parser (Link κ × Nat)} {R : Link κ → Prop}
    (h : ∀ depth c r c', link depth c = .ok r c' → R r.1) {n depth : Nat} {c c' : Cursor}
    {chain : Chain κ} (hc : chainUpTo link n depth c = .ok chain c') : ∀ x ∈ chain.links, R x := by
  induction n generalizing depth c c' chain with
  | zero => exact absurd hc fail_ne_ok
  | succ n ih =>
    obtain ⟨⟨x, mid⟩, c₁, h1, h2⟩ := bind_eq_ok.1 hc
    have hx : R x := h _ _ _ _ h1
    cases hconn : x.connective with
    | none =>
      simp only [hconn] at h2
      obtain ⟨rfl, -⟩ := pure_eq_ok.1 h2
      simpa [Chain.links] using hx
    | some op =>
      simp only [hconn] at h2
      obtain ⟨rest, c₂, h3, h4⟩ := bind_eq_ok.1 h2
      obtain ⟨rfl, -⟩ := pure_eq_ok.1 h4
      exact List.forall_mem_cons.2 ⟨hx, ih h3⟩

end Parser

end Soql
