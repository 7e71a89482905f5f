/-
  The shape of the queries that are read.

  * `Condition.Formed`, `Grouping.Formed`, `Query.Formed`: what holds of every
    query that is read, at any depth.
  * `yieldsQuery_selectUpTo`: queries have this shape, and the parentheses of their
    filters are those that are taken.
  * `parse_formed`: so does the query of a text.
  * `parse_balanced_iff`: its filters are balanced if the text is.
-/
import Mathlib
import Soql.Proofs.Parse.Parens
import Soql.Proofs.Parse.Select

namespace Soql

open Unicode Token Soql.Parser Parenthesized

/-! ## Shapes -/

/-- Exactly one of two components is there. -/
def ExactlyOne {α β : Type} (a : Option α) (b : Option β) : Prop := a.isSome = !b.isSome

/-- The text is read as a value of that kind somewhere. -/
def IsValue (t : Text) (k : LiteralKind) : Prop := ∃ c c', Parser.value c = .ok (t, k) c'

/-- Not all of the kinds are the same. -/
def Mixed (ks : List LiteralKind) : Prop := ∃ j ∈ ks, ∃ k ∈ ks, j ≠ k

/-- What a condition of `WHERE` compares with: a value of known kinds, or a query. -/
structure ComparandFormed (value : Option FilterValue) (kinds : Option LiteralKinds)
    (query : Option Query) : Prop where
  one : ExactlyOne value query
  kinded : kinds.isSome = value.isSome
  /-- One value has one kind. -/
  single : ∀ t, value = some (.single t) → ∃ k, kinds = some (.uniform k) ∧ IsValue t k
  /-- A list has a kind for each of its values if it is empty or these kinds differ. -/
  list : ∀ ts, value = some (.list ts) → ∃ ks, List.Forall₂ IsValue ts ks ∧
    (ks = [] ∨ Mixed ks → kinds = some (.each ks)) ∧
    (¬ (ks = [] ∨ Mixed ks) → ∃ k, kinds = some (.uniform k) ∧ ∀ j ∈ ks, j = k)

/-- A condition of `WHERE` compares a field or a call with a value or a query. -/
structure Condition.Formed (c : Condition) : Prop where
  subject : ExactlyOne c.field c.call
  comparand : ComparandFormed c.value c.kinds c.query

/-- Rows are grouped by a call or by fields, and a list of fields has two entries at least. -/
structure Grouping.Formed (g : Grouping) : Prop where
  keys : ExactlyOne g.fields g.call
  many : ∀ names, g.fields = some (.many names) → 2 ≤ names.length
  having : ∀ chain ∈ g.having, chain.Formed ∧ (∀ x ∈ chain.links, x.condition.isSome) ∧
    ∀ c ∈ chain.conditions, ExactlyOne c.field c.call

/-- Rows are sorted by fields and calls, and a list of keys has two entries at least. -/
structure SortKeys.Formed (keys : SortKeys) : Prop where
  subjects : ∀ key ∈ keys.toList, ExactlyOne key.field key.call
  many : ∀ ks, keys = SortKeys.many ks → 2 ≤ ks.length

/-- A query as the grammar has it; `isField` tells whether it stands in a field list. -/
structure Query.Formed (isField : Bool) (q : Query) : Prop where
  fields : q.fields ≠ []
  source : q.isSubquery = isField
  filter : ∀ chain ∈ q.filter, chain.Formed ∧ ∀ c ∈ chain.conditions, c.Formed
  grouping : ∀ g ∈ q.grouping, g.Formed
  sorting : ∀ keys ∈ q.sorting, keys.Formed

/-! ## Parentheses of a query -/

/-- How many more parentheses open than close in the filters of a query, those of the queries
    inside of it left out. -/
def Query.ownExcess (q : Query) : Int :=
  q.filter.elim 0 Chain.excess + (q.grouping.bind Grouping.having).elim 0 Chain.excess

/-- How many more parentheses open than close in the filters of queries. -/
def innerExcess (qs : List (Bool × Query)) : Int := (qs.map fun x => x.2.ownExcess).sum

@[simp] theorem innerExcess_nil : innerExcess [] = 0 := rfl

@[simp] theorem innerExcess_cons (x : Bool × Query) (qs : List (Bool × Query)) :
    innerExcess (x :: qs) = x.2.ownExcess + innerExcess qs := rfl

@[simp] theorem innerExcess_append (qs rs : List (Bool × Query)) :
    innerExcess (qs ++ rs) = innerExcess qs + innerExcess rs := by
  simp [innerExcess]

theorem innerExcess_flatMap {α : Type} (f : α → List (Bool × Query)) (as : List α) :
    innerExcess (as.flatMap f) = (as.map fun a => innerExcess (f a)).sum := by
  induction as with
  | nil => rfl
  | cons a as ih => simp [ih]

/-- The queries all have their shape. -/
def AllFormed (qs : List (Bool × Query)) : Prop := ∀ x ∈ qs, x.2.Formed x.1

theorem allFormed_nil : AllFormed [] := by simp [AllFormed]

theorem allFormed_append {qs rs : List (Bool × Query)} :
    AllFormed (qs ++ rs) ↔ AllFormed qs ∧ AllFormed rs := by
  simp only [AllFormed, List.mem_append, or_imp, forall_and]

theorem allFormed_flatMap {α : Type} {f : α → List (Bool × Query)} {as : List α} :
    AllFormed (as.flatMap f) ↔ ∀ a ∈ as, AllFormed (f a) := by
  simp only [AllFormed, List.mem_flatMap]
  exact ⟨fun h a ha x hx => h x ⟨a, ha, hx⟩, fun h x ⟨a, ha, hx⟩ => h a ha x hx⟩

namespace Parser

/-! ## Calls -/

theorem yields_callAfterName {arguments : Parser (List Argument)}
    (ha : Yields arguments (fun _ => 0) fun as => ∀ a ∈ as, a.inner = []) (first : Lexeme)
    (name : Text) : Yields (callAfterName arguments first name) (fun _ => 0)
      fun c => c.inner = [] := by
  refine (yields_expect (by decide) _).bind fun _ _ => ?_
  refine ha.bind fun as has => ?_
  refine (yields_expect (by decide) _).map (fun _ _ => by decide) fun last _ => ?_
  change Argument.innerAll as = []
  rw [Argument.innerAll_eq]
  exact List.flatMap_eq_nil_iff.2 has

theorem yields_argument {arguments : Parser (List Argument)}
    (ha : Yields arguments (fun _ => 0) fun as => ∀ a ∈ as, a.inner = []) :
    Yields (argument arguments) (fun _ => 0) fun a => a.inner = [] := by
  refine Yields.current fun l => ?_
  have htext {t : Token} (ht : t ≠ .finish) (hp : t.paren = 0) (u : Text) :
      YieldsAt t (advance >>= fun _ => pure (Argument.text u)) (fun _ => 0)
        fun a => a.inner = [] :=
    YieldsAt.advance ht fun _ => Yields.pure (by simp [hp]) rfl
  cases hl : l.token with
  | word name =>
    refine YieldsAt.advance (by simp) fun first => ?_
    refine Yields.atToken (Yields.at ?_ _) ?_
    · exact (yields_callAfterName ha first name).map (fun _ _ => rfl) fun _ hc => hc
    · exact yields_pathRest.map (fun _ _ => rfl) fun _ _ => rfl
  | string u => exact htext (by simp) rfl _
  | number u => exact htext (by simp) rfl _
  | dateTime u => exact htext (by simp) rfl _
  | _ => exact (Yields.fail _).at _

theorem yields_argumentsUpTo (n : Nat) :
    Yields (argumentsUpTo n) (fun _ => 0) fun as => ∀ a ∈ as, a.inner = [] := by
  induction n with
  | zero => exact Yields.pure rfl (by simp)
  | succ n ih =>
    have hnil : Yields (pure []) (fun _ => 0) fun as : List Argument => ∀ a ∈ as, a.inner = [] :=
      Yields.pure rfl (by simp)
    refine Yields.atToken (hnil.at _) ?_
    refine (yields_argument ih).seq fun a ha => ?_
    have hrest : Yields (argumentsUpTo n >>= fun as => pure (a :: as)) (fun _ => 0)
        fun as => ∀ a ∈ as, a.inner = [] :=
      ih.map (fun _ _ => rfl) fun as has => List.forall_mem_cons.2 ⟨ha, has⟩
    refine Yields.atToken (hrest.at _) ?_
    exact (yields_expect (by decide) _).bind fun _ _ => hrest

/-- There are no queries inside of a call that is read. -/
theorem yields_call (first : Lexeme) (name : Text) :
    Yields (call first name) (fun _ => 0) fun c => c.inner = [] :=
  Yields.get fun _ => yields_callAfterName (yields_argumentsUpTo _) first name

theorem yields_subject : Yields subject (fun _ => 0) fun s => ExactlyOne s.field? s.call? := by
  refine Yields.current fun first => Yields.at ?_ _
  refine (yields_identifier _).seq fun name _ => Yields.atToken (Yields.at ?_ _) ?_
  · exact (yields_call first name).map (fun _ _ => rfl) fun _ _ => rfl
  · exact yields_pathRest.map (fun _ _ => rfl) fun _ _ => rfl

/-! ## Values -/

theorem excess_value : Yields value (fun _ => 0) Any := by
  refine Yields.current fun first => ?_
  cases hl : first.token with
  | string t => exact YieldsAt.take (by simp) fun _ => Yields.pure rfl trivial
  | number t => exact YieldsAt.take (by simp) fun _ => Yields.pure rfl trivial
  | dateTime t =>
    refine YieldsAt.take (by simp) fun _ => ?_
    cases LiteralKind.ofDate? t with
    | some k => exact Yields.pure rfl trivial
    | none => exact Yields.throw _
  | colon =>
    exact YieldsAt.take (by simp) fun _ =>
      (yields_identifier _).map (fun _ _ => rfl) fun _ _ => trivial
  | word w =>
    refine YieldsAt.take (by simp) fun _ => ?_
    refine Yields.ifToken (by simp) (Yields.current fun l => ?_) ?_
    · cases l.token with
      | number n => exact YieldsAt.take (by simp) fun _ => Yields.pure rfl trivial
      | _ => exact (Yields.fail _).at _
    · cases LiteralKind.ofWord? w with
      | some k => exact Yields.pure rfl trivial
      | none => exact Yields.throw _
  | _ => exact (Yields.fail _).at _

theorem yields_value : Yields value (fun _ => 0) fun v => IsValue v.1 v.2 := by
  intro E T ps c a c' hc h
  obtain ⟨us, ds, hs, hc', hm, -⟩ := excess_value hc h
  exact ⟨us, ds, hs, hc', hm, c, c', h⟩

theorem yields_valueList :
    Yields valueList (fun _ => -1) fun vs => ∀ v ∈ vs, IsValue v.1 v.2 := by
  refine (yields_value.untilClose _).seq fun vs hvs => ?_
  exact (yields_expect (by decide) _).map (fun _ _ => by decide) fun _ _ => hvs

/-! ## Conditions -/

theorem yields_comparison : Yields comparison (fun _ => 0) Any := by
  refine (yields_eatKeyword "NOT").seq fun b _ => Yields.ite (fun _ => ?_) fun _ => ?_
  · exact (yields_expectKeyword "IN").map (fun _ _ => rfl) fun _ _ => trivial
  · refine Yields.current fun l => ?_
    cases hl : comparisonOf? l.token with
    | none => exact (Yields.fail _).at _
    | some k =>
      have hne : l.token ≠ .finish := by
        intro h
        rw [h] at hl
        cases hl
      have hp : l.token.paren = 0 := by
        cases ht : l.token <;> simp_all [comparisonOf?, Token.paren]
      exact YieldsAt.advance hne fun _ => Yields.pure (by simp [hp]) trivial

/-- A parser of queries that have their shape and are in a field list or not. -/
def YieldsQuery (isField : Bool) (nested : Parser Query) : Prop :=
  Yields nested (fun q => innerExcess ((isField, q) :: q.inner))
    fun q => AllFormed ((isField, q) :: q.inner)

theorem kinds_ofList (ks : List LiteralKind) :
    (ks = [] ∨ Mixed ks → LiteralKinds.ofList ks = .each ks) ∧
      (¬ (ks = [] ∨ Mixed ks) → ∃ k, LiteralKinds.ofList ks = .uniform k ∧ ∀ j ∈ ks, j = k) := by
  cases ks with
  | nil => simp [LiteralKinds.ofList]
  | cons k ks =>
    by_cases hall : ks.all (· == k) = true
    · have hk : ∀ j ∈ k :: ks, j = k := by simpa using hall
      refine ⟨?_, fun _ => ⟨k, by simp only [LiteralKinds.ofList, hall, if_true], hk⟩⟩
      rintro (h | ⟨i, hi, j, hj, hne⟩)
      · cases h
      · exact absurd ((hk i hi).trans (hk j hj).symm) hne
    · refine ⟨fun _ => by simp only [LiteralKinds.ofList, hall, if_false, Bool.false_eq_true],
        fun h => absurd (Or.inr ?_) h⟩
      obtain ⟨j, hj, hne⟩ : ∃ j ∈ ks, j ≠ k := by simpa using hall
      exact ⟨j, List.mem_cons_of_mem k hj, k, List.mem_cons_self, hne⟩

theorem comparandFormed_list {vs : List (Text × LiteralKind)} (h : ∀ v ∈ vs, IsValue v.1 v.2) :
    ComparandFormed (listComparand vs).1 (listComparand vs).2.1 (listComparand vs).2.2 where
  one := rfl
  kinded := rfl
  single t ht := by cases ht
  list ts hts := by
    cases hts
    refine ⟨vs.map Prod.snd, ?_, ?_, ?_⟩
    · exact List.forall₂_map_left_iff.2 (List.forall₂_map_right_iff.2
        (List.forall₂_same.2 h))
    · intro hks
      exact congrArg some ((kinds_ofList _).1 hks)
    · intro hks
      obtain ⟨k, hk, hall⟩ := (kinds_ofList _).2 hks
      exact ⟨k, congrArg some hk, hall⟩

theorem comparandFormed_single {v : Text × LiteralKind} (h : IsValue v.1 v.2) :
    ComparandFormed (singleComparand v).1 (singleComparand v).2.1 (singleComparand v).2.2 where
  one := rfl
  kinded := rfl
  single t ht := by
    cases ht
    exact ⟨v.2, rfl, h⟩
  list ts hts := by cases hts

theorem comparandFormed_query (q : Query) : ComparandFormed none none (some q) where
  one := rfl
  kinded := rfl
  single t ht := by cases ht
  list ts hts := by cases hts

theorem yields_comparand {nested : Parser Query} (hn : YieldsQuery false nested) :
    Yields (comparand nested) (fun r => innerExcess (Query.innerOption r.2.2))
      fun r => ComparandFormed r.1 r.2.1 r.2.2 ∧ AllFormed (Query.innerOption r.2.2) := by
  refine Yields.ifToken (by decide) ?_ ?_
  · refine (yields_atKeyword "SELECT").seq fun b _ => Yields.ite (fun _ => ?_) fun _ => ?_
    · refine Yields.bind hn fun q hq => ?_
      refine (yields_expect (by decide) _).map (fun _ _ => ?_) fun _ _ =>
        ⟨comparandFormed_query q, hq⟩
      simp [Query.innerOption, Token.paren]
    · exact yields_valueList.map (fun _ _ => rfl) fun vs hvs =>
        ⟨comparandFormed_list hvs, allFormed_nil⟩
  · exact yields_value.map (fun _ _ => rfl) fun v hv => ⟨comparandFormed_single hv, allFormed_nil⟩

theorem yields_comparing {ρ : Type} {right : Parser ρ} {m : ρ → Int} {P : ρ → Prop}
    (h : Yields right m P) : Yields (comparing right) (fun r => m r.2.2)
      fun r => ExactlyOne r.1.field? r.1.call? ∧ P r.2.2 :=
  yields_subject.seq fun _ hs => yields_comparison.seq fun _ _ =>
    h.map (fun _ _ => rfl) fun _ hr => ⟨hs, hr⟩

theorem yields_condition {nested : Parser Query} (hn : YieldsQuery false nested) :
    Yields (condition nested) (fun c => innerExcess c.inner)
      fun c => c.Formed ∧ AllFormed c.inner := by
  rw [condition_eq]
  exact (yields_comparing (yields_comparand hn)).map (fun _ _ => rfl)
    fun _ h => ⟨⟨h.1, h.2.1⟩, h.2.2⟩

theorem inner_surround (c : Condition) (opens : Nat) (negated : Bool) (closes : Nat) :
    (c.surround opens negated closes).inner = c.inner := by
  cases c
  rfl

theorem keeps_surround : Keeps Condition.surround (fun c => innerExcess c.inner)
    fun c => c.Formed ∧ AllFormed c.inner where
  opens _ _ _ _ := rfl
  closes _ _ _ _ := rfl
  excess _ _ _ _ := by rw [inner_surround]
  holds _ _ _ _ h := ⟨⟨h.1.subject, h.1.comparand⟩, by rw [inner_surround]; exact h.2⟩

theorem yields_filter {nested : Parser Query} (hn : YieldsQuery false nested) :
    Yields (filter nested)
      (fun chain => chain.excess + innerExcess (chain.conditions.flatMap Condition.inner))
      fun chain => chain.Formed ∧ ∀ c ∈ chain.conditions, c.Formed ∧ AllFormed c.inner := by
  refine Yields.get fun c => ?_
  rw [filterUpTo_eq]
  refine (excess_chainUpTo (excess_linkOf excess_front (yields_condition hn) keeps_surround) _
    0).mono ?_
  rintro us chain ds ⟨⟨after, hlinks⟩, hall, hex, -⟩
  refine ⟨?_, hlinks.formed, hall⟩
  simpa only [innerExcess_flatMap] using hex

/-! ## `HAVING` -/

theorem yields_literalText : Yields literalText (fun _ => 0) Any :=
  yields_value.map (fun _ _ => rfl) fun _ _ => trivial

theorem yields_groupValue : Yields groupValue (fun _ => 0) Any := by
  refine Yields.ifToken (by decide) ?_ yields_literalText
  refine (yields_literalText.untilClose _).seq fun _ _ => ?_
  exact (yields_expect (by decide) _).map (fun _ _ => by decide) fun _ _ => trivial

theorem yields_groupCondition : Yields groupCondition (fun _ => 0)
    fun c => ExactlyOne c.field c.call :=
  (yields_comparing yields_groupValue).map (fun _ _ => rfl) fun _ h => h.1

theorem keeps_groupSurround : Keeps GroupCondition.surround (fun _ => 0)
    fun c => ExactlyOne c.field c.call where
  opens _ _ _ _ := rfl
  closes _ _ _ _ := rfl
  excess _ _ _ _ := rfl
  holds _ _ _ _ h := h

theorem isSome_of_groupLink {depth : Nat} {c c' : Cursor} {r : Link GroupCondition × Nat}
    (h : linkOf groupFront groupCondition GroupCondition.surround depth c = .ok r c') :
    r.1.condition.isSome := by
  obtain ⟨o, c₁, h1, h2⟩ := bind_eq_ok.1 h
  obtain ⟨opens, _, -, h1⟩ := bind_eq_ok.1 h1
  obtain ⟨rfl, -⟩ := pure_eq_ok.1 h1
  obtain ⟨d, _, -, h2⟩ := bind_eq_ok.1 h2
  obtain ⟨x, _, -, h2⟩ := bind_eq_ok.1 h2
  obtain ⟨rfl, -⟩ := pure_eq_ok.1 h2
  rfl

theorem yields_groupFilter : Yields groupFilter Chain.excess fun chain => chain.Formed ∧
    (∀ x ∈ chain.links, x.condition.isSome) ∧
    ∀ c ∈ chain.conditions, ExactlyOne c.field c.call := by
  refine Yields.get fun c => ?_
  rw [groupFilterUpTo_eq]
  intro E T ps c chain c' hc h
  have hfront := excess_groupFront.mono fun _ _ _ h => h.1
  obtain ⟨us, ds, hs, hc', ⟨after, hlinks⟩, hall, hex, -⟩ :=
    excess_chainUpTo (excess_linkOf hfront yields_groupCondition keeps_groupSurround) _ 0 hc h
  refine ⟨us, ds, hs, hc', by simpa using hex, hlinks.formed, ?_, hall⟩
  exact chainUpTo_links (fun _ _ _ _ => isSome_of_groupLink) h

/-! ## Grouping and sorting -/

theorem Yields.both {α β : Type} {f : Parser α} {g : Parser β} {m : α → Int} {k : β → Int}
    {P : α → Prop} {Q : β → Prop} (hf : Yields f m P) (hg : Yields g k Q) :
    Yields (both f g) (fun r => m r.1 + k r.2) fun r => P r.1 ∧ Q r.2 :=
  hf.bind fun a ha => hg.map (fun b _ => by simp) fun _ hb => ⟨ha, hb⟩

theorem formed_groupingOf {position : Nat} {first : Subject} {others : List Subject} {g : Grouping}
    (h : groupingOf position first others = .ok g) : g.Formed ∧ g.having = none := by
  rcases groupingOf_eq_ok h with ⟨c, rfl, rfl, rfl⟩ | ⟨n, ns, rfl, rfl, rfl⟩
  · exact ⟨⟨rfl, by simp, by simp⟩, rfl⟩
  · refine ⟨⟨rfl, fun names hnames => ?_, by simp⟩, rfl⟩
    rcases ns with _ | ⟨m, ns⟩
    · cases hnames
    · cases hnames
      simp

theorem yields_grouping : Yields grouping (fun _ => 0) fun g => g.Formed ∧ g.having = none := by
  refine Yields.current fun start => Yields.at ?_ _
  refine yields_subject.commaSeparated.bind fun ⟨first, others⟩ _ => ?_
  dsimp only
  cases h : groupingOf start.start first others with
  | error e => exact Yields.throw e
  | ok g => exact Yields.pure (by simp) (formed_groupingOf h)

/-- The parentheses of a grouping are those of its conditions. -/
theorem yields_groupingClause :
    Yields groupingClause (fun g => (g.bind Grouping.having).elim 0 Chain.excess)
      fun g => ∀ g' ∈ g, g'.Formed := by
  have hkeys : Yields grouping? (fun o => o.elim 0 fun _ => 0)
      fun o => ∀ g ∈ o, g.Formed ∧ g.having = none :=
    Yields.afterKeyword ((yields_expectKeyword "BY").seq fun _ _ => yields_grouping)
  have hpair := hkeys.both (yields_groupFilter.afterKeyword (w := "HAVING"))
  intro E T ps c r c' hc h
  obtain ⟨g, having, hp, hor, rfl⟩ := groupingClause_eq_ok.1 h
  obtain ⟨us, ds, hs, hc', hm, hg, hh⟩ := hpair hc hp
  refine ⟨us, ds, hs, hc', ?_⟩
  dsimp only at hm hg hh
  cases g with
  | none =>
    obtain rfl := hor rfl
    exact ⟨by simpa [withHaving] using hm, by simp [withHaving]⟩
  | some g =>
    obtain ⟨hformed, hnone⟩ := hg g rfl
    cases having with
    | none => exact ⟨by simpa [withHaving, hnone] using hm, by simpa [withHaving] using hformed⟩
    | some having =>
      refine ⟨by simpa [withHaving] using hm, ?_⟩
      rintro _ ⟨⟩
      refine ⟨hformed.keys, hformed.many, ?_⟩
      rintro _ ⟨⟩
      exact hh having rfl

theorem yields_order : Yields order? (fun _ => 0) Any :=
  Yields.keywordInView (Yields.pure rfl trivial) fun _ _ =>
    YieldsAt.advance (by simp) fun _ => Yields.pure rfl trivial

theorem yields_sortKey : Yields sortKey (fun _ => 0) fun k => ExactlyOne k.field k.call := by
  refine yields_subject.seq fun s hs => yields_order.seq fun _ _ => ?_
  have hnulls :
      Yields (afterKeyword "NULLS" (expectKeywordOf .nullsPlace : Parser NullsPlace)) _ _ :=
    (yields_expectKeywordOf .nullsPlace).afterKeyword
  exact hnulls.map (fun o _ => by cases o <;> rfl) fun _ _ => hs

theorem yields_sorting : Yields sorting (fun _ => 0) SortKeys.Formed := by
  rw [sorting_eq]
  refine yields_sortKey.commaSeparated.map (fun r _ => by simp) fun r hr => ?_
  refine ⟨?_, fun ks hks => ?_⟩
  · rw [toList_sortKeysOf]
    exact List.forall_mem_cons.2 hr
  · obtain ⟨key, _ | ⟨key', keys⟩⟩ := r
    · cases hks
    · cases hks
      simp

/-! ## Clauses without parentheses of their own -/

theorem yields_rowCount (w : Text) : Yields (rowCount w) (fun _ => 0) Any := by
  refine Yields.current fun l => ?_
  cases l.token with
  | number t =>
    dsimp only
    cases t.number? with
    | none => exact (Yields.throw _).at _
    | some n =>
      dsimp only
      split
      · exact YieldsAt.advance (by simp) fun _ => Yields.pure rfl trivial
      · exact (Yields.throw _).at _
  | _ => exact (Yields.fail _).at _

theorem yields_categoryCondition : Yields categoryCondition (fun _ => 0) Any := by
  have hnames : Yields categories (fun _ => 0) Any := by
    refine Yields.ifToken (by decide) ?_ ?_
    · refine (yields_identifier _).commaSeparated.bind fun r _ => ?_
      exact (yields_expect (by decide) _).map (fun _ _ => by simp [Token.paren]) fun _ _ => trivial
    · exact (yields_identifier _).map (fun _ _ => rfl) fun _ _ => trivial
  exact (yields_identifier _).seq fun _ _ => (yields_expectKeywordOf _).seq fun _ _ =>
    hnames.map (fun _ _ => rfl) fun _ _ => trivial

theorem yields_withClause : Yields withClause (fun _ => 0) Any := by
  refine (yields_eatKeyword _).seq fun b _ => Yields.ite (fun _ => Yields.pure rfl trivial) ?_
  intro _
  refine (yields_eatKeyword _).seq fun b _ => Yields.ite (fun _ => ?_) fun _ => Yields.fail _
  refine (yields_expectKeyword _).seq fun _ _ => yields_categoryCondition.seq fun _ _ => ?_
  exact (yields_categoryCondition.afterKeyword (w := "AND")).many.map (fun _ _ => by simp)
    fun _ _ => trivial

theorem yields_withClauses : Yields withClauses (fun _ => 0) Any :=
  (yields_withClause.afterKeyword (w := "WITH")).many.mono (fun _ _ => by simp) fun _ _ => trivial

theorem yields_typeOf : Yields typeOf (fun _ => 0) Any := by
  have hfields : Yields branchFields (fun _ => 0) Any :=
    yields_dottedPath.commaSeparated.map (fun _ _ => by simp) fun _ _ => trivial
  have hwhen : Yields whenBranch (fun _ => 0) Any :=
    (yields_identifier _).seq fun _ _ => (yields_expectKeyword _).seq fun _ _ =>
      hfields.map (fun _ _ => rfl) fun _ _ => trivial
  have helse : Yields elseBranch (fun _ => 0) Any :=
    hfields.map (fun _ _ => rfl) fun _ _ => trivial
  refine yields_dottedPath.seq fun _ _ => ?_
  refine (hwhen.afterKeyword (w := "WHEN")).many.bind fun _ _ => ?_
  refine (helse.afterKeyword (w := "ELSE")).bind fun o _ => ?_
  refine (yields_expectKeyword _).map (fun _ _ => ?_) fun _ _ => trivial
  cases o <;> simp

/-! ## Queries -/

theorem yields_field {nested : Parser Query} (hn : YieldsQuery true nested) :
    Yields (field nested) (fun f => innerExcess f.inner) fun f => AllFormed f.inner := by
  refine Yields.ifToken (by decide) ?_ ?_
  · refine Yields.bind hn fun q hq => ?_
    refine (yields_expect (by decide) _).map (fun _ _ => ?_) fun _ _ => hq
    simp [Field.inner, Token.paren]
  · refine (yields_eatKeyword _).seq fun b _ => Yields.ite (fun _ => ?_) fun _ => ?_
    · exact yields_typeOf.map (fun _ _ => rfl) fun _ _ => allFormed_nil
    · refine Yields.current fun first => Yields.at ?_ _
      refine (yields_identifier _).seq fun name _ => Yields.atToken (Yields.at ?_ _) ?_
      · refine (yields_call first name).seq fun c hc => ?_
        have hinner (a : Option Text) : (Field.call { c with aliasName := a }).inner = [] := by
          cases c
          exact hc
        exact yields_aliasName.map (fun a _ => by rw [hinner a]; rfl)
          fun a _ => by rw [hinner a]; exact allFormed_nil
      · refine yields_pathRest.seq fun others _ => yields_aliasName.seq fun a _ => ?_
        cases others <;> exact Yields.pure rfl allFormed_nil

theorem yields_fromClause (isNested : Bool) : Yields (fromClause isNested) (fun _ => 0)
    fun r => ∀ q : Query, q.source = r.1 → q.isSubquery = isNested := by
  have hsource : Yields (source isNested) (fun _ => 0)
      fun s => ∀ q : Query, q.source = s → q.isSubquery = isNested := by
    rw [source_eq]
    refine yields_path.map (fun _ _ => rfl) fun r _ q hq => ?_
    cases isNested <;> simp [Query.isSubquery, hq, sourceOf]
  exact (yields_expectKeyword _).seq fun _ _ =>
    (hsource.both yields_aliasName).mono (fun _ _ => rfl) fun _ h => h.1

/-- What is known of the clauses after the source. -/
structure TailFormed (t : Tail) : Prop where
  filter : ∀ chain ∈ t.1, chain.Formed ∧ ∀ c ∈ chain.conditions, c.Formed ∧ AllFormed c.inner
  grouping : ∀ g ∈ t.2.1.1.1, g.Formed
  sorting : ∀ keys ∈ t.2.1.1.2.1, keys.Formed

theorem yields_tail {nested : Parser Query} (hn : YieldsQuery false nested) :
    Yields (tail nested) (fun t => t.1.elim 0 (fun chain => chain.excess +
      innerExcess (chain.conditions.flatMap Condition.inner)) +
        (t.2.1.1.1.bind Grouping.having).elim 0 Chain.excess) TailFormed := by
  have hsort : Yields sorting? (fun _ => 0) fun o => ∀ keys ∈ o, keys.Formed :=
    (Yields.afterKeyword ((yields_expectKeyword "BY").seq fun _ _ => yields_sorting)).mono
      (fun o _ => by cases o <;> rfl) fun _ => id
  have hcount (w : Text) : Yields (afterKeyword w (rowCount w)) (fun _ => 0) Any :=
    (yields_rowCount w).afterKeyword.mono (fun o _ => by cases o <;> rfl) fun _ _ => trivial
  have hword {κ : Type} [Keyword κ] (w : Text) (e : Expectation) :
      Yields (afterKeyword w (expectKeywordOf e : Parser κ)) (fun _ => 0) Any :=
    (yields_expectKeywordOf e).afterKeyword.mono (fun o _ => by cases o <;> rfl) fun _ _ => trivial
  have hmiddle := yields_groupingClause.both
    (hsort.both ((hcount "LIMIT").both (hcount "OFFSET")))
  have hbody : Yields body (fun r => (r.1.1.bind Grouping.having).elim 0 Chain.excess)
      fun r => (∀ g ∈ r.1.1, g.Formed) ∧ ∀ keys ∈ r.1.2.1, keys.Formed := by
    refine yields_withClauses.seq fun _ _ => hmiddle.bind fun x hx => ?_
    exact yields_withClauses.map (fun _ _ => by simp) fun _ _ => ⟨hx.1, hx.2.1⟩
  refine ((yields_filter hn).afterKeyword.both (hbody.both ((hword "FOR" .forTarget).both
    (hword "UPDATE" .updateTarget)))).mono (fun t _ => by simp) fun t ht => ?_
  exact ⟨ht.1, ht.2.1.1, ht.2.1.2⟩

theorem inner_queryOf (fs : List Field) (s : Source × Option Text) (t : Tail) :
    (queryOf fs s t).inner = fs.flatMap Field.inner ++
      (t.1.toList.flatMap Chain.conditions).flatMap Condition.inner := by
  have hfields := flatMap_qualifyAll (g := Field.inner) (fun _ => rfl) (fun _ => rfl) s.2 fs
  rw [Query.inner_eq]
  simp only [queryOf, hfields]

theorem ownExcess_queryOf (fs : List Field) (s : Source × Option Text) (t : Tail) :
    (queryOf fs s t).ownExcess = t.1.elim 0 Chain.excess +
      (t.2.1.1.1.bind Grouping.having).elim 0 Chain.excess := rfl

theorem formed_queryOf {isField : Bool} {f : Field} {fs : List Field} {s : Source × Option Text}
    {t : Tail} (hs : ∀ q : Query, q.source = s.1 → q.isSubquery = isField) (ht : TailFormed t) :
    (queryOf (f :: fs) s t).Formed isField where
  fields := by cases h : s.2 <;> simp [queryOf, qualifyAll, h]
  source := hs _ rfl
  filter chain hc := ⟨(ht.filter chain hc).1, fun c h => ((ht.filter chain hc).2 c h).1⟩
  grouping := ht.grouping
  sorting := ht.sorting

/-- **Queries are read with the parentheses that their filters count, and have their shape.** -/
theorem yieldsQuery_selectUpTo (n : Nat) (isField : Bool) :
    YieldsQuery isField (selectUpTo n isField) := by
  induction n generalizing isField with
  | zero => exact Yields.fail _
  | succ n ih =>
    change YieldsQuery isField (selectWith (selectUpTo n) isField)
    rw [selectWith_eq, YieldsQuery]
    refine (yields_expectKeyword _).seq fun _ _ => ?_
    refine ((yields_field (ih true)).commaSeparated.both ((yields_fromClause isField).both
      (yields_tail (ih false)))).map ?_ ?_
    · rintro ⟨⟨f, fs⟩, s, t⟩ -
      rw [innerExcess_cons, Selection.query, ownExcess_queryOf, inner_queryOf]
      rcases t with ⟨_ | chain, t⟩
      · simp [innerExcess_flatMap]
        omega
      · simp [innerExcess_flatMap]
        omega
    · rintro ⟨⟨f, fs⟩, s, t⟩ ⟨⟨hf, hfs⟩, hs, ht⟩
      refine List.forall_mem_cons.2 ⟨formed_queryOf hs ht, ?_⟩
      rw [Selection.query, inner_queryOf]
      refine allFormed_append.2 ⟨?_, ?_⟩
      · exact allFormed_flatMap.2 (List.forall_mem_cons.2 ⟨hf, hfs⟩)
      · refine allFormed_flatMap.2 fun c hc => ?_
        obtain ⟨chain, hchain, hc⟩ := List.mem_flatMap.1 hc
        exact ((ht.filter chain (Option.mem_toList.1 hchain)).2 c hc).2

end Parser

namespace Query

variable {s : Text} {q : Query}

/-- The shape of the query of a text and of those inside of it, and their parentheses. -/
theorem allFormed_of_parse (h : Query.parse s = .ok q) :
    AllFormed ((false, q) :: q.inner) ∧ s.excess = innerExcess ((false, q) :: q.inner) := by
  obtain ⟨E, us, ds, hlex, hfinish, hex, hall⟩ :=
    exists_reading (fun n => yieldsQuery_selectUpTo n false) h
  refine ⟨hall, ?_⟩
  rw [Text.excess, hlex, excess_placed, excess_append, (blank_of_inView hfinish).excess, add_zero,
    hex]

/-- **The shape of every query that is read**, the one of the text and those inside of it: what it
    must have it has, nothing stands where something else should, and its filters are chains as
    the grammar has them. -/
theorem parse_formed (h : Query.parse s = .ok q) :
    ∀ x ∈ (false, q) :: q.inner, x.2.Formed x.1 :=
  (allFormed_of_parse h).1

/-- A query in the field list, a negated group, a list of mixed kinds and two group keys. -/
theorem parse_formed_nested : ∃ q, Query.parse
    "SELECT (SELECT B FROM C) FROM X WHERE NOT (A IN (1, 'x') OR B = 2) GROUP BY D, E" = .ok q ∧
      ∀ x ∈ (false, q) :: q.inner, x.2.Formed x.1 :=
  exists_parse (by decide_cbv) fun _ => parse_formed

/-! ## Balance -/

/-- As many parentheses close as open in each filter of the query. -/
def FiltersBalanced (q : Query) : Prop :=
  (∀ chain ∈ q.filter, chain.Balanced) ∧ ∀ chain ∈ q.grouping.bind Grouping.having, chain.Balanced

theorem Formed.having {isField : Bool} (h : q.Formed isField) :
    ∀ chain ∈ q.grouping.bind Grouping.having, chain.Formed := by
  intro chain hc
  obtain ⟨g, hg, hc⟩ := Option.bind_eq_some_iff.1 hc
  exact ((h.grouping g hg).having chain hc).1

theorem excess_elim {κ : Type} [Parenthesized κ] {o : Option (Chain κ)}
    (h : ∀ chain ∈ o, chain.Formed) : 0 ≤ o.elim 0 Chain.excess ∧
      (o.elim 0 Chain.excess = 0 ↔ ∀ chain ∈ o, chain.Balanced) := by
  cases o with
  | none => simp
  | some chain => simpa [Chain.balanced_iff] using (h chain rfl).excess_nonneg

theorem Formed.ownExcess {isField : Bool} (h : q.Formed isField) :
    0 ≤ q.ownExcess ∧ (q.ownExcess = 0 ↔ q.FiltersBalanced) := by
  obtain ⟨h1, h2⟩ := excess_elim fun chain hc => (h.filter chain hc).1
  obtain ⟨h3, h4⟩ := excess_elim h.having
  refine ⟨add_nonneg h1 h3, ?_⟩
  rw [FiltersBalanced, ← h2, ← h4, Query.ownExcess]
  omega

/-- No filter has an excess that another one could make up for. -/
theorem innerExcess_eq_zero_iff {qs : List (Bool × Query)} (h : AllFormed qs) :
    0 ≤ innerExcess qs ∧ (innerExcess qs = 0 ↔ ∀ x ∈ qs, x.2.FiltersBalanced) := by
  induction qs with
  | nil => simp
  | cons x qs ih =>
    obtain ⟨hx, hqs⟩ := List.forall_mem_cons.1 h
    obtain ⟨h1, h2⟩ := hx.ownExcess
    obtain ⟨h3, h4⟩ := ih hqs
    rw [innerExcess_cons, List.forall_mem_cons, ← h2, ← h4]
    omega

/-- **When the filters of a query are balanced**: all of them are, those of the queries inside of
    it included, if as many parentheses close in the text as open.  A filter may end with
    parentheses still open, but none closes that was not opened before. -/
theorem parse_balanced_iff (h : Query.parse s = .ok q) :
    (∀ r ∈ q.all, r.FiltersBalanced) ↔ s.excess = 0 := by
  obtain ⟨hall, hex⟩ := allFormed_of_parse h
  rw [hex, (innerExcess_eq_zero_iff hall).2, Query.all, List.forall_mem_cons,
    List.forall_mem_cons, List.forall_mem_map]

/-- Parentheses of groups, of a list, of a call and of a query to compare with. -/
theorem parse_balanced_iff_groups : ∃ q, Query.parse
    "SELECT Id FROM X WHERE (A IN (SELECT B FROM C WHERE (D IN (1))) OR f(E) = 1)" = .ok q ∧
      ((∀ r ∈ q.all, r.FiltersBalanced) ↔ Text.excess
        "SELECT Id FROM X WHERE (A IN (SELECT B FROM C WHERE (D IN (1))) OR f(E) = 1)" = 0) :=
  exists_parse (by decide_cbv) fun _ => parse_balanced_iff

/-- A filter that ends with a parenthesis still open is read all the same. -/
theorem parse_unclosed :
    (Query.parse "SELECT Id FROM X WHERE (A = 1").toOption.map (fun q =>
      q.filter.map fun chain => (Link.opened chain.links, Link.closed chain.links)) =
        some (some (1, 0)) := by
  decide_cbv

end Query

end Soql
