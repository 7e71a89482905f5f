/-
  Calls and their source texts.

  The source text of a call is cut out of the query text, from the name of the
  call to its closing parenthesis.  It stands for the call wherever it is put,
  and so does the text that is put together from the parts of the call.

  * `YieldsOn s f P`: on what is left of the text `s` the results of `f`
    satisfy `P`.
  * `yieldsOn_argumentsUpTo`, `YieldsOn.callOr`: calls are cited, with those
    among their arguments.
  * `citesQuery_selectUpTo`: so are all calls of queries.
  * `Query.parse_cited`: and those of the query of a text.
-/
import Mathlib
import Soql.Proofs.Query.Calls
import Soql.Proofs.Parse.Shape
import Soql.Proofs.Parse.Sorted

namespace Soql

open Unicode Token Soql.Parser

namespace Parser

variable {α β κ : Type} {s : Text} {f f' : Parser α} {g : α → Parser β} {P : α → Prop}
  {Q : β → Prop}

/-! ## Results on a text -/

/-- Whenever the parser succeeds on what is left of the text `s`, its result satisfies `P`. -/
def YieldsOn (s : Text) (f : Parser α) (P : α → Prop) : Prop :=
  ∀ ⦃E T ps c a c'⦄, At E T ps c → spell ps ++ E.text <:+ s → f c = .ok a c' →
    ∃ us ds, ps = us ++ ds ∧ At E T ds c' ∧ P a

theorem Reads.on {R : List Piece → α → List Piece → Prop} (h : Reads f R)
    (hP : ∀ us a ds, R us a ds → P a) (s : Text) : YieldsOn s f P := by
  intro E T ps c a c' hc _ hf
  obtain ⟨us, ds, hs, hd, hR⟩ := h hc hf
  exact ⟨us, ds, hs, hd, hP us a ds hR⟩

theorem Reads.any {R : List Piece → α → List Piece → Prop} (h : Reads f R) (s : Text) :
    YieldsOn s f Any :=
  h.on (fun _ _ _ _ => trivial) s

theorem Yields.any {m : α → Int} (h : Yields f m P) (s : Text) : YieldsOn s f Any := h.reads.any s

theorem suffix_of_append {us ds : List Piece} {r : Text} (h : spell (us ++ ds) ++ r <:+ s) :
    spell ds ++ r <:+ s := by
  rw [spell_append, List.append_assoc] at h
  exact (List.suffix_append ..).trans h

namespace YieldsOn

theorem mono {P' : α → Prop} (h : YieldsOn s f P) (hP : ∀ a, P a → P' a) : YieldsOn s f P' := by
  intro E T ps c a c' hc hs hf
  obtain ⟨us, ds, hps, hd, ha⟩ := h hc hs hf
  exact ⟨us, ds, hps, hd, hP a ha⟩

theorem bind (hf : YieldsOn s f P) (hg : ∀ a, P a → YieldsOn s (g a) Q) :
    YieldsOn s (f >>= g) Q := by
  intro E T ps c b c'' hc hs h
  obtain ⟨a, c', h1, h2⟩ := bind_eq_ok.1 h
  obtain ⟨us, ds, rfl, hc', ha⟩ := hf hc hs h1
  obtain ⟨ws, ds', rfl, hc'', hb⟩ := hg a ha hc' (suffix_of_append hs) h2
  exact ⟨us ++ ws, ds', (List.append_assoc ..).symm, hc'', hb⟩

theorem pure {a : α} (h : P a) : YieldsOn s (pure a) P :=
  (Reads.pure a).on (fun _ _ _ hb => hb.2 ▸ h) s

theorem map {h : α → β} (hf : YieldsOn s f P) (hQ : ∀ a, P a → Q (h a)) :
    YieldsOn s (f >>= fun a => Pure.pure (h a)) Q :=
  hf.bind fun a ha => pure (hQ a ha)

theorem fail (e : Expectation) : YieldsOn s (Parser.fail e) P :=
  (Reads.fail (P := fun _ a _ => P a) e).on (fun _ _ _ h => h) s

theorem throw (e : ParseError) : YieldsOn s (throw e) P :=
  (Reads.throw (P := fun _ a _ => P a) e).on (fun _ _ _ h => h) s

theorem ite {b : Prop} [Decidable b] (ht : YieldsOn s f P) (he : YieldsOn s f' P) :
    YieldsOn s (if b then f else f') P := by
  split
  · exact ht
  · exact he

theorem get {g : Cursor → Parser β} (hg : ∀ c, YieldsOn s (g c) Q) :
    YieldsOn s (get >>= g) Q := by
  intro E T ps c b c' hc hs h
  obtain ⟨_, _, h1, h2⟩ := bind_eq_ok.1 h
  cases h1
  exact hg c hc hs h2

/-- A sign taken where it is in view, and something else where it is not. -/
theorem ifToken (t : Token) (h : YieldsOn s f P) (h' : YieldsOn s f' P) :
    YieldsOn s (do if ← Parser.atToken t then let _ ← Parser.advance; f else f') P :=
  ((reads_atToken t).any s).bind fun _ _ => ite ((reads_advance.any s).bind fun _ _ => h) h'

theorem both {item : Parser β} (hf : YieldsOn s f P) (hi : YieldsOn s item Q) :
    YieldsOn s (both f item) fun r => P r.1 ∧ Q r.2 :=
  hf.bind fun _ ha => hi.map fun _ hb => ⟨ha, hb⟩

/-! ### Repetition -/

theorem after (t : Token) (hf : YieldsOn s f P) :
    YieldsOn s (after t f) fun o => ∀ a ∈ o, P a := by
  refine ifToken t (hf.map fun a ha => ?_) (pure (by simp))
  rintro _ ⟨⟩
  exact ha

theorem afterKeyword (w : Text) (hf : YieldsOn s f P) :
    YieldsOn s (afterKeyword w f) fun o => ∀ a ∈ o, P a := by
  refine ((reads_eatKeyword w).any s).bind fun _ _ => ite (hf.map fun a ha => ?_) (pure (by simp))
  rintro _ ⟨⟩
  exact ha

theorem manyUpTo {step : Parser (Option α)} (h : YieldsOn s step fun o => ∀ a ∈ o, P a) (n : Nat) :
    YieldsOn s (manyUpTo step n) fun as => ∀ a ∈ as, P a := by
  induction n with
  | zero => exact pure (by simp)
  | succ n ih =>
    refine h.bind fun o ho => ?_
    cases o with
    | none => exact pure (by simp)
    | some a => exact ih.map fun as has => List.forall_mem_cons.2 ⟨ho a rfl, has⟩

theorem many {step : Parser (Option α)} (h : YieldsOn s step fun o => ∀ a ∈ o, P a) :
    YieldsOn s (many step) fun as => ∀ a ∈ as, P a :=
  get fun _ => h.manyUpTo _

theorem commaSeparated (hf : YieldsOn s f P) :
    YieldsOn s (commaSeparated f) fun r => ∀ a ∈ r.1 :: r.2, P a :=
  hf.bind fun _ ha => (hf.after .comma).many.map fun _ has => List.forall_mem_cons.2 ⟨ha, has⟩

end YieldsOn

/-! ## Calls -/

theorem expect_any {t : Token} (ht : t ≠ .finish) (e : Expectation) (s : Text) :
    YieldsOn s (expect t e) Any :=
  (reads_expect ht e).any s

/-- The calls of an argument are cited. -/
def ArgumentCited (s : Text) (a : Argument) : Prop := ∀ c ∈ a.calls, c.flatten.Cited s

/-- The call and those among its arguments are cited, and there are no queries among these. -/
structure CallCited (s : Text) (c : Call) : Prop where
  calls : ∀ r ∈ c.calls, r.flatten.Cited s
  inner : c.inner = []

theorem cited_call {E : Ending} {T n : Nat} {us ps : List Piece} {c c' : Cursor} {name : Text}
    {r : Call} (hargs : YieldsOn s (argumentsUpTo n) fun as => ∀ a ∈ as, ArgumentCited s a)
    (hs : Single (.word name) us) (hc : At E T ps c) (hfit : Fits (us ++ ps) E.text)
    (hT : (name ++ (spell ps ++ E.text)).length ≤ T) (hsuffix : spell (us ++ ps) ++ E.text <:+ s)
    (h : callAfterName (argumentsUpTo n) (lexemeAt E T (.word name) ps) name c = .ok r c') :
    ∃ vs ds, ps = vs ++ ds ∧ At E T ds c' ∧ CallCited s r := by
  have hinner : YieldsOn s (callAfterName (argumentsUpTo n) (lexemeAt E T (.word name) ps) name)
      fun r => ∀ a ∈ r.arguments, ArgumentCited s a :=
    (expect_any (by simp) _ s).bind fun _ _ => hargs.bind fun _ has =>
      (expect_any (by simp) _ s).map fun _ _ => has
  obtain ⟨-, -, -, -, hall⟩ := hinner hc (suffix_of_append hsuffix) h
  obtain ⟨-, -, -, -, -, hnil⟩ := yields_callAfterName (yields_argumentsUpTo n) _ name hc h
  obtain ⟨os, as, cs, ds, args, rfl, ho, hcl, ⟨hphrase, -⟩, hd, rfl⟩ :=
    callAfterName_at (reads_argumentsUpTo n) hc hT h
  refine ⟨os ++ (as ++ cs), ds, by simp, hd, ?_, hnil⟩
  rw [Call.calls_eq, List.forall_mem_cons]
  refine ⟨?_, fun r hr => ?_⟩
  · have heq : us ++ (os ++ (as ++ (cs ++ ds))) = us ++ (os ++ (as ++ cs)) ++ ds := by simp
    rw [heq] at hfit hsuffix
    refine cited_written hs ho hcl hphrase ((fits_append ..).1 hfit).1 (.trans ?_ hsuffix.isInfix)
    obtain ⟨bs, hp, hb, rfl⟩ := hs
    exact ⟨spell bs, spell ds ++ E.text, by simp [spelling]⟩
  · obtain ⟨a, ha, hr⟩ := List.mem_flatMap.1 hr
    exact hall a ha r hr

theorem yieldsOn_argument {n : Nat}
    (hargs : YieldsOn s (argumentsUpTo n) fun as => ∀ a ∈ as, ArgumentCited s a) :
    YieldsOn s (argument (argumentsUpTo n)) (ArgumentCited s) := by
  have htext (u : Text) : ArgumentCited s (.text u) := by simp [ArgumentCited, Argument.calls]
  intro E T ps c a c' hc hsuffix h
  cases argument_at hc h with
  | @literal t us ds hl hs hd => exact ⟨us, ds, rfl, hd, htext _⟩
  | @call name us ds _ r hs hd hcall =>
    obtain ⟨vs, ds, rfl, hd, hr⟩ := cited_call hargs hs hd hc.fits (long_at hc hs) hsuffix hcall
    exact ⟨us ++ vs, ds, by simp, hd, hr.calls⟩
  | @path name us ds _ ws hs hd hv hpath =>
    obtain ⟨vs, ds, rfl, hd, -⟩ := reads_pathRest hd hpath
    exact ⟨us ++ vs, ds, by simp, hd, htext _⟩

theorem yieldsOn_argumentsUpTo (s : Text) (n : Nat) :
    YieldsOn s (argumentsUpTo n) fun as => ∀ a ∈ as, ArgumentCited s a := by
  induction n with
  | zero => exact .pure (by simp)
  | succ n ih =>
    rw [argumentsUpTo_succ]
    refine ((reads_atToken _).any s).bind fun _ _ => .ite (.pure (by simp)) ?_
    exact (yieldsOn_argument ih).bind fun a ha => ((reads_separator _).any s).bind fun _ _ =>
      ih.map fun as has => List.forall_mem_cons.2 ⟨ha, has⟩

/-- A call that is looked for in front of a path. -/
theorem YieldsOn.callOr {e : Expectation} (k : Call → Parser β) (other : Text → Parser β)
    (hk : ∀ c, CallCited s c → YieldsOn s (k c) Q) (ho : ∀ name, YieldsOn s (other name) Q) :
    YieldsOn s (do
      let first ← current
      let name ← identifier e
      if ← atToken .openParen then k (← call first name) else other name) Q := by
  intro E T ps c b c' hc hsuffix h
  obtain ⟨_, _, h1, h⟩ := bind_eq_ok.1 h
  cases h1
  obtain ⟨name, c₁, h1, h⟩ := bind_eq_ok.1 h
  obtain ⟨us, ds, rfl, hd, hs⟩ := reads_identifier _ hc h1
  obtain ⟨isCall, _, h2, h⟩ := bind_eq_ok.1 h
  cases h2
  split at h
  · obtain ⟨r, c₂, h3, h⟩ := bind_eq_ok.1 h
    rw [current_at hc hs] at h3
    obtain ⟨vs, ds', rfl, hd', hr⟩ := cited_call (yieldsOn_argumentsUpTo s _) hs hd hc.fits
      (long_at hc hs) hsuffix h3
    obtain ⟨ws, ds'', rfl, hd'', hb⟩ :=
      hk r hr hd' (suffix_of_append (suffix_of_append hsuffix)) h
    exact ⟨us ++ (vs ++ ws), ds'', by simp, hd'', hb⟩
  · obtain ⟨ws, ds', rfl, hd', hb⟩ := ho name hd (suffix_of_append hsuffix) h
    exact ⟨us ++ ws, ds', by simp, hd', hb⟩

theorem CallCited.flatten {c : Call} (h : CallCited s c) : c.flatten.Cited s :=
  h.calls c (by rw [Call.calls_eq]; exact List.mem_cons_self)

theorem yieldsOn_subject (s : Text) :
    YieldsOn s subject fun subject => ∀ c ∈ subject.call?, c.Cited s := by
  refine YieldsOn.callOr (fun r => (pure (.call r.flatten) : Parser Subject))
    (fun name => do return .field (Text.joinWith "." (name :: (← pathRest))))
    (fun c hc => .pure ?_) fun name => (reads_pathRest.any s).map fun _ _ => by
      simp [Subject.call?]
  rintro _ ⟨⟩
  exact hc.flatten

/-! ## Conditions -/

/-- The calls of queries are cited. -/
def AllCited (s : Text) (qs : List (Bool × Query)) : Prop := ∀ x ∈ qs, ∀ c ∈ x.2.calls, c.Cited s

theorem allCited_nil (s : Text) : AllCited s [] := by simp [AllCited]

/-- A parser of queries whose calls are cited, with those of the queries inside of them. -/
def CitesQuery (s : Text) (nested : Parser Query) : Prop :=
  YieldsOn s nested fun q => ∀ isField, AllCited s ((isField, q) :: q.inner)

theorem yieldsOn_comparand {nested : Parser Query} (hn : CitesQuery s nested) :
    YieldsOn s (comparand nested) fun r => AllCited s (Query.innerOption r.2.2) := by
  refine YieldsOn.ifToken _ ?_ ((excess_value.any s).map fun _ _ => allCited_nil s)
  refine ((yields_atKeyword "SELECT").any s).bind fun b _ => .ite ?_ ?_
  · exact YieldsOn.bind hn fun q hq => (expect_any (by simp) _ s).map fun _ _ => hq false
  · exact (yields_valueList.any s).map fun _ _ => allCited_nil s

theorem yieldsOn_comparing {ρ : Type} {right : Parser ρ} {R : ρ → Prop} (h : YieldsOn s right R) :
    YieldsOn s (comparing right) fun r => (∀ c ∈ r.1.call?, c.Cited s) ∧ R r.2.2 :=
  (yieldsOn_subject s).bind fun _ hc => (yields_comparison.any s).bind fun _ _ =>
    h.map fun _ hr => ⟨hc, hr⟩

/-- The calls of a condition are cited, and those of the query that it compares with. -/
structure ConditionCited (s : Text) (c : Condition) : Prop where
  call : ∀ k ∈ c.call, k.Cited s
  inner : AllCited s c.inner

theorem yieldsOn_condition {nested : Parser Query} (hn : CitesQuery s nested) :
    YieldsOn s (condition nested) (ConditionCited s) := by
  rw [condition_eq]
  exact (yieldsOn_comparing (yieldsOn_comparand hn)).map fun _ h => ⟨h.1, h.2⟩

section Chains

variable {front : Parser (Option (Nat × Bool))} {bare : Parser κ}
  {surround : κ → Nat → Bool → Nat → κ} {R : κ → Prop}

variable (surround) in
theorem yieldsOn_linkOf (hfront : YieldsOn s front Any) (hbare : YieldsOn s bare R)
    (hk : ∀ c opens negated closes, R c → R (surround c opens negated closes)) (depth : Nat) :
    YieldsOn s (linkOf front bare surround depth) fun r => ∀ c ∈ r.1.condition, R c := by
  refine hfront.bind fun o _ => ?_
  rcases o with _ | ⟨opens, negated⟩
  · exact .pure (by simp)
  · refine hbare.bind fun c hc => ((yields_closing _).any s).map fun r _ => ?_
    rintro _ ⟨⟩
    exact hk c opens negated r.1 hc

theorem yieldsOn_chainUpTo {link : Nat → Parser (Link κ × Nat)}
    (h : ∀ depth, YieldsOn s (link depth) fun r => ∀ c ∈ r.1.condition, R c) (n depth : Nat) :
    YieldsOn s (chainUpTo link n depth) fun chain => ∀ c ∈ chain.conditions, R c := by
  induction n generalizing depth with
  | zero => exact .fail _
  | succ n ih =>
    refine (h depth).bind fun ⟨x, depth⟩ hx => ?_
    have hlink (xs : List (Link κ)) (hxs : ∀ c ∈ Link.conditions xs, R c) :
        ∀ c ∈ Chain.conditions ⟨x, xs⟩, R c := by
      rw [Chain.conditions, Chain.links, Link.conditions_cons, List.forall_mem_append]
      exact ⟨fun c hc => hx c (Option.mem_toList.1 hc), hxs⟩
    cases hc : x.connective with
    | none =>
      simp only [hc]
      exact .pure (hlink [] (by simp [Link.conditions]))
    | some op =>
      simp only [hc]
      exact (ih depth).map fun rest hrest => hlink rest.links hrest

end Chains

theorem yieldsOn_filter {nested : Parser Query} (hn : CitesQuery s nested) :
    YieldsOn s (filter nested) fun chain => ∀ c ∈ chain.conditions, ConditionCited s c := by
  refine YieldsOn.get fun c => ?_
  rw [filterUpTo_eq]
  refine yieldsOn_chainUpTo (yieldsOn_linkOf _ (excess_front.any s) (yieldsOn_condition hn) ?_) _ 0
  exact fun c _ _ _ hc => ⟨hc.call, by rw [inner_surround]; exact hc.inner⟩

theorem yieldsOn_groupFilter (s : Text) : YieldsOn s groupFilter fun chain =>
    ∀ x ∈ chain.conditions, ∀ c ∈ x.call, c.Cited s := by
  refine YieldsOn.get fun c => ?_
  rw [groupFilterUpTo_eq]
  have hbare : YieldsOn s groupCondition fun x => ∀ c ∈ x.call, c.Cited s :=
    (yieldsOn_comparing (yields_groupValue.any s)).map fun _ h => h.1
  have hlink (depth : Nat) : YieldsOn s
      (linkOf groupFront groupCondition GroupCondition.surround depth)
      fun r => ∀ x ∈ r.1.condition, ∀ c ∈ x.call, c.Cited s :=
    yieldsOn_linkOf GroupCondition.surround (excess_groupFront.any s) hbare
      (fun _ _ _ _ hc => hc) depth
  exact yieldsOn_chainUpTo hlink _ 0

/-! ## Grouping and sorting -/

theorem yieldsOn_grouping (s : Text) : YieldsOn s grouping fun g =>
    (∀ c ∈ g.call, c.Cited s) ∧ g.having = none := by
  refine (Reads.current.any s).bind fun start _ => ?_
  refine (yieldsOn_subject s).commaSeparated.bind fun ⟨first, others⟩ hall => ?_
  dsimp only
  cases h : groupingOf start.start first others with
  | error e => exact .throw e
  | ok g =>
    rcases groupingOf_eq_ok h with ⟨c, rfl, rfl, rfl⟩ | ⟨n, ns, rfl, rfl, rfl⟩
    · exact .pure ⟨hall _ List.mem_cons_self, rfl⟩
    · exact .pure ⟨by simp, rfl⟩

theorem yieldsOn_groupingClause (s : Text) : YieldsOn s groupingClause fun o =>
    ∀ g ∈ o, ∀ c ∈ g.calls, c.Cited s := by
  have hkeys : YieldsOn s grouping? fun o => ∀ g ∈ o, (∀ c ∈ g.call, c.Cited s) ∧ g.having = none :=
    YieldsOn.afterKeyword _ (((reads_expectKeyword "BY").any s).bind fun _ _ => yieldsOn_grouping s)
  have hpair := hkeys.both ((yieldsOn_groupFilter s).afterKeyword "HAVING")
  intro E T ps c r c' hc hs h
  obtain ⟨g, having, hp, hor, rfl⟩ := groupingClause_eq_ok.1 h
  obtain ⟨us, ds, hps, hd, hg, hh⟩ := hpair hc hs hp
  refine ⟨us, ds, hps, hd, fun g' hg' => Grouping.forall_mem_calls.2 ?_⟩
  cases having with
  | none =>
    obtain ⟨hcall, hnone⟩ := hg g' hg'
    exact ⟨hcall, by simp [hnone]⟩
  | some having =>
    obtain ⟨g, rfl, rfl⟩ := Option.map_eq_some_iff.1 hg'
    refine ⟨(hg g rfl).1, ?_⟩
    rintro _ ⟨⟩
    exact hh having rfl

theorem yieldsOn_sorting (s : Text) :
    YieldsOn s sorting fun keys => ∀ c ∈ keys.calls, c.Cited s := by
  have hkey : YieldsOn s sortKey fun key => ∀ c ∈ key.call, c.Cited s :=
    (yieldsOn_subject s).bind fun _ hc => (yields_order.any s).bind fun _ _ =>
      (((reads_expectKeywordOf .nullsPlace).any s).afterKeyword "NULLS").map fun _ _ => hc
  rw [sorting_eq]
  refine hkey.commaSeparated.map fun r hr => SortKeys.forall_mem_calls.2 ?_
  rwa [toList_sortKeysOf]

/-! ## Queries -/

/-- The calls of the clauses after the source are cited. -/
structure TailCited (s : Text) (t : Tail) : Prop where
  filter : ∀ chain ∈ t.1, ∀ c ∈ chain.conditions, ConditionCited s c
  grouping : ∀ g ∈ t.2.1.1.1, ∀ c ∈ g.calls, c.Cited s
  sorting : ∀ keys ∈ t.2.1.1.2.1, ∀ c ∈ keys.calls, c.Cited s

theorem yieldsOn_tail {nested : Parser Query} (hn : CitesQuery s nested) :
    YieldsOn s (tail nested) (TailCited s) := by
  have hsort : YieldsOn s sorting? fun o => ∀ keys ∈ o, ∀ c ∈ keys.calls, c.Cited s :=
    YieldsOn.afterKeyword _ (((reads_expectKeyword "BY").any s).bind fun _ _ => yieldsOn_sorting s)
  have hcount (w : Text) := ((yields_rowCount w).any s).afterKeyword w
  have hclauses := yields_withClauses.any s
  have hbody : YieldsOn s body fun r => (∀ g ∈ r.1.1, ∀ c ∈ g.calls, c.Cited s) ∧
      ∀ keys ∈ r.1.2.1, ∀ c ∈ keys.calls, c.Cited s :=
    hclauses.bind fun _ _ => ((yieldsOn_groupingClause s).both (hsort.both
      ((hcount "LIMIT").both (hcount "OFFSET")))).bind fun x hx =>
        hclauses.map fun _ _ => ⟨hx.1, hx.2.1⟩
  exact (((yieldsOn_filter hn).afterKeyword "WHERE").both (hbody.both
    ((((reads_expectKeywordOf .forTarget).any s).afterKeyword "FOR").both
      (((reads_expectKeywordOf .updateTarget).any s).afterKeyword "UPDATE")))).mono
        fun t ht => ⟨ht.1, ht.2.1.1, ht.2.1.2⟩

/-- The calls of a field are cited, and those of the queries inside of it. -/
structure FieldCited (s : Text) (f : Field) : Prop where
  calls : ∀ c ∈ f.calls, c.flatten.Cited s
  inner : AllCited s f.inner

theorem fieldCited_of_nil {f : Field} (hcalls : f.calls = []) (hinner : f.inner = []) :
    FieldCited s f := ⟨by simp [hcalls], hinner ▸ allCited_nil s⟩

/-- An alias is no part of a call in its flat form. -/
theorem CallCited.field {c : Call} (h : CallCited s c) (aliasName : Option Text) :
    FieldCited s (.call { c with aliasName }) := by
  obtain ⟨name, args, a, aggregate, source⟩ := c
  have hcalls := h.calls
  rw [Call.calls_eq, List.forall_mem_cons] at hcalls
  refine ⟨?_, ?_⟩
  · rw [Field.calls, Call.calls_eq, List.forall_mem_cons]
    exact hcalls
  · have hinner : (Field.call ⟨name, args, aliasName, aggregate, source⟩).inner = [] := h.inner
    rw [hinner]
    exact allCited_nil s

theorem yieldsOn_field {nested : Parser Query} (hn : CitesQuery s nested) :
    YieldsOn s (field nested) (FieldCited s) := by
  rw [field_eq]
  refine YieldsOn.ifToken _ ?_ (((reads_eatKeyword _).any s).bind fun b _ => .ite ?_ ?_)
  · exact YieldsOn.bind hn fun q hq => (expect_any (by simp) _ s).map fun _ _ =>
      ⟨by simp [Field.calls], hq true⟩
  · exact (yields_typeOf.any s).map fun _ _ => fieldCited_of_nil rfl rfl
  · refine YieldsOn.callOr
      (fun c => (do return .call { c with aliasName := ← aliasName? } : Parser Field))
      (fun name => do
        let others ← pathRest
        return fieldOf name others (← aliasName?))
      (fun c hc => (reads_aliasName.any s).map fun a _ => hc.field a) fun name => ?_
    refine (reads_pathRest.any s).bind fun others _ => (reads_aliasName.any s).map fun a _ => ?_
    cases others <;> exact fieldCited_of_nil rfl rfl

theorem allCited_queryOf {fs : List Field} {source : Source × Option Text} {t : Tail}
    (hfs : ∀ f ∈ fs, FieldCited s f) (ht : TailCited s t) (isField : Bool) :
    AllCited s ((isField, queryOf fs source t) :: (queryOf fs source t).inner) := by
  refine List.forall_mem_cons.2 ⟨Query.forall_mem_calls.2 ⟨?_, ?_, ht.grouping, ht.sorting⟩, ?_⟩
  · rw [← List.forall_mem_flatMap, queryOf, flatMap_qualifyAll (fun _ => rfl) fun _ => rfl,
      List.forall_mem_flatMap]
    exact fun f hf => (hfs f hf).calls
  · exact fun chain hchain c hc => (ht.filter chain hchain c hc).call
  · rw [inner_queryOf]
    refine List.forall_mem_append.2 ⟨?_, ?_⟩
    · exact List.forall_mem_flatMap.2 fun f hf => (hfs f hf).inner
    · refine List.forall_mem_flatMap.2 fun c hc => ?_
      obtain ⟨chain, hchain, hc⟩ := List.mem_flatMap.1 hc
      exact (ht.filter chain (Option.mem_toList.1 hchain) c hc).inner

/-- **All calls of a query that is read are cited**, with those of the queries inside of it. -/
theorem citesQuery_selectUpTo (s : Text) (n : Nat) (isNested : Bool) :
    CitesQuery s (selectUpTo n isNested) := by
  induction n generalizing isNested with
  | zero => exact YieldsOn.fail _
  | succ n ih =>
    change CitesQuery s (selectWith (selectUpTo n) isNested)
    rw [selectWith_eq]
    refine ((reads_expectKeyword "SELECT").any s).bind fun _ _ => ?_
    have hsource := (yields_fromClause isNested).any s
    refine ((yieldsOn_field (ih true)).commaSeparated.both
      (hsource.both (yieldsOn_tail (ih false)))).map fun x hx => ?_
    exact allCited_queryOf hx.1 hx.2.2

/-- What holds of the queries that are read on a text holds of the query of the text. -/
theorem YieldsOn.parse {P : Query → Prop} (h : ∀ n, YieldsOn s (selectUpTo n false) P) {q : Query}
    (hq : Query.parse s = .ok q) : P q := by
  obtain ⟨ps, E, hs, hfit, hlex, -⟩ := exists_pieces s
  rw [parse_eq] at hq
  obtain ⟨c, c', hat, hselect, -⟩ := readAll_run hs hfit hlex hq
  obtain ⟨-, -, -, -, hP⟩ := h _ hat (hs ▸ List.suffix_rfl) hselect
  exact hP

end Parser

namespace Query

variable {s : Text} {q : Query}

/-- **The source text of every call is exact, and stands for the call.**  The calls of the query of
    a text, at any depth, have source texts that are pieces of it, from their names to their
    closing parentheses.  Put in place of a sort key this text is read as the same call, and so is
    what is put together from its name and its arguments. -/
theorem parse_cited (h : Query.parse s = .ok q) : ∀ r ∈ q.all, ∀ c ∈ r.calls, c.Cited s := by
  have hall : AllCited s ((false, q) :: q.inner) :=
    YieldsOn.parse (citesQuery_selectUpTo s · false) h false
  rw [Query.all, List.forall_mem_cons, List.forall_mem_map]
  exact List.forall_mem_cons.1 hall

/-- Calls in all places, with blanks, a call in a call and a comma after the last argument. -/
def calling : Text := "SELECT f( g( 'x' , A.B ,) , 1 ) c, (SELECT h(D) FROM E ORDER BY k()) " ++
  "FROM X WHERE a (b) = 1 GROUP BY m(n) HAVING p(q) > 1"

/-- The calls of this text, each as it is written there. -/
theorem parse_cited_calling : ∃ q, Query.parse calling = .ok q ∧
    (q.all.flatMap Query.calls).filterMap FlatCall.source =
      ["f( g( 'x' , A.B ,) , 1 )", "g( 'x' , A.B ,)", "a (b)", "m(n)", "p(q)", "h(D)", "k()"] ∧
    ∀ r ∈ q.all, ∀ c ∈ r.calls, c.Cited calling := by
  have hsources : (Query.parse calling).toOption.elim [] (fun q =>
      (q.all.flatMap Query.calls).filterMap FlatCall.source) = ["f( g( 'x' , A.B ,) , 1 )",
        "g( 'x' , A.B ,)", "a (b)", "m(n)", "p(q)", "h(D)", "k()"] := by
    decide +kernel
  cases h : Query.parse calling with
  | error e =>
    rw [h] at hsources
    cases hsources
  | ok q =>
    rw [h] at hsources
    exact ⟨q, rfl, hsources, parse_cited h⟩

end Query

end Soql
