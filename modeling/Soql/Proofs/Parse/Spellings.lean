/-
  The spellings of a query.

  Texts with the same tokens, up to the case of ASCII letters in words, stand
  for the same query up to that case, or for none for the same reason.

  * `Argument.Sourced`: a nested call with the text that it was written with.
  * `alike_subject`, `alike_filter`, `alike_selectUpTo`, …: every parser is alike
    to itself.
  * `Query.parse_alike`: queries and errors of alike texts.
-/
import Mathlib
import Soql.Proofs.Parse.Alike
import Soql.Proofs.RoundTrip

namespace Soql

open Text

/-! ## Flat calls -/

/-- An argument that is a text, or a call with a text that ends in a parenthesis. -/
def Argument.Sourced : Argument → Prop
  | .text _ => True
  | .field (.call c) => ∃ t, c.source = some t ∧ t.getLast? = some ')'
  | .field _ => False

theorem getLast?_fold (t : Text) : t.fold.getLast? = some ')' ↔ t.getLast? = some ')' := by
  rw [fold, List.getLast?_map]
  cases t.getLast? with
  | none => simp
  | some c => simpa using toLower_eq_iff (show ')'.isAlpha = false by decide)

theorem FlatCall.foldArgument_eq {a b : Text} (h : a.fold = b.fold) :
    foldArgument a = foldArgument b := by
  have hlast : a.getLast? = some ')' ↔ b.getLast? = some ')' := by
    rw [← getLast?_fold a, h, getLast?_fold]
  by_cases ha : a.getLast? = some ')'
  · rw [foldArgument, foldArgument, if_pos ha, if_pos (hlast.1 ha)]
  · rw [foldArgument, foldArgument, if_neg ha, if_neg (mt hlast.2 ha), h]

/-- Arguments that are alike stay so as texts. -/
theorem Argument.foldArgument_flatText {a b : Argument} (h : a.folded = b.folded)
    (ha : a.Sourced) (hb : b.Sourced) :
    FlatCall.foldArgument a.flatText = FlatCall.foldArgument b.flatText := by
  rcases a with t | f
  · rcases b with u | g
    · exact FlatCall.foldArgument_eq (Argument.text.inj h)
    · cases h
  · rcases b with u | g
    · cases h
    · cases f with
      | call c =>
        cases g with
        | call d =>
          obtain ⟨t, ht, htlast⟩ := ha
          obtain ⟨u, hu, hulast⟩ := hb
          rw [flatText, flatText, ht, hu, Option.getD_some, Option.getD_some,
            FlatCall.foldArgument, FlatCall.foldArgument, if_pos htlast, if_pos hulast]
        | _ => exact hb.elim
      | _ => exact ha.elim

theorem Argument.foldArguments_flatText {as bs : List Argument}
    (h : as.map folded = bs.map folded) (ha : ∀ a ∈ as, a.Sourced) (hb : ∀ b ∈ bs, b.Sourced) :
    (as.map flatText).map FlatCall.foldArgument = (bs.map flatText).map FlatCall.foldArgument := by
  induction as generalizing bs with
  | nil =>
    obtain rfl := List.map_eq_nil_iff.1 h.symm
    rfl
  | cons a as ih =>
    cases bs with
    | nil => cases h
    | cons b bs =>
      obtain ⟨hab, habs⟩ := List.cons.inj h
      obtain ⟨ha, has⟩ := List.forall_mem_cons.1 ha
      obtain ⟨hb, hbs⟩ := List.forall_mem_cons.1 hb
      simp only [List.map_cons, ih habs has hbs, foldArgument_flatText hab ha hb]

/-- Calls that are alike stay so when they are flattened. -/
theorem Call.folded_flatten {c d : Call} (h : c.folded = d.folded)
    (hc : ∀ a ∈ c.arguments, a.Sourced) (hd : ∀ a ∈ d.arguments, a.Sourced) :
    c.flatten.folded = d.flatten.folded := by
  obtain ⟨name, args, aliasName, aggregate, source⟩ := c
  obtain ⟨name', args', aliasName', aggregate', source'⟩ := d
  rw [Call.folded, Call.folded, Call.mk.injEq, Argument.foldAll_eq, Argument.foldAll_eq] at h
  obtain ⟨hname, hargs, -⟩ := h
  have hagg : isAggregate name = isAggregate name' := by
    rw [← isAggregate_fold, hname, isAggregate_fold]
  simp only [Call.flatten, FlatCall.folded, Option.map_some, hname, hagg,
    Argument.foldArguments_flatText hargs hc hd]

namespace Parser

variable {R : Nat → Nat → Prop}

/-! ## Calls -/

theorem alike_callAfterName {args args' : Parser (List Argument)}
    (hargs : Alike R (On (List.map Argument.folded)) args args') {first first' : Lexeme}
    {a b : Text} (h : a.fold = b.fold) :
    Alike R (On Call.folded) (callAfterName args first a) (callAfterName args' first' b) := by
  refine (alike_expect (by nofun) _).bind fun _ _ _ => ?_
  refine hargs.bind fun as bs habs => (alike_expect (by nofun) _).map fun _ _ _ => ?_
  have hagg : isAggregate a = isAggregate b := by rw [← isAggregate_fold, h, isAggregate_fold]
  simp only [On, Call.ofParts, Call.folded, Argument.foldAll_eq, h, hagg]
  rw [habs]

theorem alike_argument {args args' : Parser (List Argument)}
    (hargs : Alike R (On (List.map Argument.folded)) args args') :
    Alike R (On Argument.folded) (argument args) (argument args') := by
  refine alike_current.bind fun l m hlm => ?_
  refine Token.folded_elim hlm.token (fun a b hab => ?_) fun t ht => ?_
  · refine alike_advance.bind fun _ _ _ => .ifToken (by nofun) ?_ ?_
    · exact (alike_callAfterName hargs hab).map fun c d hcd =>
        congrArg (fun c => Argument.field (.call c)) hcd
    · exact alike_pathRest.map fun as bs habs => congrArg Argument.text (fold_dotted hab habs)
  · cases t with
    | word a => exact absurd rfl (ht a)
    | string a => exact alike_advance.map fun _ _ _ => rfl
    | number a => exact alike_advance.map fun _ _ _ => rfl
    | dateTime a => exact alike_advance.map fun _ _ _ => rfl
    | _ => exact alike_fail _

theorem alike_argumentsUpTo (n : Nat) :
    Alike R (On (List.map Argument.folded)) (argumentsUpTo n) (argumentsUpTo n) := by
  induction n with
  | zero => exact .pure rfl
  | succ n ih =>
    rw [argumentsUpTo_succ]
    refine .ifToken (by nofun) (.pure rfl) ?_
    refine (alike_argument ih).bind fun a b hab => (alike_separator _).bind fun _ _ _ => ?_
    exact ih.map fun as bs habs => congrArg₂ List.cons hab habs

theorem alike_call {first first' : Lexeme} {a b : Text} (h : a.fold = b.fold) :
    Alike R (On Call.folded) (call first a) (call first' b) :=
  .get fun c d hsize => by
    rw [hsize]
    exact alike_callAfterName (alike_argumentsUpTo _) h

/-- The text of a call ends in its closing parenthesis. -/
theorem getLast?_closing {cs : List Piece} (h : Single .closeParen cs) (t : Text)
    (us : List Piece) : (t ++ spell (us ++ cs)).getLast? = some ')' := by
  obtain ⟨bs, hp, -, rfl⟩ := h
  rw [← List.append_assoc, spell_append, ← List.append_assoc, List.getLast?_append]
  rfl

theorem reads_argument_sourced {args : Parser (List Argument)}
    {P : List Piece → List Argument → List Piece → Prop} (hargs : Reads args P) :
    Reads (argument args) fun _ a _ => a.Sourced := by
  intro E T ps c a c' hc h
  cases argument_at hc h with
  | @literal t us ds hl hs hd => exact ⟨us, ds, rfl, hd, trivial⟩
  | @call name us ds _ r hs hd hcall =>
    obtain ⟨os, as, cs, ds, _, rfl, -, hcl, -, hd, rfl⟩ :=
      callAfterName_at hargs hd (long_at hc hs) hcall
    refine ⟨us ++ (os ++ (as ++ cs)), ds, by simp, hd, _, rfl, ?_⟩
    rw [← List.append_assoc]
    exact getLast?_closing hcl name (os ++ as)
  | @path name us ds _ ws hs hd hv hpath =>
    obtain ⟨rs, ds, rfl, hd, -⟩ := reads_pathRest hd hpath
    exact ⟨us ++ rs, ds, by simp, hd, trivial⟩

theorem reads_argumentsUpTo_sourced (n : Nat) :
    Reads (argumentsUpTo n) fun _ as _ => ∀ a ∈ as, a.Sourced := by
  induction n with
  | zero =>
    refine (Reads.pure []).mono ?_
    rintro us as ds ⟨-, rfl⟩
    simp
  | succ n ih =>
    rw [argumentsUpTo_succ]
    refine ((reads_atToken .closeParen).bind (R := fun _ _ as _ => ∀ a ∈ as, a.Sourced)
      fun b => ?_).mono ?_
    · cases b with
      | true =>
        refine (Reads.pure []).mono ?_
        rintro us as ds ⟨-, rfl⟩
        simp
      | false =>
        refine ((reads_argument_sourced ih).bind fun a => (reads_separator _).bind fun _ =>
          ih.bind fun as => Reads.pure (a :: as)).mono ?_
        rintro us as ds ⟨_, a, _, -, ha, _, _, _, -, -, _, as', _, -, has, -, rfl⟩
        exact List.forall_mem_cons.2 ⟨ha, has⟩
    · rintro us as ds ⟨_, _, _, -, -, has⟩
      exact has

theorem reads_call_sourced (first : Lexeme) (name : Text) :
    Reads (call first name) fun _ r _ => ∀ a ∈ r.arguments, a.Sourced := by
  have hcall (n : Nat) : Reads (callAfterName (argumentsUpTo n) first name)
      fun _ r _ => ∀ a ∈ r.arguments, a.Sourced := by
    refine ((reads_expect (by decide) _).bind fun _ =>
      (reads_argumentsUpTo_sourced n).bind fun as =>
        (reads_expect (by decide) _).bind fun last => Reads.pure _).mono ?_
    rintro us r ds ⟨_, _, _, -, -, _, as, _, -, has, _, _, _, -, -, -, rfl⟩
    exact has
  exact fun E T ps c r c' hc h => hcall (c.size + 1) hc h

/-! ## Subjects -/

end Parser

/-- What is compared, in lower case. -/
def Subject.folded : Subject → Subject
  | field path => field path.fold
  | call c => call c.folded

theorem Subject.field?_folded (s : Subject) : s.folded.field? = s.field?.map fold := by
  cases s <;> rfl

theorem Subject.call?_folded (s : Subject) : s.folded.call? = s.call?.map FlatCall.folded := by
  cases s <;> rfl

theorem Subject.field?_eq {s t : Subject} (h : s.folded = t.folded) :
    s.field?.map fold = t.field?.map fold := by
  rw [← field?_folded, h, field?_folded]

theorem Subject.call?_eq {s t : Subject} (h : s.folded = t.folded) :
    s.call?.map FlatCall.folded = t.call?.map FlatCall.folded := by
  rw [← call?_folded, h, call?_folded]

theorem Subject.mapM_field?_folded (ss : List Subject) :
    (ss.map folded).mapM field? = (ss.mapM field?).map (List.map fold) := by
  induction ss with
  | nil => rfl
  | cons s ss ih =>
    rw [List.map_cons, List.mapM_cons, List.mapM_cons, ih, field?_folded]
    cases s.field? with
    | none => rfl
    | some name => cases ss.mapM field? <;> rfl

namespace Parser

theorem alike_subject : Alike R (On Subject.folded) subject subject := by
  refine alike_current.bind fun l m _ => (alike_identifier _).bind fun a b hab => ?_
  refine .ifToken (by nofun) ?_ ?_
  · have hcall : Alike R (On Call.folded) (call l a) (call m b) := alike_call hab
    refine (hcall.reads (reads_call_sourced l a) (reads_call_sourced m b)).map ?_
    rintro c d ⟨hcd, hc, hd⟩
    exact congrArg Subject.call (Call.folded_flatten hcd hc hd)
  · exact alike_pathRest.map fun as bs habs => congrArg Subject.field (fold_dotted hab habs)

/-! ## Values -/

theorem alike_value : Alike R (On (Prod.map fold id)) value value := by
  refine alike_current.bind fun l m hlm => ?_
  refine Token.folded_elim hlm.token (fun a b hab => ?_) fun t ht => ?_
  · refine alike_take.bind fun _ _ _ => .ifToken (by nofun) ?_ ?_
    · refine alike_advance.bind fun _ _ _ => alike_current.bind fun l m hlm => ?_
      refine Token.folded_elim hlm.token (fun _ _ _ => alike_fail _) fun t ht => ?_
      cases t with
      | number count =>
        refine alike_take.map fun _ _ _ => ?_
        simp only [On, Prod.map, fold_append, hab]
      | _ => exact alike_fail _
    · have hkind : LiteralKind.ofWord? a = LiteralKind.ofWord? b := by
        rw [← LiteralKind.ofWord?_fold, hab, LiteralKind.ofWord?_fold]
      rw [hkind]
      cases LiteralKind.ofWord? b with
      | none => exact .throw (.invalidValue hab hlm.start)
      | some kind => exact .pure (congrArg (·, kind) hab)
  · cases t with
    | word a => exact absurd rfl (ht a)
    | string a => exact alike_take.map fun _ _ _ => rfl
    | number a => exact alike_take.map fun _ _ _ => rfl
    | dateTime a =>
      refine alike_take.bind fun _ _ _ => ?_
      cases LiteralKind.ofDate? a with
      | none => exact .throw (.invalidValue rfl hlm.start)
      | some kind => exact .pure rfl
    | colon =>
      refine alike_take.bind fun _ _ _ => (alike_identifier _).map fun a b hab => ?_
      exact congrArg (·, LiteralKind.bindVariable) hab
    | _ => exact alike_fail _

theorem alike_valueList : Alike R (On (List.map (Prod.map fold id))) valueList valueList :=
  (alike_value.untilClose _).bind fun _ _ hvs => (alike_expect (by nofun) _).map fun _ _ _ => hvs

theorem alike_literalText : Alike R (On fold) literalText literalText := by
  refine alike_value.map fun v w hvw => ?_
  obtain ⟨htext, hkind⟩ := Prod.mk.inj hvw
  simp only [id] at hkind
  rw [On, LiteralKind.fold_render, LiteralKind.fold_render, htext, hkind]

theorem alike_groupValue : Alike R (On fold) groupValue groupValue := by
  refine .ifToken (by nofun) ?_ alike_literalText
  refine alike_advance.bind fun _ _ _ => (alike_literalText.untilClose _).bind fun vs ws h => ?_
  refine (alike_expect (by nofun) _).map fun _ _ _ => ?_
  simp only [On, fold_append, fold_joinWith]
  rw [h]

theorem alike_rowCount (clause : Text) : Alike R Eq (rowCount clause) (rowCount clause) := by
  refine alike_current.bind fun l m hlm => ?_
  refine Token.folded_elim hlm.token (fun _ _ _ => alike_fail _) fun t ht => ?_
  cases t with
  | number text =>
    dsimp only
    cases text.number? with
    | none => exact .throw (.invalidNumber text hlm.start)
    | some n =>
      by_cases hn : n < UInt64.size
      · simp only [if_pos hn]
        exact alike_advance.map fun _ _ _ => rfl
      · simp only [if_neg hn]
        exact .throw (.invalidNumber text hlm.start)
  | _ => exact alike_fail _

/-! ## Filters -/

theorem alike_openParens : Alike R Eq openParens openParens := by
  have hstep := Alike.after (R := R) (t := .openParen) (n := id) (.pure (a := ()) rfl) (by nofun)
  exact hstep.many.map fun as bs h => by simpa using congrArg List.length h

theorem alike_closeParens (depth : Nat) : Alike R Eq (closeParens depth) (closeParens depth) := by
  have hstep := Alike.after (R := R) (t := .closeParen) (n := id) (.pure (a := ()) rfl) (by nofun)
  exact (hstep.manyUpTo depth).map fun as bs h => by simpa using congrArg List.length h

theorem alike_connective : Alike R Eq connective? connective? :=
  .ifKeyword (.pure rfl) (.ifKeyword (.pure rfl) (.pure rfl))

theorem alike_comparison : Alike R Eq comparison comparison := by
  refine .ifKeyword ((alike_expectKeyword _).map fun _ _ _ => rfl) ?_
  refine alike_current.bind fun l m hlm => ?_
  have hop : comparisonOf? l.token = comparisonOf? m.token :=
    Token.folded_elim hlm.token (fun a b hab => ofWord?_eq hab) fun _ _ => rfl
  rw [hop]
  cases comparisonOf? m.token with
  | none => exact alike_fail _
  | some op => exact alike_advance.map fun _ _ _ => rfl

theorem Alike.both {α β γ δ : Type} {n : α → γ} {m : β → δ} {f f' : Parser α} {g g' : Parser β}
    (hf : Alike R (On n) f f') (hg : Alike R (On m) g g') :
    Alike R (On (Prod.map n m)) (both f g) (both f' g') :=
  hf.bind fun _ _ h => hg.map fun _ _ h' => congrArg₂ Prod.mk h h'

/-- What a condition compares with, in lower case. -/
def foldComparand (r : Comparand) : Comparand :=
  (r.1.map FilterValue.folded, r.2.1, Query.foldOption r.2.2)

theorem alike_comparand {nested nested' : Parser Query}
    (h : Alike R (On Query.folded) nested nested') :
    Alike R (On foldComparand) (comparand nested) (comparand nested') := by
  refine .ifToken (by nofun) ?_ ?_
  · refine alike_advance.bind fun _ _ _ => (alike_atKeyword _).bind fun _ _ hb => .ite hb ?_ ?_
    · refine h.bind fun q q' hq => (alike_expect (by nofun) _).map fun _ _ _ => ?_
      exact congrArg (fun q => ((none, none, some q) : Comparand)) hq
    · refine alike_valueList.map fun vs ws hvw => ?_
      have htexts : (vs.map (·.1)).map fold = (ws.map (·.1)).map fold := by
        simpa [Function.comp_def] using congrArg (List.map Prod.fst) hvw
      have hkinds : vs.map (·.2) = ws.map (·.2) := by
        simpa [Function.comp_def] using congrArg (List.map Prod.snd) hvw
      simp only [On, foldComparand, listComparand, Option.map_some, FilterValue.folded, htexts,
        hkinds]
  · refine alike_value.map fun v w hvw => ?_
    obtain ⟨htext, hkind⟩ := Prod.mk.inj hvw
    simp only [id] at hkind
    simp only [On, foldComparand, singleComparand, Option.map_some, FilterValue.folded, htext,
      hkind]

theorem alike_comparing {ρ σ : Type} {n : ρ → σ} {right right' : Parser ρ}
    (h : Alike R (On n) right right') :
    Alike R (On (Prod.map Subject.folded (Prod.map id n))) (comparing right) (comparing right') :=
  alike_subject.bind fun _ _ hs => alike_comparison.bind fun _ _ hk => h.map fun _ _ hr =>
    congrArg₂ Prod.mk hs (congrArg₂ Prod.mk hk hr)

theorem alike_condition {nested nested' : Parser Query}
    (h : Alike R (On Query.folded) nested nested') :
    Alike R (On Condition.folded) (condition nested) (condition nested') := by
  rw [condition_eq, condition_eq]
  refine (alike_comparing (alike_comparand h)).map fun r r' hr => ?_
  obtain ⟨s, k, v, kinds, q⟩ := r
  obtain ⟨s', k', v', kinds', q'⟩ := r'
  simp only [On, Prod.map, Prod.mk.injEq, id, foldComparand] at hr
  obtain ⟨hs, rfl, hv, rfl, hq⟩ := hr
  simp only [On, conditionOf, Condition.folded, Subject.field?_eq hs, Subject.call?_eq hs, hv, hq]

theorem alike_groupCondition :
    Alike R (On GroupCondition.folded) groupCondition groupCondition := by
  refine (alike_comparing alike_groupValue).map fun r r' hr => ?_
  obtain ⟨s, k, v⟩ := r
  obtain ⟨s', k', v'⟩ := r'
  simp only [On, Prod.map, Prod.mk.injEq, id] at hr
  obtain ⟨hs, rfl, hv⟩ := hr
  simp only [On, groupConditionOf, GroupCondition.folded, Subject.field?_eq hs,
    Subject.call?_eq hs, hv]

theorem alike_closing (depth : Nat) : Alike R Eq (closing depth) (closing depth) :=
  (alike_closeParens depth).bind fun _ _ h => alike_connective.map fun _ _ h' =>
    congrArg₂ Prod.mk h h'

theorem alike_front : Alike R Eq front front := by
  refine alike_openParens.bind fun opens opens' h => alike_current.bind fun l m hlm => ?_
  subst h
  refine (alike_eatKeyword _).bind fun b b' hb => (alike_atToken (by nofun)).bind fun o o' ho => ?_
  subst hb ho
  refine .ite rfl ?_ (.pure rfl)
  by_cases hopens : opens = 0
  · simp only [if_pos hopens]
    exact .pure rfl
  · simp only [if_neg hopens]
    exact .throw (.unsupported _ hlm.start)

theorem alike_groupFront : Alike R Eq groupFront groupFront :=
  alike_openParens.map fun _ _ h => by rw [h]

section Chains

variable {κ : Type} {n : κ → κ}

theorem alike_linkOf {front : Parser (Option (Nat × Bool))} {bare bare' : Parser κ}
    {surround : κ → Nat → Bool → Nat → κ} (hfront : Alike R Eq front front)
    (hbare : Alike R (On n) bare bare')
    (hs : ∀ c o b k, n (surround c o b k) = surround (n c) o b k) (depth : Nat) :
    Alike R (On (Prod.map (Link.map n) id)) (linkOf front bare surround depth)
      (linkOf front bare' surround depth) := by
  refine hfront.bind fun r r' hr => ?_
  subst hr
  cases r with
  | none => exact .pure rfl
  | some r =>
    obtain ⟨opens, negated⟩ := r
    refine hbare.bind fun c d hcd => (alike_closing _).map fun x y hxy => ?_
    subst hxy
    have hlink : n (surround c opens negated x.1) = n (surround d opens negated x.1) := by
      rw [hs, hs, hcd]
    simp only [On, Prod.map, Link.map, Option.map_some, hlink]

theorem alike_chainUpTo {link link' : Nat → Parser (Link κ × Nat)}
    (h : ∀ depth, Alike R (On (Prod.map (Link.map n) id)) (link depth) (link' depth)) (k : Nat) :
    ∀ depth, Alike R (On (Chain.map n)) (chainUpTo link k depth) (chainUpTo link' k depth) := by
  induction k with
  | zero => exact fun depth => alike_fail _
  | succ k ih =>
    intro depth
    refine (h depth).bind fun x y hxy => ?_
    obtain ⟨x, after⟩ := x
    obtain ⟨y, after'⟩ := y
    obtain ⟨hlink, rfl⟩ := Prod.mk.inj hxy
    have hconn : (x.map n).connective = (y.map n).connective := congrArg Link.connective hlink
    change x.connective = y.connective at hconn
    simp only [hconn]
    cases y.connective with
    | none => exact .pure (by simp only [On, Chain.map, hlink, List.map_nil])
    | some op =>
      refine (ih after).map fun c d hcd => ?_
      have hlinks : c.links.map (Link.map n) = d.links.map (Link.map n) := congrArg Chain.links hcd
      simp only [On, Chain.map, hlink, hlinks]

end Chains

theorem alike_filter {nested nested' : Parser Query}
    (h : Alike R (On Query.folded) nested nested') :
    Alike R (On (Chain.map Condition.folded)) (filter nested) (filter nested') :=
  .get fun c d hsize => by
    rw [hsize, filterUpTo_eq, filterUpTo_eq]
    refine alike_chainUpTo (alike_linkOf alike_front (alike_condition h) fun c o b k => ?_) _ 0
    cases c
    rfl

theorem alike_groupFilter :
    Alike R (On (Chain.map GroupCondition.folded)) groupFilter groupFilter :=
  .get fun c d hsize => by
    rw [hsize, groupFilterUpTo_eq]
    exact alike_chainUpTo (alike_linkOf alike_groupFront alike_groupCondition
      fun _ _ _ _ => rfl) _ 0

/-! ## Clauses -/

/-- The grouping by the given subjects, unless they are calls and fields. -/
def groupingOf? : Subject → List Subject → Option Grouping
  | .call call, [] => some { call := some call }
  | .field name, [] => some { fields := some (.one name) }
  | s, ss => ((s :: ss).mapM Subject.field?).map fun names => { fields := some (.many names) }

theorem groupingOf_eq (position : Nat) (s : Subject) (ss : List Subject) :
    groupingOf position s ss =
      (groupingOf? s ss).elim (.error (.unsupported .mixedGroupKeys position)) .ok := by
  cases ss with
  | nil => cases s <;> rfl
  | cons a as =>
    cases s <;> simp only [groupingOf, groupingOf?] <;> cases List.mapM Subject.field? _ <;> rfl

/-- The case of letters does not matter to what a grouping is by. -/
theorem folded_groupingOf? (s : Subject) (ss : List Subject) :
    (groupingOf? s ss).map Grouping.folded = groupingOf? s.folded (ss.map Subject.folded) := by
  have hmany (s a : Subject) (as : List Subject) : groupingOf? s (a :: as) =
      ((s :: a :: as).mapM Subject.field?).map fun names => { fields := some (.many names) } := by
    cases s <;> rfl
  cases ss with
  | nil => cases s <;> rfl
  | cons a as =>
    rw [List.map_cons, hmany, hmany, ← List.map_cons, ← List.map_cons, Subject.mapM_field?_folded,
      Option.map_map, Option.map_map]
    rfl

theorem alike_grouping : Alike R (On Grouping.folded) grouping grouping := by
  refine alike_current.bind fun l m hlm => alike_subject.commaSeparated.bind fun x y hxy => ?_
  obtain ⟨s, ss⟩ := x
  obtain ⟨t, ts⟩ := y
  obtain ⟨hs, hss⟩ := Prod.mk.inj hxy
  have h : (groupingOf? s ss).map Grouping.folded = (groupingOf? t ts).map Grouping.folded := by
    rw [folded_groupingOf?, folded_groupingOf?, hs, hss]
  simp only [groupingOf_eq]
  cases hg : groupingOf? s ss with
  | none =>
    rw [hg, Option.map_none, eq_comm, Option.map_eq_none_iff] at h
    rw [h]
    exact .throw (.unsupported _ hlm.start)
  | some g =>
    rw [hg, Option.map_some, eq_comm, Option.map_eq_some_iff] at h
    obtain ⟨g', hg', heq⟩ := h
    rw [hg']
    exact .pure heq.symm

theorem alike_order : Alike R Eq order? order? := by
  refine (alike_keywordInView _).bind fun o o' ho => ?_
  subst ho
  cases o with
  | none => exact .pure rfl
  | some order => exact alike_advance.map fun _ _ _ => rfl

/-- The same result of a clause, or none. -/
theorem Alike.sameClause {α : Type} {item item' : Parser α} (h : Alike R Eq item item') (w : Text) :
    Alike R (On id) (Parser.afterKeyword w item) (Parser.afterKeyword w item') := by
  have hitem : Alike R (On id) item item' := h
  refine (hitem.afterKeyword w).mono fun o o' ho => ?_
  rwa [On, Option.map_id] at ho

theorem alike_sortKey : Alike R (On SortKey.folded) sortKey sortKey := by
  refine alike_subject.bind fun s t hs => alike_order.bind fun order order' ho => ?_
  refine ((alike_expectKeywordOf _).sameClause _).map fun nulls nulls' hn => ?_
  simp only [On, SortKey.folded, Subject.field?_eq hs, Subject.call?_eq hs, ho]
  rw [show nulls = nulls' from hn]

theorem alike_sorting : Alike R (On SortKeys.folded) sorting sorting := by
  rw [sorting_eq]
  refine alike_sortKey.commaSeparated.map fun x y hxy => ?_
  obtain ⟨k, ks⟩ := x
  obtain ⟨k', ks'⟩ := y
  obtain ⟨hk, hks⟩ := Prod.mk.inj hxy
  cases ks with
  | nil =>
    obtain rfl := List.map_eq_nil_iff.1 hks.symm
    exact congrArg SortKeys.one hk
  | cons a as =>
    cases ks' with
    | nil => cases hks
    | cons b bs => exact congrArg SortKeys.many (congrArg₂ List.cons hk hks)

theorem alike_categories : Alike R (On (List.map fold)) categories categories := by
  refine .ifToken (by nofun) ?_
    ((alike_identifier _).map fun a b hab => congrArg (fun t => [t]) hab)
  refine alike_advance.bind fun _ _ _ => (alike_identifier _).commaSeparated.bind fun x y hxy => ?_
  obtain ⟨h, hs⟩ := Prod.mk.inj hxy
  exact (alike_expect (by nofun) _).map fun _ _ _ => congrArg₂ List.cons h hs

theorem alike_categoryCondition :
    Alike R (On CategoryCondition.folded) categoryCondition categoryCondition := by
  refine (alike_identifier _).bind fun a b hab => (alike_expectKeywordOf _).bind fun k k' hk => ?_
  refine alike_categories.map fun as bs habs => ?_
  simp only [On, CategoryCondition.folded, hk]
  rw [hab, habs]

end Parser

/-- The clause in lower case. -/
def WithClause.folded : WithClause → WithClause
  | securityEnforced => securityEnforced
  | categories conditions => categories (conditions.map CategoryCondition.folded)

namespace Parser

theorem alike_withClause : Alike R (On WithClause.folded) withClause withClause := by
  refine .ifKeyword (.pure rfl) (.ifKeyword ?_ (alike_fail _))
  refine (alike_expectKeyword _).bind fun _ _ _ => alike_categoryCondition.bind fun a b hab => ?_
  exact (alike_categoryCondition.afterKeyword _).many.map fun as bs habs =>
    congrArg WithClause.categories (congrArg₂ List.cons hab habs)

theorem alike_withClauses : Alike R (On (List.map WithClause.folded)) withClauses withClauses :=
  (alike_withClause.afterKeyword _).many

theorem alike_branchFields : Alike R (On (List.map fold)) branchFields branchFields :=
  alike_dottedPath.commaSeparated.map fun _ _ h =>
    congrArg₂ List.cons (congrArg Prod.fst h) (congrArg Prod.snd h)

theorem alike_whenBranch : Alike R (On TypeBranch.folded) whenBranch whenBranch := by
  refine (alike_identifier _).bind fun a b hab => (alike_expectKeyword _).bind fun _ _ _ => ?_
  refine alike_branchFields.map fun as bs habs => ?_
  simp only [On, TypeBranch.folded, Option.map_some]
  rw [hab, habs]

theorem alike_elseBranch : Alike R (On TypeBranch.folded) elseBranch elseBranch :=
  alike_branchFields.map fun as bs habs => by
    simp only [On, TypeBranch.folded]
    rw [habs]

theorem alike_typeOf : Alike R (On TypeOf.folded) typeOf typeOf := by
  refine alike_dottedPath.bind fun a b hab => ?_
  refine (alike_whenBranch.afterKeyword _).many.bind fun as bs habs => ?_
  refine (alike_elseBranch.afterKeyword _).bind fun o o' ho => ?_
  refine (alike_expectKeyword _).map fun _ _ _ => ?_
  have hlast : o.toList.map TypeBranch.folded = o'.toList.map TypeBranch.folded := by
    cases o <;> cases o' <;> simp_all [On]
  simp only [On, TypeOf.folded, List.map_append, hlast]
  rw [hab, habs]

/-! ## Fields -/

theorem fold_lastName (a : Text) (as : List Text) :
    (lastName a as).fold = lastName a.fold (as.map fold) := by
  have hne : (a :: as).map fold ≠ [] := List.cons_ne_nil _ _
  exact (List.getLast_map hne).symm

theorem fold_pathNames (a : Text) (as : List Text) :
    (pathNames a as).map fold = pathNames a.fold (as.map fold) := List.map_dropLast

theorem folded_fieldOf (a : Text) (as : List Text) (x : Option Text) :
    (fieldOf a as x).folded = fieldOf a.fold (as.map fold) (x.map fold) := by
  cases as with
  | nil => rfl
  | cons b bs =>
    simp only [fieldOf, Field.folded, PathField.folded, fold_lastName, fold_pathNames,
      List.map_cons, Option.map_none]

theorem alike_namedField : Alike R (On Field.folded) namedField namedField := by
  refine alike_current.bind fun l m _ => (alike_identifier _).bind fun a b hab => ?_
  refine .ifToken (by nofun) ?_ ?_
  · refine (alike_call hab).bind fun c d hcd => alike_aliasName.map fun x y hxy => ?_
    obtain ⟨name, args, _, aggregate, _⟩ := c
    obtain ⟨name', args', _, aggregate', _⟩ := d
    simp only [On, Call.folded, Call.mk.injEq] at hcd
    obtain ⟨hname, hargs, -, rfl, -⟩ := hcd
    simp only [On, Field.folded, Call.folded, hname, hargs]
    rw [hxy]
  · refine alike_pathRest.bind fun as bs habs => alike_aliasName.map fun x y hxy => ?_
    simp only [On] at habs hxy
    rw [On, folded_fieldOf, folded_fieldOf, hab, habs, hxy]

theorem alike_field {nested nested' : Parser Query}
    (h : Alike R (On Query.folded) nested nested') :
    Alike R (On Field.folded) (field nested) (field nested') := by
  rw [field_eq, field_eq]
  refine .ifToken (by nofun) ?_ (.ifKeyword ?_ alike_namedField)
  · refine alike_advance.bind fun _ _ _ => h.bind fun q q' hq => ?_
    exact (alike_expect (by nofun) _).map fun _ _ _ => congrArg Field.subquery hq
  · exact alike_typeOf.map fun e e' he => congrArg Field.typeOf he

theorem alike_source (isNested : Bool) :
    Alike R (On Source.folded) (source isNested) (source isNested) := by
  rw [source_eq]
  refine alike_path.map fun x y hxy => ?_
  obtain ⟨h, hs⟩ := Prod.mk.inj hxy
  cases isNested with
  | false => exact congrArg Source.object (fold_dotted h hs)
  | true =>
    refine congrArg₂ Source.relationship ?_ ?_
    · rw [fold_lastName, fold_lastName, h, hs]
    · rw [fold_pathNames, fold_pathNames, h, hs]

/-- The case of letters does not matter to whether a path starts with the alias of the source. -/
theorem folded_qualify (a : Text) (f : Field) :
    (f.qualify a).folded = f.folded.qualify a.fold := by
  cases f with
  | path f =>
    obtain ⟨name, path, owner, aliasName⟩ := f
    cases path with
    | nil => rfl
    | cons p ps =>
      simp only [Field.qualify, Field.folded, PathField.folded, List.map_cons,
        sameWord_fold_left, sameWord_fold_right]
      split
      · cases ps <;> rfl
      · rfl
  | _ => rfl

/-! ## Queries -/

theorem alike_groupingClause :
    Alike R (On (Option.map Grouping.folded)) groupingClause groupingClause := by
  have hkeys : Alike R (On (Option.map Grouping.folded)) grouping? grouping? :=
    Alike.afterKeyword ((alike_expectKeyword _).bind fun _ _ _ => alike_grouping) _
  refine hkeys.bind fun g g' hg => alike_current.bind fun l m hlm => ?_
  refine (alike_groupFilter.afterKeyword _).bind fun o o' ho => ?_
  cases o with
  | none =>
    cases o' with
    | none => exact .pure hg
    | some having' => cases ho
  | some having =>
    cases o' with
    | none => cases ho
    | some having' =>
      cases g with
      | none =>
        cases g' with
        | none => exact .throw (.unsupported _ hlm.start)
        | some g' => cases hg
      | some g =>
        cases g' with
        | none => cases hg
        | some g' =>
          refine .pure ?_
          have hkeys := Option.some.inj hg
          simp only [Grouping.folded, Grouping.mk.injEq] at hkeys
          simp only [On, Option.map_some, Grouping.folded, hkeys.1, hkeys.2.1,
            Option.some.inj ho]

/-- The clauses in lower case. -/
def foldMiddle (x : Middle) : Middle :=
  (x.1.map Grouping.folded, x.2.1.map SortKeys.folded, x.2.2)

theorem alike_middle : Alike R (On foldMiddle) middle middle := by
  have hsorting : Alike R (On (Option.map SortKeys.folded)) sorting? sorting? :=
    Alike.afterKeyword ((alike_expectKeyword _).bind fun _ _ _ => alike_sorting) _
  exact alike_groupingClause.both (hsorting.both
    (((alike_rowCount _).sameClause _).both ((alike_rowCount _).sameClause _)))

/-- The clauses after the source in lower case. -/
def foldTail (x : Tail) : Tail :=
  (x.1.map (Chain.map Condition.folded), (foldMiddle x.2.1.1, x.2.1.2.map WithClause.folded), x.2.2)

theorem alike_tail {nested nested' : Parser Query}
    (h : Alike R (On Query.folded) nested nested') :
    Alike R (On foldTail) (tail nested) (tail nested') := by
  have hbody : Alike R (On (Prod.map foldMiddle (List.map WithClause.folded))) body body := by
    refine alike_withClauses.bind fun ws ws' hws => alike_middle.bind fun x x' hx => ?_
    refine alike_withClauses.map fun zs zs' hzs => ?_
    simp only [On, Prod.map, List.map_append]
    rw [hx, hws, hzs]
  exact ((alike_filter h).afterKeyword _).both (hbody.both
    (((alike_expectKeywordOf _).sameClause _).both ((alike_expectKeywordOf _).sameClause _)))

end Parser

theorem lastCategories_folded (ws : List WithClause) :
    Parser.lastCategories (ws.map WithClause.folded) =
      (Parser.lastCategories ws).map (List.map CategoryCondition.folded) := by
  induction ws with
  | nil => rfl
  | cons w ws ih =>
    cases w with
    | securityEnforced => exact ih
    | categories conditions =>
      rw [List.map_cons, WithClause.folded, Parser.lastCategories, Parser.lastCategories, ih]
      cases Parser.lastCategories ws <;> rfl

theorem contains_securityEnforced_folded (ws : List WithClause) :
    (ws.map WithClause.folded).contains .securityEnforced = ws.contains .securityEnforced := by
  induction ws with
  | nil => rfl
  | cons w ws ih =>
    rw [List.map_cons, List.contains_cons, List.contains_cons, ih]
    cases w <;> rfl

namespace Parser

theorem folded_qualifyAll (a : Option Text) (fs : List Field) :
    (qualifyAll a fs).map Field.folded = qualifyAll (a.map fold) (fs.map Field.folded) := by
  cases a with
  | none => rfl
  | some a =>
    rw [Option.map_some, qualifyAll, qualifyAll, List.map_map, List.map_map]
    exact List.map_congr_left fun f _ => folded_qualify a f

theorem folded_queryOf (fs : List Field) (s : Source × Option Text) (t : Tail) :
    (queryOf fs s t).folded =
      queryOf (fs.map Field.folded) (Prod.map Source.folded (Option.map fold) s) (foldTail t) := by
  simp only [queryOf, Query.folded, Field.foldAll_eq, folded_qualifyAll, Condition.foldFilter_eq,
    foldTail, foldMiddle, Prod.map, lastCategories_folded, contains_securityEnforced_folded]

theorem alike_selectWith {nested nested' : Bool → Parser Query}
    (h : ∀ b, Alike R (On Query.folded) (nested b) (nested' b)) (isNested : Bool) :
    Alike R (On Query.folded) (selectWith nested isNested) (selectWith nested' isNested) := by
  have hfrom : Alike R (On (Prod.map Source.folded (Option.map fold))) (fromClause isNested)
      (fromClause isNested) :=
    (alike_expectKeyword _).bind fun _ _ _ => (alike_source isNested).both alike_aliasName
  rw [selectWith_eq, selectWith_eq]
  refine (alike_expectKeyword _).bind fun _ _ _ => ?_
  refine ((alike_field (h true)).commaSeparated.both
    (hfrom.both (alike_tail (h false)))).map fun x y hxy => ?_
  obtain ⟨⟨f, fs⟩, s, t⟩ := x
  obtain ⟨⟨g, gs⟩, s', t'⟩ := y
  obtain ⟨hfields, hrest⟩ := Prod.mk.inj hxy
  obtain ⟨hf, hfs⟩ := Prod.mk.inj hfields
  obtain ⟨hs, ht⟩ := Prod.mk.inj hrest
  have hall : (f :: fs).map Field.folded = (g :: gs).map Field.folded := congrArg₂ List.cons hf hfs
  rw [On, Selection.query, Selection.query, folded_queryOf, folded_queryOf, hall, hs, ht]

theorem alike_selectUpTo (n : Nat) :
    ∀ isNested, Alike R (On Query.folded) (selectUpTo n isNested) (selectUpTo n isNested) := by
  induction n with
  | zero => exact fun _ => alike_fail _
  | succ n ih => exact alike_selectWith ih

theorem alike_query : Alike R (On Query.folded) query query := by
  have hselect : Alike R (On Query.folded) select select := .get fun c d hsize => by
    rw [hsize]
    exact alike_selectUpTo _ false
  exact hselect.bind fun q q' hq => (alike_expect (by nofun) _).map fun _ _ _ => hq

end Parser

/-! ## Texts -/

/-- Where the lexemes start, and at last where the text ends. -/
def Lexemes.starts : Lexemes → List Nat
  | next lexeme rest => lexeme.start :: rest.starts
  | finish length => [length]
  | stuck _ | broken _ _ => []

/-- The tokens of a text in lower case. -/
def Text.foldedTokens (s : Text) : List Token :=
  (Lexemes.ofText s).toList.map fun lexeme => lexeme.token.folded

/-- The positions are the starts of tokens with the same index, one in each text. -/
def SameIndex (s t : Text) (i j : Nat) : Prop :=
  ∃ k : Nat, (Lexemes.ofText s).starts[k]? = some i ∧ (Lexemes.ofText t).starts[k]? = some j

theorem Lexemes.alike_of_tokens {ls ms : Lexemes} {R : Nat → Nat → Prop}
    (hl : ls.ending.isOk = true) (hm : ms.ending.isOk = true)
    (h : (ls.toList.map fun l => l.token.folded) = ms.toList.map fun m => m.token.folded)
    (hR : ∀ (k : Nat) i j, ls.starts[k]? = some i → ms.starts[k]? = some j → R i j) :
    Lexemes.Alike R ls ms := by
  induction ls generalizing ms with
  | next l ls ih =>
    cases ms with
    | next m ms =>
      obtain ⟨htoken, htokens⟩ := List.cons.inj h
      exact .next ⟨htoken, hR 0 _ _ rfl rfl⟩ (ih hl hm htokens fun k => hR (k + 1))
    | _ => cases h
  | finish i =>
    cases ms with
    | next m ms => cases h
    | finish j => exact .finish (hR 0 _ _ rfl rfl)
    | _ => cases hm
  | _ => cases hl

/-- Every cursor at the first lexeme of a text is in a text. -/
theorem exists_at_ofText {s : Text} {c : Cursor}
    (h : Cursor.ofLexemes (Lexemes.ofText s) = .ok c) : ∃ E T ps, At E T ps c := by
  obtain ⟨ps, E, hs, hfit, hlex, -⟩ := exists_pieces s
  refine ⟨E, s.length, ps, hfit, ?_, hlex ▸ h⟩
  rw [← hs]

theorem exists_cursors {R : Nat → Nat → Prop} {s t : Text}
    (h : Lexemes.Alike R (Lexemes.ofText s) (Lexemes.ofText t)) :
    ∃ c d, Cursor.ofLexemes (Lexemes.ofText s) = .ok c ∧
      Cursor.ofLexemes (Lexemes.ofText t) = .ok d ∧ Cursor.Alike R c d := by
  obtain ⟨l, m, ls, ms, hs, ht, hcur, hahead⟩ := h.pull
  have hc : Cursor.ofLexemes (Lexemes.ofText s) = .ok ⟨l, ls⟩ := by rw [Cursor.ofLexemes, hs]
  have hd : Cursor.ofLexemes (Lexemes.ofText t) = .ok ⟨m, ms⟩ := by rw [Cursor.ofLexemes, ht]
  exact ⟨_, _, hc, hd, hcur, hahead, exists_at_ofText hc, exists_at_ofText hd⟩

theorem Token.literal?_folded (t : Token) : t.folded.literal? = t.literal? := by
  cases t <;> rfl

theorem literals_eq {s t : Text} (h : s.foldedTokens = t.foldedTokens) :
    s.literals = t.literals := by
  have hliterals (u : Text) : u.literals = u.foldedTokens.filterMap Token.literal? := by
    rw [Text.literals, Text.foldedTokens, List.filterMap_map]
    simp only [Function.comp_def, Token.literal?_folded]
  rw [hliterals, hliterals, h]

namespace Query

/-- **The query of a text depends on its tokens only, and on words only up to ASCII case.**  Of two
    texts with the same tokens in that sense, both stand for queries that are the same in lower
    case and have the same string literals, or both are refused with the same error at the same
    token. -/
theorem parse_alike {s t : Text} (hs : (Lexemes.ofText s).ending.isOk = true)
    (ht : (Lexemes.ofText t).ending.isOk = true) (h : s.foldedTokens = t.foldedTokens) :
    (∃ p q, Query.parse s = .ok p ∧ Query.parse t = .ok q ∧ p.folded = q.folded ∧
      p.strings.map Prod.snd = q.strings.map Prod.snd) ∨
    ∃ e e', Query.parse s = .error e ∧ Query.parse t = .error e' ∧
      ParseError.Alike (SameIndex s t) e e' := by
  have halike : Lexemes.Alike (SameIndex s t) (Lexemes.ofText s) (Lexemes.ofText t) :=
    Lexemes.alike_of_tokens hs ht h fun k i j hi hj => ⟨k, hi, hj⟩
  obtain ⟨c, d, hc, hd, hcd⟩ := exists_cursors halike
  rcases Parser.alike_query hcd with ⟨p, q, c', d', hp, hq, hpq, -⟩ | ⟨e, e', c', d', he, he', hee⟩
  · have hp : Query.parse s = .ok p := by simp only [Query.parse, hc, hp]
    have hq : Query.parse t = .ok q := by simp only [Query.parse, hd, hq]
    refine Or.inl ⟨p, q, hp, hq, hpq, ?_⟩
    rw [strings_eq_literals hp, strings_eq_literals hq, literals_eq h]
  · refine Or.inr ⟨e, e', ?_, ?_, hee⟩
    · simp only [Query.parse, hc, he]
    · simp only [Query.parse, hd, he']

/-- Keywords, aliases, functions and relative dates in another case and with other blanks, and a
    word that is no value at another position. -/
theorem parse_alike_spelled :
    (∃ p q : Query,
      Query.parse "SELECT a.Id, max(f( X )) FROM A a WHERE g(h(Y)) < Today AND B = 'Bc'" = .ok p ∧
      Query.parse "select A.ID,MAX(F(x))from a A where G( H(y)) < TODAY and b='Bc'" = .ok q ∧
      p.folded = q.folded ∧ p.strings.map Prod.snd = q.strings.map Prod.snd) ∧
    ∃ e e', Query.parse "SELECT Id FROM X WHERE A = none" = .error e ∧
      Query.parse "select  id from x where a  =  NONE" = .error e' ∧
      ParseError.Alike (SameIndex "SELECT Id FROM X WHERE A = none"
        "select  id from x where a  =  NONE") e e' := by
  constructor
  · have hok : (Query.parse
        "SELECT a.Id, max(f( X )) FROM A a WHERE g(h(Y)) < Today AND B = 'Bc'").isOk = true := by
      decide +kernel
    rcases parse_alike (s := "SELECT a.Id, max(f( X )) FROM A a WHERE g(h(Y)) < Today AND B = 'Bc'")
      (t := "select A.ID,MAX(F(x))from a A where G( H(y)) < TODAY and b='Bc'") (by decide +kernel)
      (by decide +kernel) (by decide +kernel) with h | ⟨e, e', he, -⟩
    · exact h
    · rw [he] at hok
      cases hok
  · have hfails : (Query.parse "SELECT Id FROM X WHERE A = none").isOk = false := by decide +kernel
    rcases parse_alike (s := "SELECT Id FROM X WHERE A = none")
      (t := "select  id from x where a  =  NONE") (by decide +kernel)
      (by decide +kernel) (by decide +kernel) with ⟨p, q, hp, -⟩ | h
    · rw [hp] at hfails
      cases hfails
    · exact h

end Query

end Soql
