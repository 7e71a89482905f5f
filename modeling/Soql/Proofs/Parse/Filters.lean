/-
  The filters of `WHERE` and `HAVING`, read and read back.

  * `comparing`: a subject, an operator and what it is compared with.
  * `comparand`: what a condition of `WHERE` compares with.
  * `whereKind`, `havingKind`: the two kinds of filters.
  * `reads_filter`, `reads_groupFilter`: filters are read back from their
    texts under every layout.
-/
import Mathlib
import Soql.Proofs.Parse.Links

namespace Soql

open Unicode Token Soql.Parser

namespace Parser

/-! ## Comparisons -/

section Comparing

variable {ρ : Type}

/-- A subject, an operator and what the subject is compared with. -/
def comparing (right : Parser ρ) : Parser (Subject × Comparison × ρ) := do
  let s ← subject
  let k ← comparison
  let r ← right
  return (s, k, r)

/-- The part of a subject. -/
theorem SubjectPhrase.feeds {us : List Piece} {s : Subject} (h : SubjectPhrase us s) :
    Feeds [(0, .subject s.field? s.call?)] := by
  obtain ⟨vs, hvs, hsp⟩ := h.written
  cases s with
  | field path => exact hvs.feeds_part (p := .subject (some path) none) hsp
  | call c => exact hvs.feeds_part (p := .subject none (some c)) hsp

theorem SubjectPhrase.literals_eq {us : List Piece} {s : Subject} (h : SubjectPhrase us s) :
    literals us = stringsAt 0 [(0, .subject s.field? s.call?)] := by
  obtain ⟨vs, hvs, hsp⟩ := h.written
  rw [stringsAt_top, hvs.literals_eq, hsp]
  rfl

/-- A comparison is read back if what is compared with is. -/
theorem Laid.comparing {right : Nat → Nat → Parser ρ} {R : ρ → Prop} {ps : List (Nat × Part)}
    {rtext : Layout → Text} {us : List Piece} {s : Subject} (hs : SubjectPhrase us s)
    (k : Comparison) (hr : Laid right (· ≠ .colon) R ps (fun vs => vs ≠ [] ∧ Tight vs) rtext) :
    Laid (fun m n => comparing (right m n)) (· ≠ .colon)
      (fun r => r.1 = s ∧ r.2.1 = k ∧ R r.2.2) ((0, .subject s.field? s.call?) :: ps) (Starts us)
      fun l => s.text ++ " " ++ Keyword.spelling k ++ " " ++ rtext l := by
  intro l t hl
  obtain ⟨vs, hvs, hsp⟩ := hs.written
  obtain ⟨cs, hcsp, hccl, hclit, hcnl, hcend, hcne, hcrun⟩ := exists_comparison k
  obtain ⟨rs, hrsp, hrcl, hrlit, ⟨hrne, hrtight⟩, hrrun⟩ := hr l t hl
  have hvne : inView vs ≠ .finish := hvs.inView ▸ hvs.starts
  refine ⟨vs ++ ([Piece.space] ++ (cs ++ ([Piece.space] ++ rs))), ?_, ?_, ?_, ⟨?_, ?_⟩,
    fun i hi => ?_⟩
  · simp [hsp, hcsp, hrsp]
  · refine hvs.closed.append (closed_space (hccl.append (closed_space hrcl) ?_)) ?_
    · exact clean_cons (c := ' ') (by decide) _
    · exact clean_cons (c := ' ') (by decide) _
  · rw [stringsAt_cons, ← hrlit, stringsAt_top]
    have : (Part.subject s.field? s.call?).text.literals = literals vs := by
      rw [← literals_spell hvs.closed.fits, hsp]
      rfl
    simp [hclit, this]
  · rw [inView_append hvne, hvs.inView]
  · have := hvs.tight.append hrtight (ne_nil_of_inView hvne) hrne
      ([Piece.space] ++ (cs ++ [Piece.space]))
    simpa using this
  · have hi' : MayIndent i t ([(0, .subject s.field? s.call?)] ++ ps) := hi
    obtain ⟨r, hR, hrun⟩ := hrrun i hi'.right
    refine ⟨(s, k, r), ⟨rfl, rfl, hR⟩, fun m n hm hn ds hds => ?_⟩
    have hsub : indentAll i vs = vs := hi'.left.indentAll_eq hsp
    simp only [count_append, count_space, count_nil] at hm hn
    simp only [indentAll_append, hsub, indentAll_of_not_mem hcnl]
    have hview : EndsName (inView (indentAll i [Piece.space] ++ (cs ++ (indentAll i [Piece.space] ++
        indentAll i rs)) ++ ds)) := by
      rw [List.append_assoc, (blank_space.indentAll i).inView_append, List.append_assoc,
        inView_append hcne]
      exact hcend
    refine (hvs.run _ hview).bind (Run.blank_append (blank_space.indentAll i) ?_)
    refine (hcrun _).bind (Run.blank_append (blank_space.indentAll i) ?_)
    exact (hrun m n (by omega) (by omega) ds hds).bind_pure fun r => (s, k, r)

end Comparing

/-! ## What a condition of `WHERE` compares with -/

/-- A value and its kinds, or a query. -/
abbrev Comparand := Option FilterValue × Option LiteralKinds × Option Query

/-- A list of values with their kinds. -/
def listComparand (values : List (Text × LiteralKind)) : Comparand :=
  (some (.list (values.map (·.1))), some (.ofList (values.map (·.2))), none)

/-- One value with its kind. -/
def singleComparand (v : Text × LiteralKind) : Comparand :=
  (some (.single v.1), some (.uniform v.2), none)

/-- What a condition compares with; `nested` reads a query between parentheses. -/
def comparand (nested : Parser Query) : Parser Comparand := do
  if ← atToken .openParen then
    let _ ← advance
    if ← atKeyword "SELECT" then
      let query ← nested
      let _ ← expect .closeParen .subqueryClose
      return (none, none, some query)
    else
      let values ← valueList
      return listComparand values
  else
    let v ← value
    return singleComparand v

/-- A query or values between parentheses, with the closing one. -/
def enclosed (nested : Parser Query) : Parser Comparand := do
  if ← atKeyword "SELECT" then
    let query ← nested
    let _ ← expect .closeParen .subqueryClose
    return (none, none, some query)
  else
    let values ← valueList
    return listComparand values

/-- The parts of what a condition compares with. -/
def comparandParts (r : Comparand) : List (Nat × Part) := Query.partsOption r.1 r.2.1 r.2.2

/-- What a condition compares with, without source texts. -/
def forgetComparand (r : Comparand) : Comparand := (r.1, r.2.1, Query.forgetOption r.2.2)

/-- What a condition compares with is read back from its text. -/
structure ComparandPhrase (us : List Piece) (r : Comparand) : Prop where
  literals : literals us = stringsAt 0 (comparandParts r)
  feeds : Feeds (comparandParts r)
  laid : Laid (fun m _ => comparand (selectUpTo m false)) (· ≠ .colon)
    (fun r' => forgetComparand r' = forgetComparand r) (comparandParts r)
    (fun vs => vs ≠ [] ∧ Tight vs) fun l => (Compose.valueText l r.1 r.2.1 r.2.2).value

/-- A phrase is what a condition compares with. -/
theorem ComparandPhrase.value {us vs : List Piece} {v : FilterValue} {kinds : LiteralKinds}
    (h : ∀ nested, Phrase (comparand nested) (· ≠ .colon) [] us (some v, some kinds, none) vs)
    (hv : spell vs = v.render (some kinds)) : ComparandPhrase us (some v, some kinds, none) := by
  refine ⟨?_, ?_, ?_⟩
  · simp only [comparandParts, Query.partsOption, Option.toList, List.map_cons, List.map_nil,
      stringsAt_top]
    rw [(h query).literals_eq, hv]
    rfl
  · exact (h query).feeds_part (p := .value v (some kinds)) hv
  · have := Phrase.laid (p := .value v (some kinds)) (fun m => h (selectUpTo m false)) hv
    exact this.mono (fun _ => id) (fun r' hr => by rw [hr])
      fun vs hs => ⟨ne_nil_of_inView (hs.ne_finish (h query).starts), hs.2⟩

theorem run_comparand_query {nested : Parser Query} {os us cs ds : List Piece} {q : Query}
    (ho : Single .openParen os) (hs : (inView (us ++ cs ++ ds)).isKeyword "SELECT" = true)
    (hc : Single .closeParen cs) (h : Run nested us q (cs ++ ds)) :
    Run (comparand nested) (os ++ (us ++ cs)) (none, none, some q) ds := by
  refine run_ifToken ho (Run.answer (run_atKeyword _ _) ?_)
  rw [hs]
  exact h.upTo hc _ fun q => (none, none, some q)

theorem ComparandPhrase.query {us os cs : List Piece} {q : Query} (ho : Single .openParen os)
    (h : QueryPhrase false us q .closeParen) (hc : Single .closeParen cs) :
    ComparandPhrase (os ++ (us ++ cs)) (none, none, some q) := by
  refine ⟨?_, ?_, fun l k hl => ?_⟩
  · simp [comparandParts, Query.partsOption, ho.literals, hc.literals, h.literals, literal?]
  · simpa [comparandParts, Query.partsOption] using h.feeds
  · obtain ⟨vs, hsp, hcl, hlit, hview, htight, hrun⟩ := h.subquery 1 true hl
    refine ⟨vs, hsp, hcl, hlit, ⟨ne_nil_of_inView (by simp [hview]), htight⟩, fun i hi => ?_⟩
    obtain ⟨p, hp, ws, cs', heq, hws, hcs, hrun⟩ := hrun i hi
    refine ⟨(none, none, some p), by simp [forgetComparand, Query.forgetOption, hp],
      fun m n hm hn ds _ => ?_⟩
    simp only [heq]
    have hselect : (inView (ws ++ cs' ++ ds)).isKeyword "SELECT" = true := by
      rw [List.append_assoc, inView_append (by simp [hws]), hws]
      decide
    exact run_comparand_query (Single.mark .openParen rfl) hselect hcs (hrun m (by omega) ds)

theorem run_comparand_list {os us ds : List Piece} {values : List (Text × LiteralKind)}
    (ho : Single .openParen os) (hs : (inView (us ++ ds)).isKeyword "SELECT" = false)
    (h : Run valueList us values ds) (nested : Parser Query) :
    Run (comparand nested) (os ++ us) (listComparand values) ds := by
  refine run_ifToken ho (Run.answer (run_atKeyword _ _) ?_)
  rw [hs]
  exact h.bind_pure listComparand

theorem ComparandPhrase.list {os us : List Piece} {values : List (Text × LiteralKind)}
    (ho : Single .openParen os) (hs : (inView us).isKeyword "SELECT" = false)
    (h : ∃ ws, Phrase valueList (fun _ => True) [] us values ws ∧
      spell ws = listText (values.map valueText)) :
    ComparandPhrase (os ++ us) (listComparand values) := by
  obtain ⟨ws, hws, hsp⟩ := h
  refine .value (fun nested => hws.opened ho fun ds _ => ?_) (by simp [render_list, hsp, spelling])
  refine run_comparand_list (Single.mark .openParen rfl) ?_ (hws.run ds trivial) nested
  rwa [inView_append (hws.inView ▸ hws.starts), hws.inView]

theorem ComparandPhrase.single {us : List Piece} {v : Text × LiteralKind}
    (h : ValuePhrase Parser.value valueText us v) : ComparandPhrase us (singleComparand v) := by
  obtain ⟨⟨vs, hvs, hsp⟩, hne, -⟩ := h
  refine .value (fun nested => ⟨hvs.closed, hvs.literals, hvs.inView, hvs.starts,
    hvs.tight, hvs.feeds, fun ds hds => ?_⟩) hsp
  refine Run.answer (run_atToken _ _) ?_
  rw [inView_append (hvs.inView ▸ hvs.starts), hvs.inView, beq_eq_false_iff_ne.2 hne]
  exact (hvs.run ds hds).bind_pure singleComparand

theorem reads_enclosed {nested : Parser Query} (hn : ReadsQuery nested false) :
    Reads (enclosed nested) fun us r _ =>
      ∀ os, Single .openParen os → ComparandPhrase (os ++ us) r := by
  refine Reads.answer (atKeyword_eq _) fun isQuery => ?_
  cases isQuery with
  | true =>
    refine (hn.upToClose .subqueryClose fun q => ((none, none, some q) : Comparand)).mono ?_
    rintro _ _ ds ⟨us, cs, q, rfl, hq, hcs, rfl⟩ - os ho
    exact .query ho hq hcs
  | false =>
    refine (reads_valueList.bind fun values => Reads.pure (listComparand values)).mono ?_
    rintro _ _ ds ⟨us, values, _, rfl, ⟨ws, hws, hsp⟩, rfl, rfl⟩ hselect os ho
    rw [List.append_nil] at hselect ⊢
    rw [inView_append hws.starts] at hselect
    exact .list ho hselect ⟨ws, hws, hsp⟩

theorem reads_comparand {nested : Parser Query} (hn : ReadsQuery nested false) :
    Reads (comparand nested) fun us r _ => ComparandPhrase us r := by
  refine (Reads.ifToken (by simp) (reads_enclosed hn)
    (reads_value.bind fun v => Reads.pure (singleComparand v))).mono ?_
  rintro _ _ ds (⟨os, us, rfl, ho, h⟩ | ⟨-, us, v, _, rfl, hv, rfl, rfl⟩)
  · exact h os ho
  · rw [List.append_nil]
    exact .single hv

/-! ## `WHERE` -/

/-- The condition that compares a subject. -/
def conditionOf (r : Subject × Comparison × Comparand) : Condition :=
  { opens := 0, closes := 0, negated := false, field := r.1.field?, call := r.1.call?
    comparison := r.2.1, value := r.2.2.1, kinds := r.2.2.2.1, query := r.2.2.2.2 }

theorem condition_eq (nested : Parser Query) :
    condition nested = comparing (comparand nested) >>= fun r => pure (conditionOf r) := by
  unfold condition comparing comparand
  simp only [bind_assoc, pure_bind]
  congr 1; funext s
  congr 1; funext k
  congr 1; funext b
  cases b with
  | false => simp [conditionOf, singleComparand]
  | true =>
    simp only [if_true, bind_assoc]
    congr 1; funext _
    congr 1; funext b
    cases b <;> simp [conditionOf, listComparand]

end Parser

/-- The condition with parentheses and a negation around it. -/
def Condition.surround (c : Condition) (opens : Nat) (negated : Bool) (closes : Nat) : Condition :=
  { c with opens, closes, negated }

namespace Parser

/-- The filters of `WHERE`. -/
def whereKind : LinkKind Condition where
  link m := linkOf front (condition (selectUpTo m false)) Condition.surround
  forget := Condition.forgetSources
  parts := Condition.parts
  text l c := (Compose.condition l c).value

theorem spell_frontPieces (opens : Nat) (negated : Bool) :
    spell (frontPieces (some (opens, negated))) =
      List.replicate opens '(' ++ if negated then ("NOT " : Text) else [] := by
  rw [frontPieces, spell_append, spell_replicate (c := '(') _ _ rfl]
  cases negated <;> rfl

theorem surrounds_where : whereKind.Surrounds front (fun _ => True)
    (fun m => condition (selectUpTo m false)) Condition.surround
    fun l c => (Compose.condition l (c.surround 0 false 0)).value where
  link _ := rfl
  front := reads_front
  forget c _ _ _ := by cases c; rfl
  parts c _ _ _ := by cases c; rfl
  text l c opens negated closes _ := by
    rw [spell_frontPieces]
    cases negated <;> simp [whereKind, Condition.surround, Compose.condition, Keyword.spelling]

theorem reads_condition {nested : Parser Query} (hn : ReadsQuery nested false) :
    Reads (condition nested) fun us c _ => whereKind.BarePhrase
      (fun m => condition (selectUpTo m false))
      (fun l c => (Compose.condition l (c.surround 0 false 0)).value) us c := by
  simp only [condition_eq]
  refine ((reads_subject.bind fun s => reads_comparison.bind fun k => (reads_comparand hn).bind
    fun r => Reads.pure (s, k, r)).bind fun r => Reads.pure (conditionOf r)).mono ?_
  rintro us c ds ⟨_, _, _, rfl, ⟨us, s, _, rfl, hs, cs, k, _, rfl, hk, rs, r, _, rfl, hr, rfl, rfl⟩,
    rfl, rfl⟩
  obtain ⟨w, hw⟩ := hs.starts
  simp only [List.append_nil]
  have hview : inView (us ++ (cs ++ rs)) = inView us := inView_append (by simp [hw]) _
  have hparts : whereKind.parts (conditionOf (s, k, r)) =
      (0, .subject s.field? s.call?) :: comparandParts r := rfl
  refine ⟨?_, ?_, ⟨w, hview.trans hw⟩, ?_⟩
  · rw [hparts, stringsAt_cons, ← hs.literals_eq, ← hr.literals, literals_append, literals_append,
      hk, List.nil_append]
  · rw [hparts, feeds_cons]
    exact ⟨hs.feeds, hr.feeds⟩
  · have hstarts : ∀ vs, inView vs = inView us ∧ Tight vs → Starts (us ++ (cs ++ rs)) vs :=
      fun vs hv => ⟨hv.1.trans hview.symm, hv.2⟩
    refine (((Laid.comparing hs k hr.laid).map conditionOf ?_).mono (fun _ => id) (fun _ => id)
      hstarts).congr ?_
    · rintro ⟨s', k', r'⟩ ⟨rfl, rfl, hr'⟩
      simp only [forgetComparand, Prod.mk.injEq] at hr'
      simp [whereKind, conditionOf, Condition.forgetSources, hr']
    · intro l t _
      simp [Condition.surround, conditionOf, Compose.condition, Subject.text]

theorem filterUpTo_eq (nested : Parser Query) (n depth : Nat) : filterUpTo nested n depth =
    chainUpTo (linkOf front (condition nested) Condition.surround) n depth := by
  induction n generalizing depth with
  | zero => rfl
  | succ n ih =>
    -- Only the first link is taken apart.
    generalize hlink : linkOf front (condition nested) Condition.surround = link at ih
    rw [filterUpTo, chainUpTo, ← congrFun hlink depth]
    unfold linkOf front closing
    simp only [bind_assoc, pure_bind]
    congr 1; funext opens
    congr 1; funext first
    congr 1; funext negated
    congr 1; funext b
    split
    · split
      · simp [ih]
      · rfl
    · simp only [pure_bind, bind_assoc]
      congr 1; funext c
      congr 1; funext closes
      congr 1; funext connective
      cases connective <;> simp [ih, Condition.surround]

theorem partsFilter_some (chain : Chain Condition) :
    Condition.partsFilter (some chain) = chain.links.flatMap whereKind.linkParts := by
  have hlink : ∀ x, Condition.partsLink x = whereKind.linkParts x := by
    rintro ⟨_ | c, o⟩ <;> simp [Condition.partsLink, LinkKind.linkParts, whereKind]
  have hlinks : ∀ xs, Condition.partsLinks xs = xs.flatMap whereKind.linkParts := by
    intro xs
    induction xs with
    | nil => rfl
    | cons x xs ih => rw [Condition.partsLinks, ih, hlink, List.flatMap_cons]
  cases chain with
  | mk head tail => rw [Condition.partsFilter, hlink, hlinks, Chain.links, List.flatMap_cons]

theorem forgetFilter_some (chain : Chain Condition) :
    Condition.forgetFilter (some chain) = some (chain.map Condition.forgetSources) := by
  have hlink : ∀ x, Condition.forgetLink x = x.map Condition.forgetSources := by
    rintro ⟨_ | c, o⟩ <;> rfl
  have hlinks : ∀ xs, Condition.forgetLinks xs = xs.map (Link.map Condition.forgetSources) := by
    intro xs
    induction xs with
    | nil => rfl
    | cons x xs ih => rw [Condition.forgetLinks, ih, hlink, List.map_cons]
  cases chain with
  | mk head tail => rw [Condition.forgetFilter, hlink, hlinks, Chain.map]

theorem value_filter (l : Layout) (chain : Chain Condition) : (Compose.filter l chain).value =
    (Compose.joinLinks l (chain.links.map (Link.map (whereKind.text l)))).value := by
  have hlink : ∀ x, (Compose.link l x).value = x.map (whereKind.text l) := by
    rintro ⟨_ | c, o⟩ <;> rfl
  have hlinks : ∀ xs, (Compose.links l xs).value = xs.map (Link.map (whereKind.text l)) := by
    intro xs
    induction xs with
    | nil => rfl
    | cons x xs ih => simp [Compose.links, hlink, ih]
  simp [Compose.filter, hlinks]

theorem chain_map_eq {κ μ : Type} {f : κ → μ} {c d : Chain κ}
    (h : c.links.map (Link.map f) = d.links.map (Link.map f)) : c.map f = d.map f := by
  cases c
  cases d
  simp_all [Chain.links, Chain.map]

theorem chain_map_id {κ : Type} (c : Chain κ) : c.map id = c := by
  have hlink : (Link.map id : Link κ → Link κ) = id := by
    funext x
    cases x
    simp [Link.map]
  cases c
  simp [Chain.map, hlink]

/-- A filter of `WHERE` that was read from `us`, before the token `t`, is read back. -/
structure FilterPhrase (us : List Piece) (chain : Chain Condition) (t : Token) : Prop where
  literals : literals us = stringsAt 0 (Condition.partsFilter (some chain))
  feeds : Feeds (Condition.partsFilter (some chain))
  laid : ∃ depth, Follows none depth t ∧ Laid (fun m _ => filter (selectUpTo m false))
    (fun u => Follows none depth u ∧ u ≠ .colon)
    (fun c => Condition.forgetFilter (some c) = Condition.forgetFilter (some chain))
    (Condition.partsFilter (some chain)) (fun vs => vs ≠ [] ∧ Tight vs)
    fun l => (Compose.filter l chain).value

/-- **The filter of a `WHERE` clause is read back from its text.** -/
theorem reads_filter {nested : Parser Query} (hn : ReadsQuery nested false) :
    Reads (filter nested) fun us chain ds => FilterPhrase us chain (inView ds) := by
  have hchain := LinkKind.reads_chainUpTo (surrounds_where.reads (reads_condition hn))
  intro E T ps c chain c' hc h
  rw [filter] at h
  simp only [filterUpTo_eq] at h
  obtain ⟨us, ds, hps, hd, depth, hfollow, hph⟩ := hchain (c.size + 1) 0 hc h
  refine ⟨us, ds, hps, hd, ?_, ?_, depth, hfollow, ?_⟩
  · rw [partsFilter_some]
    exact hph.literals
  · rw [partsFilter_some]
    exact hph.feeds
  · have hlaid := hph.laid.sized.mono (fun _ => id) (fun c hc => chain_map_eq hc)
      (fun vs hv => (⟨ne_nil_of_inView hv.2.1, hv.1⟩ : vs ≠ [] ∧ Tight vs))
    simp only [filter, filterUpTo_eq, partsFilter_some, forgetFilter_some, value_filter,
      Option.some.injEq]
    exact hlaid

/-! ## `HAVING` -/

/-- The condition that compares a subject. -/
def groupConditionOf (r : Subject × Comparison × Text) : GroupCondition :=
  { field := r.1.field?, call := r.1.call?, comparison := r.2.1, value := r.2.2 }

/-- A condition of `HAVING` without the parentheses around it. -/
def groupCondition : Parser GroupCondition :=
  comparing groupValue >>= fun r => pure (groupConditionOf r)

end Parser

/-- The condition with parentheses around it; it is never negated. -/
def GroupCondition.surround (c : GroupCondition) (opens : Nat) (_ : Bool) (closes : Nat) :
    GroupCondition :=
  { c with opens, closes }

namespace Parser

/-- The filters of `HAVING`. -/
def havingKind : LinkKind GroupCondition where
  link _ := linkOf groupFront groupCondition GroupCondition.surround
  forget := id
  parts := GroupCondition.parts
  text _ c := c.text

theorem surrounds_having : havingKind.Surrounds groupFront (· = false) (fun _ => groupCondition)
    GroupCondition.surround fun _ c => (c.surround 0 false 0).text where
  link _ := rfl
  front := reads_groupFront
  forget _ _ _ _ := rfl
  parts _ _ _ _ := rfl
  text l c opens negated closes hn := by
    subst hn
    rw [spell_frontPieces]
    simp [havingKind, GroupCondition.surround, GroupCondition.text]

theorem reads_groupCondition : Reads groupCondition fun us c _ => havingKind.BarePhrase
    (fun _ => groupCondition) (fun _ c => (c.surround 0 false 0).text) us c := by
  refine ((reads_subject.bind fun s => reads_comparison.bind fun k => reads_groupValue.bind
    fun r => Reads.pure (s, k, r)).bind fun r => Reads.pure (groupConditionOf r)).mono ?_
  rintro us c ds ⟨_, _, _, rfl, ⟨us, s, _, rfl, hs, cs, k, _, rfl, hk, rs, v, _, rfl,
    ⟨vs, hvs, hsp⟩, rfl, rfl⟩, rfl, rfl⟩
  obtain ⟨w, hw⟩ := hs.starts
  simp only [List.append_nil]
  have hview : inView (us ++ (cs ++ rs)) = inView us := inView_append (by simp [hw]) _
  have hparts : havingKind.parts (groupConditionOf (s, k, v)) =
      [(0, .subject s.field? s.call?), (0, .groupValue v)] := rfl
  refine ⟨?_, ?_, ⟨w, hview.trans hw⟩, ?_⟩
  · rw [hparts, stringsAt_cons, ← hs.literals_eq, literals_append, literals_append, hk,
      hvs.literals_eq, hsp, stringsAt_top]
    rfl
  · rw [hparts, feeds_cons]
    exact ⟨hs.feeds, hvs.feeds_part hsp⟩
  · have hright := (Phrase.laid (p := .groupValue v) (fun _ => hvs) hsp).mono (fun _ => id)
      (fun _ => id) fun vs hv => (⟨ne_nil_of_inView (hv.ne_finish hvs.starts), hv.2⟩ :
        vs ≠ [] ∧ Tight vs)
    have hstarts : ∀ vs, inView vs = inView us ∧ Tight vs → Starts (us ++ (cs ++ rs)) vs :=
      fun vs hv => ⟨hv.1.trans hview.symm, hv.2⟩
    refine (((Laid.comparing hs k hright).map groupConditionOf ?_).mono (fun _ => id) (fun _ => id)
      hstarts).congr ?_
    · rintro ⟨s', k', r'⟩ ⟨rfl, rfl, rfl⟩
      rfl
    · intro l t _
      simp [GroupCondition.surround, groupConditionOf, GroupCondition.text, Subject.text,
        Part.text]

theorem groupFilterUpTo_eq (n depth : Nat) : groupFilterUpTo n depth =
    chainUpTo (linkOf groupFront groupCondition GroupCondition.surround) n depth := by
  induction n generalizing depth with
  | zero => rfl
  | succ n ih =>
    generalize hlink : linkOf groupFront groupCondition GroupCondition.surround = link at ih
    rw [groupFilterUpTo, chainUpTo, ← congrFun hlink depth]
    unfold linkOf groupFront closing groupCondition comparing
    simp only [bind_assoc, pure_bind]
    congr 1; funext opens
    congr 1; funext s
    congr 1; funext k
    congr 1; funext v
    congr 1; funext closes
    congr 1; funext connective
    cases connective <;> simp [ih, GroupCondition.surround, groupConditionOf]

/-- A filter of `HAVING` that was read from `us`, before the token `t`, is read back. -/
structure GroupFilterPhrase (us : List Piece) (chain : Chain GroupCondition) (t : Token) :
    Prop where
  literals : literals us = stringsAt 0 (chain.links.flatMap havingKind.linkParts)
  feeds : Feeds (chain.links.flatMap havingKind.linkParts)
  laid : ∃ depth, Follows none depth t ∧ Laid (fun _ _ => groupFilter)
    (fun u => Follows none depth u ∧ u ≠ .colon) (· = chain)
    (chain.links.flatMap havingKind.linkParts) (fun vs => vs ≠ [] ∧ Tight vs)
    fun l => (Compose.groupFilter l chain).value

/-- **The filter of a `HAVING` clause is read back from its text.** -/
theorem reads_groupFilter :
    Reads groupFilter fun us chain ds => GroupFilterPhrase us chain (inView ds) := by
  have hchain := LinkKind.reads_chainUpTo (surrounds_having.reads reads_groupCondition)
  intro E T ps c chain c' hc h
  rw [groupFilter] at h
  simp only [groupFilterUpTo_eq] at h
  obtain ⟨us, ds, hps, hd, depth, hfollow, hph⟩ := hchain (c.size + 1) 0 hc h
  refine ⟨us, ds, hps, hd, hph.literals, hph.feeds, depth, hfollow, ?_⟩
  have hlaid := hph.laid.sized.mono (fun _ => id)
    (fun c hc => (by simpa only [havingKind, chain_map_id] using chain_map_eq hc : c = chain))
    (fun vs hv => (⟨ne_nil_of_inView hv.2.1, hv.1⟩ : vs ≠ [] ∧ Tight vs))
  simp only [groupFilter, groupFilterUpTo_eq]
  exact hlaid

end Parser

end Soql
