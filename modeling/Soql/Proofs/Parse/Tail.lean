/-
  The clauses after the source of a query, read and read back.

  They may be written in another order than they were read in: `WITH` clauses
  are read before the grouping as well as after the offset, and are written
  after the offset, the data categories first and at most once.

  * `reads_groupingClause`: the grouping and its conditions.
  * `reads_body`: the clauses from the grouping on to the `WITH` clauses.
  * `reads_tail`: all clauses after the source.
-/
import Mathlib
import Soql.Proofs.Parse.Keys

namespace Soql

open Unicode Token Soql.Parser

namespace Parser

/-! ## Grouping -/

/-- The grouping with its conditions. -/
def withHaving (g : Option Grouping) : Option (Chain GroupCondition) → Option Grouping
  | none => g
  | some having => g.map fun g => { g with having := some having }

/-- The `GROUP BY` clause with the `HAVING` clause. -/
def groupingClause : Parser (Option Grouping) := grouping? >>= having?

/-- The two clauses apart. -/
def groupingPair : Parser (Option Grouping × Option (Chain GroupCondition)) :=
  both grouping? (afterKeyword "HAVING" groupFilter)

theorem having_eq_ok {g r : Option Grouping} {c c' : Cursor} : having? g c = .ok r c' ↔
    ∃ having, afterKeyword "HAVING" groupFilter c = .ok having c' ∧ (g = none → having = none) ∧
      r = withHaving g having := by
  unfold having?
  simp only [bind_eq_ok, current_eq]
  constructor
  · rintro ⟨_, _, h, having, c', hh, hr⟩
    cases h
    cases having with
    | none =>
      obtain ⟨rfl, rfl⟩ := pure_eq_ok.1 hr
      exact ⟨none, hh, fun _ => rfl, rfl⟩
    | some having =>
      cases g with
      | none => cases hr
      | some g =>
        obtain ⟨rfl, rfl⟩ := pure_eq_ok.1 hr
        exact ⟨some having, hh, by simp, rfl⟩
  · rintro ⟨having, hh, hg, rfl⟩
    refine ⟨_, _, rfl, having, c', hh, ?_⟩
    cases having with
    | none => rfl
    | some having =>
      cases g with
      | none => cases hg rfl
      | some g => rfl

theorem groupingClause_eq_ok {r : Option Grouping} {c c' : Cursor} :
    groupingClause c = .ok r c' ↔ ∃ g having, groupingPair c = .ok (g, having) c' ∧
      (g = none → having = none) ∧ r = withHaving g having := by
  simp only [groupingClause, groupingPair, both, bind_eq_ok, having_eq_ok, pure_eq_ok]
  constructor
  · rintro ⟨g, c₁, hg, having, hh, hor, rfl⟩
    exact ⟨g, having, ⟨g, c₁, hg, having, c', hh, rfl, rfl⟩, hor, rfl⟩
  · rintro ⟨_, _, ⟨g, c₁, hg, having, _, hh, heq, rfl⟩, hor, rfl⟩
    cases heq
    exact ⟨_, c₁, hg, _, hh, hor, rfl⟩

/-- The text of the grouping and its conditions. -/
def groupingText (g : Option Grouping) (l : Layout) : Text :=
  g.elim [] fun g => clauseText l "GROUP BY" g.text ++
    g.having.elim [] fun having => clauseText l "HAVING" (Compose.groupFilter l having).value

theorem rel_eq {α : Type} {a b : Option α} : Option.Rel (· = ·) a b ↔ a = b := by
  constructor
  · rintro (h | _)
    · rw [h]
    · rfl
  · rintro rfl
    cases a with
    | none => exact .none
    | some a => exact .some rfl

/-- What the grouping is made of, from its keys and its conditions. -/
theorem withHaving_eq {g : Option Grouping} {having : Option (Chain GroupCondition)}
    (hg : ∀ x ∈ g, x.having = none) (hor : g = none → having = none) (l : Layout) :
    (withHaving g having).toList.flatMap Grouping.parts =
        g.toList.flatMap (fun g => [(0, .grouping g.fields g.call)]) ++
          having.toList.flatMap (fun chain => chain.links.flatMap havingKind.linkParts) ∧
      groupingText (withHaving g having) l =
        (g.elim [] fun g => clauseText l ("GROUP" ++ " " ++ "BY") g.text) ++
          having.elim [] fun chain =>
            clauseText l "HAVING" (Compose.groupFilter l chain).value := by
  cases g with
  | none =>
    rw [hor rfl]
    exact ⟨rfl, rfl⟩
  | some g =>
    have hnone : g.having = none := hg g rfl
    cases having with
    | none => simp [withHaving, Grouping.parts, groupingText, hnone]
    | some chain =>
      refine ⟨?_, rfl⟩
      simp [withHaving, Grouping.parts]
      rfl

theorem forget_withHaving {g g' : Option Grouping} (h : Option.Rel SameKeys g' g)
    (having : Option (Chain GroupCondition)) :
    (withHaving g' having).map Grouping.forgetSource =
      (withHaving g having).map Grouping.forgetSource := by
  cases h with
  | none => rfl
  | some h =>
    have hfields := congrArg Grouping.fields h.2.2
    have hcall := congrArg Grouping.call h.2.2
    cases having with
    | none => simp [withHaving, h.2.2]
    | some chain =>
      simp only [Grouping.forgetSource] at hfields hcall
      simp [withHaving, Grouping.forgetSource, hfields, hcall]

/-- **The grouping and its conditions are read back.** -/
theorem reads_groupingClause {later : List Text} (hlater : ∀ w ∈ later, w ∈ clauseWords)
    (hgroup : ∀ w ∈ later, Text.sameWord w "GROUP" = false ∧ Text.sameWord w "HAVING" = false) :
    ReadsClause groupingClause (fun _ _ => groupingClause) ["GROUP", "HAVING"] later
      (fun a b => a.map Grouping.forgetSource = b.map Grouping.forgetSource)
      (fun g => g.toList.flatMap Grouping.parts) groupingText := by
  have hjoins :
      ∀ w ∈ clauseWords, Text.sameWord w "AND" = false ∧ Text.sameWord w "OR" = false := by
    decide
  have hkeys := readsClause_words (w := "GROUP") (v := "BY") (L := "HAVING".toList :: later)
    (by decide) (by decide)
    (by simpa using ⟨by decide, fun w hw => (hgroup w hw).1⟩)
    (reads_grouping (by simpa using ⟨by decide, hlater⟩))
  have hconds := readsClause_word (w := "HAVING") (L := later) (by decide)
    (fun w hw => (hgroup w hw).2) (reads_groupFilter_content fun w hw => hjoins w (hlater w hw))
  refine (hkeys.seq (J := ["HAVING"]) hconds).imp (P := fun x => x.1 = none → x.2 = none)
    (fun x => withHaving x.1 x.2) ?_ ?_ ?_
  · intro c r c' hr
    obtain ⟨g, having, hp, hor, rfl⟩ := groupingClause_eq_ok.1 hr
    exact ⟨(g, having), hp, hor, rfl⟩
  · rintro ⟨g, having⟩ ⟨g', having'⟩ hor ⟨hrel, hh⟩
    obtain rfl : having' = having := rel_eq.1 hh
    refine ⟨forget_withHaving hrel having', fun m n us ds hrun T hT => ?_⟩
    refine groupingClause_eq_ok.2 ⟨g', having', hrun T hT, ?_, rfl⟩
    rintro rfl
    cases hrel
    exact hor rfl
  · rintro ⟨g, having⟩ ⟨g', having'⟩ hor ⟨hrel, -⟩
    have hnone : ∀ x ∈ g, x.having = none := by
      rintro x rfl
      cases hrel with
      | some h => exact h.2.1
    have heq := withHaving_eq hnone hor
    exact ⟨(heq .plain).1, fun l _ _ => (heq l).2⟩

/-! ## `WITH` clauses -/

/-- What stands after the keyword `WITH`. -/
def withContent : WithClause → Text
  | .securityEnforced => "SECURITY_ENFORCED"
  | .categories cs => "DATA CATEGORY " ++ categoriesText cs

/-- What may follow `WITH` clauses. -/
def EndsWith (t : Token) : Prop := t.isKeyword "AND" = false ∧ t.isKeyword "WITH" = false

/-- The pieces of `WITH` clauses, if there are any. -/
def WithPieces (ws : List WithClause) (vs : List Piece) : Prop :=
  Clean (spell vs) ∧ ((vs = [] ∧ ws = []) ∨ inView vs = .word "WITH")

theorem WithPieces.clausePieces {ws : List WithClause} {us vs : List Piece} (h : WithPieces ws vs)
    (hnil : vs = [] → us = []) : ClausePieces ["WITH"] us vs := by
  refine ⟨h.1, ?_⟩
  rcases h.2 with ⟨hv, -⟩ | hv
  · exact Or.inl ⟨hv, hnil hv⟩
  · exact Or.inr ⟨"WITH", by simp, hv⟩

theorem PlainWith.plain {w : WithClause} (h : PlainWith w) : Plain withClause (fun _ => True)
    (fun t => t.isKeyword "AND" = false) w (withContent w) := by
  cases w with
  | securityEnforced => exact plain_securityEnforced.mono (fun _ => id) fun _ _ => trivial
  | categories cs =>
    obtain ⟨hne, hcs⟩ := h
    cases cs with
    | nil => exact (hne rfl).elim
    | cons c cs => exact plain_dataCategory hcs

theorem laid_withClause {w : WithClause} (h : PlainWith w) :
    Laid (fun _ _ => afterKeyword "WITH" withClause) (fun t => t.isKeyword "AND" = false)
      (· = some w) [] (fun vs => Clean (spell vs) ∧ inView vs = .word "WITH")
      fun l => clauseText l "WITH" (withContent w) := by
  have hw : isPlainWord "WITH" = true := by decide
  have hends : ∀ vs : List Piece, vs ≠ [] ∧ Tight vs ∧ True → vs ≠ [] ∧ Tight vs :=
    fun _ hv => ⟨hv.1, hv.2.1⟩
  have hlaid := h.plain.laid.mono (fun _ => id) (fun _ => id) hends
  refine (hlaid.clause (g := fun _ _ => afterKeyword "WITH" withClause) (t := some)
    (PlainPieces.token (proper_of_isPlainWord hw) rfl) rfl (fun m n vs a ds hrun => ?_)).mono
    (fun _ => id) ?_ fun _ => id
  · exact run_afterKeyword (isKeyword_keyword _ hw) (hrun.blank_append blank_space)
  · rintro _ ⟨a, rfl, rfl⟩
    rfl

theorem spell_flatten (vss : List (List Piece)) : spell vss.flatten = (vss.map spell).flatten := by
  induction vss with
  | nil => rfl
  | cons vs vss ih => rw [List.flatten_cons, spell_append, ih, List.map_cons, List.flatten_cons]

theorem literals_flatten {vss : List (List Piece)} (h : ∀ vs ∈ vss, literals vs = []) :
    literals vss.flatten = [] := by
  induction vss with
  | nil => rfl
  | cons vs vss ih =>
    obtain ⟨hv, hvs⟩ := List.forall_mem_cons.1 h
    rw [List.flatten_cons, literals_append, hv, ih hvs]
    rfl

theorem clean_flatten {vss : List (List Piece)} (h : ∀ vs ∈ vss, Clean (spell vs)) :
    Clean (spell vss.flatten) := by
  induction vss with
  | nil => simp [Clean]
  | cons vs vss ih =>
    rw [List.flatten_cons, spell_append]
    cases hs : spell vs with
    | nil => exact ih fun vs hvs => h vs (by simp [hvs])
    | cons c t =>
      have hclean := h vs (by simp)
      exact clean_cons (hclean c (by simp [hs])) _

theorem closed_flatten {vss : List (List Piece)} (h : ∀ vs ∈ vss, Closed vs ∧ Clean (spell vs)) :
    Closed vss.flatten := by
  induction vss with
  | nil => exact blank_nil.closed
  | cons vs vss ih =>
    rw [List.flatten_cons]
    exact (h vs (by simp)).1.append (ih fun vs hvs => h vs (by simp [hvs]))
      (clean_flatten fun vs hvs => (h vs (by simp [hvs])).2)

theorem indentAll_flatten (i : Nat) (vss : List (List Piece)) :
    indentAll i vss.flatten = (vss.map (indentAll i)).flatten := by
  induction vss with
  | nil => rfl
  | cons vs vss ih => rw [List.flatten_cons, indentAll_append, ih, List.map_cons, List.flatten_cons]

/-- A `WITH` clause is read back where it does not go on the one before it. -/
theorem ReadBack.withClause {w : WithClause} {vs : List Piece} {i k : Nat}
    (h : ReadBack (fun _ _ => afterKeyword "WITH" withClause) (fun t => t.isKeyword "AND" = false)
      (· = some w) k [] vs) (hi : MayIndent i k []) (hv : inView vs = .word "WITH") :
    (inView (indentAll i vs)).isKeyword "AND" = false ∧ inView (indentAll i vs) ≠ .finish ∧
      ∀ ds, (inView ds).isKeyword "AND" = false →
        Run (afterKeyword "WITH" withClause) (indentAll i vs) (some w) ds := by
  obtain ⟨_, rfl, hrun⟩ := h i hi
  have hview : inView (indentAll i vs) = .word "WITH" := by
    rw [inView_indentAll, hv]
    rfl
  rw [hview]
  exact ⟨by decide, by simp, hrun _ _ le_rfl le_rfl⟩

/-- **`WITH` clauses one after another are read back.** -/
theorem laid_withClauses {ws : List WithClause} (h : ∀ w ∈ ws, PlainWith w) :
    Laid (fun _ _ => withClauses) EndsWith (· = ws) [] (WithPieces ws)
      fun l => ws.flatMap fun w => clauseText l "WITH" (withContent w) := by
  intro l k hl
  obtain ⟨vss, hvss⟩ := exists_forall₂ fun w hw => laid_withClause (h w hw) l k hl
  have hmem : ∀ vs ∈ vss, (Closed vs ∧ Clean (spell vs)) ∧ literals vs = [] := by
    intro vs hvs
    obtain ⟨w, -, hw⟩ := forall₂_mem_left hvss hvs
    exact ⟨⟨hw.2.1, hw.2.2.2.1.1⟩, hw.2.2.1⟩
  refine ⟨vss.flatten, ?_, closed_flatten fun vs hvs => (hmem vs hvs).1,
    literals_flatten fun vs hvs => (hmem vs hvs).2,
    ⟨clean_flatten fun vs hvs => (hmem vs hvs).1.2, ?_⟩,
    fun i hi => ⟨ws, rfl, fun m n hm hn ds hds => ?_⟩⟩
  · rw [spell_flatten, map_spell (hvss.imp fun _ _ h => h.1)]
    exact List.flatMap_def.symm
  · cases hvss with
    | nil => exact Or.inl ⟨rfl, rfl⟩
    | cons hv _ =>
      have hview := hv.2.2.2.1.2
      exact Or.inr (by rw [List.flatten_cons, inView_append (by simp [hview]), hview])
  · have hruns := hvss.imp fun vs w hv => hv.2.2.2.2.withClause hi hv.2.2.2.1.2
    rw [indentAll_flatten]
    exact run_many (F := fun t => t.isKeyword "AND" = false) (List.forall₂_map_left_iff.2 hruns)
      hds.1 (run_afterKeyword_none hds.2)

theorem reads_withClauses : Reads withClauses fun us ws _ => literals us = [] ∧
    (ws = [] → us = []) ∧ ∀ w ∈ ws, PlainWith w :=
  reads_manyAfterKeyword reads_withClause _

theorem run_withClauses_nil {ds : List Piece} (h : (inView ds).isKeyword "WITH" = false) :
    Run withClauses [] [] ds :=
  run_many (F := fun _ => True) List.Forall₂.nil trivial (run_afterKeyword_none h)

/-- `WITH` clauses as they are written: the data categories first. -/
def tidy (cats : Option (List CategoryCondition)) (isEnforced : Bool) : List WithClause :=
  (cats.map WithClause.categories).toList ++ if isEnforced then [.securityEnforced] else []

/-- The text of `WITH` clauses. -/
def withText (cats : Option (List CategoryCondition)) (isEnforced : Bool) (l : Layout) : Text :=
  (cats.elim [] fun cs => clauseText l "WITH DATA CATEGORY" (categoriesText cs)) ++
    if isEnforced then clauseText l "WITH SECURITY_ENFORCED" [] else []

theorem lastCategories_tidy (cats : Option (List CategoryCondition)) (isEnforced : Bool) :
    lastCategories (tidy cats isEnforced) = cats := by
  cases cats <;> cases isEnforced <;> rfl

theorem contains_tidy (cats : Option (List CategoryCondition)) (isEnforced : Bool) :
    (tidy cats isEnforced).contains .securityEnforced = isEnforced := by
  cases cats <;> cases isEnforced <;> simp [tidy]

theorem mem_of_lastCategories {ws : List WithClause} {cs : List CategoryCondition}
    (h : lastCategories ws = some cs) : .categories cs ∈ ws := by
  induction ws with
  | nil => cases h
  | cons w ws ih =>
    cases w with
    | securityEnforced => exact List.mem_cons_of_mem _ (ih h)
    | categories ds =>
      rw [lastCategories] at h
      cases hw : lastCategories ws with
      | none =>
        rw [hw] at h
        cases h
        exact List.mem_cons_self ..
      | some es =>
        rw [hw] at h
        exact List.mem_cons_of_mem _ (ih (hw.trans h))

/-- What `WITH` clauses come to. -/
abbrev tidied (ws : List WithClause) : List WithClause :=
  tidy (lastCategories ws) (ws.contains .securityEnforced)

theorem eq_nil_of_tidied {ws : List WithClause} (h : tidied ws = []) : ws = [] := by
  cases ws with
  | nil => rfl
  | cons w ws =>
    cases w with
    | securityEnforced => simp [tidied, tidy] at h
    | categories cs =>
      cases hw : lastCategories ws <;> simp [tidied, tidy, lastCategories, hw] at h

theorem WithPieces.eq_nil {ws : List WithClause} (h : WithPieces (tidied ws) []) : ws = [] := by
  rcases h.2 with ⟨-, hws⟩ | hview
  · exact eq_nil_of_tidied hws
  · cases hview

theorem plainWith_tidied {ws : List WithClause} (h : ∀ w ∈ ws, PlainWith w) :
    ∀ w ∈ tidied ws, PlainWith w := by
  intro w hw
  rcases List.mem_append.1 hw with hw | hw
  · obtain ⟨cs, hcs, rfl⟩ := Option.mem_map.1 (Option.mem_toList.1 hw)
    exact h _ (mem_of_lastCategories hcs)
  · obtain ⟨-, rfl⟩ : .securityEnforced ∈ ws ∧ w = .securityEnforced := by simpa using hw
    trivial

theorem categoriesText_ne_nil {cs : List CategoryCondition} (h : cs ≠ []) :
    categoriesText cs ≠ [] := by
  cases cs with
  | nil => exact (h rfl).elim
  | cons c cs =>
    rw [categoriesText, List.map_cons, joinWith_cons]
    simp [CategoryCondition.text]

theorem clauseText_categories {l : Layout} {k : Nat} (hl : l.Spaced k)
    {cs : List CategoryCondition} (h : cs ≠ []) :
    clauseText l "WITH" (withContent (.categories cs)) =
      clauseText l "WITH DATA CATEGORY" (categoriesText cs) := by
  obtain ⟨c, -, hclause⟩ := hl.clause
  have hne : (categoriesText cs).isEmpty = false := by simpa using categoriesText_ne_nil h
  rw [clauseText, clauseText, hclause, hclause, hne]
  rfl

theorem clauseText_enforced {l : Layout} {k : Nat} (hl : l.Spaced k) :
    clauseText l "WITH" (withContent .securityEnforced) =
      clauseText l "WITH SECURITY_ENFORCED" [] := by
  obtain ⟨c, -, hclause⟩ := hl.clause
  rw [clauseText, clauseText, hclause, hclause]
  rfl

theorem flatMap_tidied {ws : List WithClause} (h : ∀ w ∈ ws, PlainWith w) {l : Layout} {k : Nat}
    (hl : l.Spaced k) :
    ((tidied ws).flatMap fun w => clauseText l "WITH" (withContent w)) =
      withText (lastCategories ws) (ws.contains .securityEnforced) l := by
  rw [tidied, tidy, withText, List.flatMap_append]
  congr 1
  · cases hw : lastCategories ws with
    | none => rfl
    | some cs => simpa using clauseText_categories hl (h _ (mem_of_lastCategories hw)).1
  · cases ws.contains .securityEnforced with
    | false => rfl
    | true => simpa using clauseText_enforced hl

/-! ## From the grouping on -/

/-- The grouping, the sort keys, the limit and the offset. -/
abbrev Middle : Type := Option Grouping × Option SortKeys × Option UInt64 × Option UInt64

/-- The clauses between those that may be `WITH` clauses. -/
def middle : Parser Middle :=
  both groupingClause (both sorting? (both (afterKeyword "LIMIT" (rowCount "LIMIT"))
    (afterKeyword "OFFSET" (rowCount "OFFSET"))))

/-- The keywords of these clauses. -/
def middleWords : List Text := ["GROUP", "HAVING", "ORDER", "LIMIT", "OFFSET"]

/-- Where none of the keywords follows, there are no such clauses. -/
theorem run_middle_nil {ds : List Piece}
    (hds : ∀ w ∈ middleWords, (inView ds).isKeyword w = false) :
    Run middle [] (none, none, none, none) ds := by
  have hgrouping : Run groupingClause [] none ds :=
    Run.bind_nil (run_afterKeyword_none (hds "GROUP" (by decide))) (Run.current fun l _ =>
      (run_afterKeyword_none (hds "HAVING" (by decide))).bind_nil (Run.pure none ds))
  exact Run.both_nil hgrouping (Run.both_nil (run_afterKeyword_none (hds "ORDER" (by decide)))
    (Run.both_nil (run_afterKeyword_none (hds "LIMIT" (by decide)))
      (run_afterKeyword_none (hds "OFFSET" (by decide)))))

/-- Whether they differ in source texts at most. -/
def SameMiddle (x y : Middle) : Prop :=
  x.1.map Grouping.forgetSource = y.1.map Grouping.forgetSource ∧ x.2 = y.2

/-- The parts of these clauses. -/
def middleParts (x : Middle) : List (Nat × Part) :=
  x.1.toList.flatMap Grouping.parts ++ x.2.1.toList.flatMap SortKeys.parts

/-- The text of these clauses. -/
def middleText (x : Middle) (l : Layout) : Text :=
  groupingText x.1 l ++
    ((x.2.1.elim [] fun keys => clauseText l "ORDER BY" (Compose.sortKeys l keys).value) ++
      ((x.2.2.1.elim [] fun n => clauseText l "LIMIT" (Compose.rowCount n)) ++
        x.2.2.2.elim [] fun n => clauseText l "OFFSET" (Compose.rowCount n)))

theorem reads_middle : ReadsClause middle (fun _ _ => middle) middleWords
    ["WITH", "FOR", "UPDATE"] SameMiddle middleParts middleText := by
  have hoffset := readsClause_word (w := "OFFSET") (L := ["WITH", "FOR", "UPDATE"]) (by decide)
    (by decide) (reads_rowCount_content "OFFSET" _)
  have hlimit := readsClause_word (w := "LIMIT") (L := ["OFFSET", "WITH", "FOR", "UPDATE"])
    (by decide) (by decide) (reads_rowCount_content "LIMIT" _)
  have hsort := readsClause_words (w := "ORDER") (v := "BY")
    (L := ["LIMIT", "OFFSET", "WITH", "FOR", "UPDATE"]) (by decide) (by decide) (by decide)
    (reads_sorting (by decide))
  have hlater : ∀ w ∈ (["ORDER", "LIMIT", "OFFSET", "WITH", "FOR", "UPDATE"] : List Text),
      w ∈ clauseWords := by decide
  have hgroup := reads_groupingClause hlater (by decide)
  have hall := hgroup.seq (J := ["ORDER", "LIMIT", "OFFSET"])
    (hsort.seq (J := ["LIMIT", "OFFSET"]) (hlimit.seq (J := ["OFFSET"]) hoffset))
  refine hall.imp (P := fun _ => True) id (fun c b c' h => ⟨b, h, trivial, rfl⟩) ?_ ?_
  · rintro ⟨g, keys, n, m⟩ ⟨g', keys', n', m'⟩ - ⟨hg, hkeys, hn, hm⟩
    obtain rfl : keys' = keys := rel_eq.1 hkeys
    obtain rfl : n' = n := rel_eq.1 hn
    obtain rfl : m' = m := rel_eq.1 hm
    exact ⟨⟨hg, rfl⟩, fun _ _ _ _ => id⟩
  · rintro ⟨g, keys, n, m⟩ _ - -
    refine ⟨?_, fun _ _ _ => rfl⟩
    simp [middleParts]

/-- The clauses from the grouping on, with the `WITH` clauses before and after them. -/
def body : Parser (Middle × List WithClause) := do
  let early ← withClauses
  let x ← middle
  let late ← withClauses
  return (x, early ++ late)

/-- Whether they differ in source texts and in `WITH` clauses that have no effect. -/
def SameBody (x y : Middle × List WithClause) : Prop :=
  SameMiddle x.1 y.1 ∧ lastCategories x.2 = lastCategories y.2 ∧
    x.2.contains .securityEnforced = y.2.contains .securityEnforced

/-- The text of these clauses. -/
def bodyText (x : Middle × List WithClause) (l : Layout) : Text :=
  middleText x.1 l ++ withText (lastCategories x.2) (x.2.contains .securityEnforced) l

/-- Where no other clause stands, `WITH` clauses are read before the grouping. -/
theorem run_body_nil {zs ds : List Piece} {x : Middle} {ws : List WithClause}
    (hx : Run middle [] x ds) (hzs : Run withClauses zs ws ds)
    (hds : (inView ds).isKeyword "WITH" = false) : Run body zs (x, ws) ds := by
  rw [← List.append_nil zs]
  refine Run.bind (by simpa using hzs) (Run.answer hx ?_)
  have := (run_withClauses_nil hds).bind_pure fun late => (x, ws ++ late)
  simpa using this

/-- After another clause, they are read after the offset. -/
theorem run_body {vs zs ds : List Piece} {x : Middle} {ws : List WithClause} {w : Text}
    (hw : w ∈ middleWords) (hv : inView vs = .word w) (hvs : Run middle vs x (zs ++ ds))
    (hzs : Run withClauses zs ws ds) : Run body (vs ++ zs) (x, ws) ds := by
  have hne : (inView (vs ++ (zs ++ ds))).isKeyword "WITH" = false := by
    have hwords : ∀ w ∈ middleWords, Text.sameWord w "WITH" = false := by decide
    rw [inView_append (by simp [hv]), hv]
    exact hwords w hw
  have hearly := run_withClauses_nil hne
  rw [← List.append_assoc] at hearly
  exact Run.answer hearly (hvs.bind (hzs.bind_pure fun late => (x, [] ++ late)))

/-- The clauses and the `WITH` clauses after them are read back, where those that have no effect
    are left out. -/
theorem readBack_body {e : Token} (he : IsEnd e) {us₁ us₂ us₃ vs zs ds : List Piece} {x : Middle}
    {ws : List WithClause} {k : Nat} {ps : List (Nat × Part)}
    (hvs : ClausePieces middleWords us₂ vs) (hzs : ClausePieces ["WITH"] us₃ zs)
    (h : ReadBack (fun _ _ => middle) (Next e (inView (us₃ ++ ds)) us₂ ["WITH", "FOR", "UPDATE"])
      (SameMiddle · x) k ps vs)
    (h' : ReadBack (fun _ _ => withClauses) EndsWith (· = tidied ws) k [] zs) :
    ReadBack (fun _ _ => body) (Next e (inView ds) (us₁ ++ (us₂ ++ us₃)) ["FOR", "UPDATE"])
      (SameBody · (x, ws)) k ps (vs ++ zs) := by
  intro i hi
  obtain ⟨a, ha, hrun⟩ := h i hi
  obtain ⟨_, rfl, hrun'⟩ := h' i (Or.inr (by simp [OneLine]))
  refine ⟨(a, tidied ws), ⟨ha, lastCategories_tidy .., contains_tidy ..⟩, ?_⟩
  intro m n hm hn ds' hds'
  rw [count_append] at hm hn
  have hends : ∀ {kw : Text}, (∀ w ∈ ["FOR".toList, "UPDATE".toList],
      Text.sameWord w kw = false) → (inView ds').isKeyword kw = false := hds'.isKeyword he
  have hwith := hrun' m n (by omega) (by omega) ds' ⟨hends (by decide), hends (by decide)⟩
  rcases hvs.inView_indentAll i with ⟨rfl, rfl⟩ | ⟨w, hw, hv⟩
  · have hmiddle := hrun m n (by omega) (by omega) ds' (hds'.of_nil (by simp) _)
    exact run_body_nil hmiddle hwith (hends (by decide))
  · rw [indentAll_append]
    exact run_body hw hv (hrun m n (by omega) (by omega) _ (hzs.next i hds'.of_append)) hwith

theorem reads_body : ReadsClause body (fun _ _ => body) (middleWords ++ ["WITH".toList])
    ["FOR", "UPDATE"] SameBody (fun x => middleParts x.1) bodyText := by
  refine (reads_withClauses.bind fun early => reads_middle.bind fun x => reads_withClauses.bind
    fun late => Reads.pure (x, early ++ late)).mono ?_
  rintro us _ ds ⟨us₁, early, _, rfl, ⟨hl₁, hn₁, hp₁⟩, us₂, x, _, rfl, hmid, us₃, late, _, rfl,
    ⟨hl₃, hn₃, hp₃⟩, rfl, rfl⟩ e he
  rw [List.append_nil] at *
  have hmid := hmid e he
  have hplain : ∀ w ∈ early ++ late, PlainWith w := List.forall_mem_append.2 ⟨hp₁, hp₃⟩
  refine ⟨by simp [hl₁, hl₃, hmid.literals], hmid.feeds, fun l k hl => ?_⟩
  obtain ⟨vs, hsp, hcl, hlit, hcp, hread⟩ := hmid.laid l k hl
  obtain ⟨zs, hsp', hcl', hlit', hwp, hread'⟩ := laid_withClauses (plainWith_tidied hplain) l k hl
  have hnone : zs = [] → us₁ = [] ∧ us₃ = [] := by
    rintro rfl
    obtain ⟨he, hl⟩ := List.append_eq_nil_iff.1 hwp.eq_nil
    exact ⟨hn₁ he, hn₃ hl⟩
  have hwith : ClausePieces ["WITH"] us₃ zs := hwp.clausePieces fun h => (hnone h).2
  have hall := hcp.append hwith
  refine ⟨vs ++ zs, ?_, hcl.append hcl' hwith.1, by simp [hlit, hlit'], ⟨hall.1, ?_⟩,
    readBack_body he hcp hwith hread hread'⟩
  · rw [spell_append, hsp, hsp'.trans (flatMap_tidied hplain hl)]
    rfl
  · refine hall.2.imp_left fun ⟨hv, hu⟩ => ⟨hv, ?_⟩
    rw [hu, (hnone (List.append_eq_nil_iff.1 hv).2).1]
    rfl

/-! ## All clauses after the source -/

/-- What is read after the source. -/
abbrev Tail : Type :=
  Option (Chain Condition) × (Middle × List WithClause) × Option ForTarget × Option UpdateTarget

/-- The clauses after the source. -/
def tail (nested : Parser Query) : Parser Tail :=
  both (afterKeyword "WHERE" (filter nested)) (both body
    (both (afterKeyword "FOR" (expectKeywordOf .forTarget))
      (afterKeyword "UPDATE" (expectKeywordOf .updateTarget))))

/-- Whether the clauses stand for the same, up to source texts. -/
def SameTail (x y : Tail) : Prop :=
  Condition.forgetFilter x.1 = Condition.forgetFilter y.1 ∧ SameBody x.2.1 y.2.1 ∧ x.2.2 = y.2.2

/-- The parts of the clauses. -/
def tailParts (x : Tail) : List (Nat × Part) := Condition.partsFilter x.1 ++ middleParts x.2.1.1

/-- The text of the clauses. -/
def tailText (x : Tail) (l : Layout) : Text :=
  (x.1.elim [] fun chain => clauseText l "WHERE" (Compose.filter l chain).value) ++
    (bodyText x.2.1 l ++
      ((x.2.2.1.elim [] fun k => clauseText l "FOR" (Keyword.spelling k)) ++
        x.2.2.2.elim [] fun k => clauseText l "UPDATE" (Keyword.spelling k)))

theorem forgetFilter_eq {a b : Option (Chain Condition)} (h : Option.Rel
    (fun c d => Condition.forgetFilter (some c) = Condition.forgetFilter (some d)) a b) :
    Condition.forgetFilter a = Condition.forgetFilter b := by
  cases h with
  | none => rfl
  | some h => exact h

/-- **The clauses after the source are read back.** -/
theorem reads_tail {nested : Parser Query} (hn : ReadsQuery nested false) :
    ReadsClause (tail nested) (fun m _ => tail (selectUpTo m false)) clauseWords [] SameTail
      tailParts tailText := by
  have hfor : ∀ a : ForTarget, isPlainWord (Keyword.spelling a) = true ∧
      Keyword.ofWord? (Keyword.spelling a) = some a := by
    intro a
    cases a <;> exact ⟨by decide, by decide⟩
  have hup : ∀ a : UpdateTarget, isPlainWord (Keyword.spelling a) = true ∧
      Keyword.ofWord? (Keyword.spelling a) = some a := by
    intro a
    cases a <;> exact ⟨by decide, by decide⟩
  have hupdate := readsClause_word (w := "UPDATE") (L := []) (by decide) (by decide)
    (reads_keywordOf_content .updateTarget _ hup)
  have htarget := readsClause_word (w := "FOR") (L := ["UPDATE"]) (by decide) (by decide)
    (reads_keywordOf_content .forTarget _ hfor)
  have hwhere := readsClause_word (w := "WHERE")
    (L := ["GROUP", "HAVING", "ORDER", "LIMIT", "OFFSET", "WITH", "FOR", "UPDATE"])
    (by decide) (by decide) (reads_filter_content (by decide) hn)
  have hall := hwhere.seq
    (J := ["GROUP", "HAVING", "ORDER", "LIMIT", "OFFSET", "WITH", "FOR", "UPDATE"])
    (reads_body.seq (J := ["FOR", "UPDATE"]) (htarget.seq (J := ["UPDATE"]) hupdate))
  refine hall.imp (P := fun _ => True) id (fun c b c' h => ⟨b, h, trivial, rfl⟩) ?_ ?_
  · rintro ⟨f, b, t, u⟩ ⟨f', b', t', u'⟩ - ⟨hf, hb, ht, hu⟩
    obtain rfl : t' = t := rel_eq.1 ht
    obtain rfl : u' = u := rel_eq.1 hu
    exact ⟨⟨forgetFilter_eq hf, hb, rfl⟩, fun _ _ _ _ => id⟩
  · rintro ⟨f, b, t, u⟩ _ - -
    refine ⟨?_, fun _ _ _ => rfl⟩
    cases f <;> simp [tailParts, Condition.partsFilter]

end Parser

end Soql
