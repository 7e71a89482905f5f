/-
  A query means the same alone and nested.

  A query that is read from all of a text may stand between parentheses as
  well: the closing one comes where the text ended.  It would be taken as one
  of a group if the last filter of the query left a group open, and that is
  the only way to tell the two places apart.

  * `Nestable us x`: the pieces `us` are read as the same wherever a closing
    parenthesis follows.
  * `exists_nestable`: so are the pieces of every text that is read, unless
    its filters leave a parenthesis open.
  * `Query.parse_nested`: the query to compare with and the query as a field.
-/
import Mathlib
import Soql.Proofs.Parse.Diagnoses
import Soql.Proofs.Parse.Shape
import Soql.Proofs.Parse.Where

namespace Soql

open Unicode Token Soql.Parser

namespace Parser

/-! ## Before a closing parenthesis -/

theorem isKeyword_append {us : List Piece} {w : Text} (h : (inView us).isKeyword w = true)
    (ds : List Piece) : (inView (us ++ ds)).isKeyword w = true := by
  rwa [inView_append]
  intro hf
  rw [hf] at h
  cases h

/-- Where a closing parenthesis follows, the pieces are read as what is written, on its own and as
    a field. -/
structure Nestable (us : List Piece) (x : Written) : Prop where
  fits : Fits us []
  starts : (inView us).isKeyword "SELECT" = true
  run : ∀ isNested m ds, count us ≤ m → inView ds = .closeParen →
    Run (selectUpTo m isNested) us (x.query isNested) ds

/-- Filters that close as many parentheses as they open leave none open on the way. -/
theorem tailCloses_of_balanced {x : Written} {isNested : Bool}
    (hf : (x.query isNested).Formed isNested) (hb : (x.query isNested).FiltersBalanced) :
    TailCloses x.2.2 :=
  ⟨fun chain hc => (hf.filter chain hc).1.closes_iff.2 (hb.1 chain hc),
    fun chain hc => (hf.having chain hc).closes_iff.2 (hb.2 chain hc)⟩

/-- The pieces of a text that is read may stand before a closing parenthesis. -/
theorem exists_nestable {s : Text} {q : Query} (h : Query.parse s = .ok q)
    (hb : q.FiltersBalanced) : ∃ us x, s = spell us ∧ q = x.query false ∧ Nestable us x := by
  obtain ⟨ps, rfl, hfit⟩ := exists_spell (Query.ending_of_parse h)
  have hformed : q.Formed false := (List.forall_mem_cons.1 (Query.allFormed_of_parse h).1).1
  have hread : Reads select _ :=
    fun _ _ _ _ _ _ hc hok => again_selectUpTo (p := True) _ false hc hok
  rw [parse_eq] at h
  obtain ⟨us, bs, rfl, hbs, hselect, x, rfl, hrun⟩ :=
    readAll_at hread (by simp [Ending.plain]) hfit (ofText_spell hfit) h
  have hblank := blank_of_inView hbs
  refine ⟨us ++ bs, x, rfl, rfl, hfit, isKeyword_append hselect bs, fun isNested m ds hm hds => ?_⟩
  rw [count_append, hblank.count] at hm
  have hview : Instead True (inView bs) (inView (bs ++ ds)) :=
    Or.inr ⟨trivial, hbs, by rw [hblank.inView_append, hds]⟩
  exact Run.append_blank hblank
    (hrun (fun _ => tailCloses_of_balanced hformed hb) isNested m _ hm hview)

/-! ## Between parentheses -/

/-- The pieces between parentheses. -/
def parenthesized (us : List Piece) : List Piece :=
  [.openParen] ++ (us ++ [.closeParen])

theorem spell_parenthesized (us : List Piece) :
    spell (parenthesized us) = "(" ++ spell us ++ ")" := by
  simp [parenthesized, spelling]

theorem fits_parenthesized {us : List Piece} (h : Fits us []) (r : Text) :
    Fits (parenthesized us) r := by
  refine (fits_append ..).2 ⟨⟨rfl, trivial⟩, (fits_append ..).2 ⟨?_, ⟨rfl, trivial⟩⟩⟩
  exact h.append_break (by decide) r

theorem count_parenthesized (us : List Piece) : count (parenthesized us) = count us + 2 := by
  simp [parenthesized]

namespace Nestable

variable {us ds : List Piece} {x : Written} {m : Nat}

/-- A query between parentheses is a field. -/
theorem run_field (h : Nestable us x) (hm : count us ≤ m) :
    Run (field (selectUpTo m true)) (parenthesized us) (.subquery (x.query true)) ds :=
  run_field_query (Single.mark .openParen rfl) (Single.mark .closeParen rfl)
    (h.run true m _ hm rfl)

/-- A query between parentheses is something to compare with. -/
theorem run_comparand (h : Nestable us x) (hm : count us ≤ m) :
    Run (comparand (selectUpTo m false)) (parenthesized us) (none, none, some (x.query false))
      ds := by
  refine run_comparand_query (Single.mark .openParen rfl) ?_ (Single.mark .closeParen rfl)
    (h.run false m _ hm rfl)
  rw [List.append_assoc]
  exact isKeyword_append h.starts _

end Nestable

/-! ## The query to compare with -/

/-- The pieces of `Id IN` and a query. -/
def membership (us : List Piece) : List Piece :=
  [namePiece] ++ ([.space, .keyword "IN" (by decide)] ++ ([.space] ++ parenthesized us))

theorem run_subject_name (w : Text) (hw : isPlainWord w = true) {ds : List Piece}
    (h : EndsName (inView ds)) : Run subject [Piece.keyword w hw] (.field w) ds := by
  rw [← List.append_nil [Piece.keyword w hw]]
  refine run_path (Single.token _) (by simpa using h.2) ?_
  exact (run_pathRest_nil h.1).bind_pure fun ws => Subject.field (Text.joinWith "." (w :: ws))

theorem run_membership {us ds : List Piece} {x : Written} {m : Nat} (h : Nestable us x)
    (hm : count us ≤ m) :
    Run (condition (selectUpTo m false)) (membership us)
      (.ofQuery "Id" .isIn (x.query false)) ds := by
  have hsubject : Run subject [namePiece] (.field "Id")
      ([Piece.space, .keyword "IN" (by decide)] ++ ([Piece.space] ++ parenthesized us) ++ ds) :=
    run_subject_name "Id" _ (by simp [EndsName])
  have hcomparison : Run comparison [Piece.space, .keyword "IN" (by decide)] .isIn
      ([Piece.space] ++ parenthesized us ++ ds) :=
    (run_comparison _ (by decide) (by decide) _).blank_append blank_space
  have hcomparand : Run (comparand (selectUpTo m false)) ([Piece.space] ++ parenthesized us)
      (none, none, some (x.query false)) ds := (h.run_comparand hm).blank_append blank_space
  have hcomparing : Run (comparing (comparand (selectUpTo m false))) (membership us)
      (.field "Id", .isIn, none, none, some (x.query false)) ds :=
    hsubject.bind (hcomparison.bind (hcomparand.bind_pure fun r => (_, _, r)))
  rw [condition_eq]
  exact hcomparing.bind_pure conditionOf

theorem isCondition_membership {us : List Piece} {x : Written} (h : Nestable us x) :
    IsCondition (membership us) (.ofQuery "Id" .isIn (x.query false)) := by
  have hfit : Fits (membership us) [] := ⟨rfl, rfl, fits_parenthesized h.fits []⟩
  refine ⟨hfit, readAll_spell hfit (Run.get fun c hc => run_membership h ?_)⟩
  simp only [membership, count_append, count_parenthesized] at hc
  omega

theorem parse_membership {us : List Piece} {x : Written} (h : Nestable us x) :
    Query.parse ("SELECT Id FROM X WHERE Id IN (" ++ spell us ++ ")") =
      .ok (.filtered ⟨⟨some (.ofQuery "Id" .isIn (x.query false)), none⟩, []⟩) := by
  have hc := isCondition_membership h
  have hlast : (Formula.last (.condition false (.ofQuery "Id" .isIn (x.query false)))).Written
      (membership us) := ⟨[], membership us, rfl, rfl, hc, fun _ => rfl⟩
  obtain ⟨chain, hlinks, hrun⟩ := Formula.run_filter hlast trivial
  obtain rfl : chain = ⟨⟨some (.ofQuery "Id" .isIn (x.query false)), none⟩, []⟩ :=
    Chain.ext_links hlinks
  have hspell : spell (membership us) = "Id IN (" ++ spell us ++ ")" := by
    rw [membership, spell_append, spell_append, spell_append, spell_parenthesized]
    rfl
  have := parse_where hc.fits hrun
  rwa [hspell] at this

/-! ## The query as a field -/

theorem run_tail_nil (nested : Parser Query) :
    Run (tail nested) [] (none, ((none, none, none, none), []), none, none) [] :=
  Run.both_nil (run_afterKeyword_none rfl) (Run.both_nil run_body_none
    (Run.both_nil (run_afterKeyword_none rfl) (run_afterKeyword_none rfl)))

theorem parse_child {us : List Piece} {x : Written} (h : Nestable us x) :
    Query.parse ("SELECT (" ++ spell us ++ ") FROM X") =
      .ok (.ofObject "X" [.subquery (x.query true)]) := by
  have hspell : "SELECT (" ++ spell us ++ ") FROM X" =
      spell ([Piece.keyword "SELECT" (by decide)] ++
        ([Piece.space] ++ parenthesized us ++ sourcePieces)) := by
    rw [spell_append, spell_append, spell_append, spell_parenthesized]
    simp [sourcePieces]
  rw [hspell]
  refine parse_spell ?_ fun m hm => ?_
  · have hsource : Fits sourcePieces [] := ⟨rfl, rfl, trivial⟩
    have hfields : Fits ([Piece.space] ++ parenthesized us) (spell sourcePieces ++ []) :=
      fits_parenthesized h.fits _
    exact (fits_append ..).2 ⟨⟨rfl, trivial⟩, (fits_append ..).2 ⟨hfields, hsource⟩⟩
  · have hcount : count us + 3 ≤ m := by
      refine le_trans ?_ hm
      simp [count_parenthesized]
    obtain ⟨m, rfl⟩ : ∃ k, m = k + 1 := ⟨m - 1, by omega⟩
    have hfields : Run (commaSeparated (field (selectUpTo m true)))
        ([Piece.space] ++ parenthesized us) (.subquery (x.query true), []) sourcePieces := by
      refine run_commaSeparated (F := fun _ => True) (.one _) (.cons (fun ds _ => ?_) .nil) trivial
        trivial (by simp [sourcePieces])
      exact (h.run_field (by omega)).blank_append blank_space
    have hsource : Run (fromClause false) sourcePieces (.object "X", none) [] :=
      run_source (IsEnd.endsAlias (Or.inr rfl))
    have hselection := hfields.both (hsource.both_nil (run_tail_nil (selectUpTo m false)))
    change Run (selectWith (selectUpTo m) false) _ _ _
    rw [selectWith_eq]
    exact (run_expectKeyword (isKeyword_keyword "SELECT" (by decide)) _).bind
      (hselection.bind_pure Selection.query)

end Parser

namespace Query

/-- **A query means the same alone and nested.**  What is read from a text alone is read from it
    between parentheses, as a query to compare with and as a field.  A field has the names of the
    object in its source, joined by dots, and is the same query apart from that.  The filters of
    the query must close the parentheses that they open; those of the queries inside of it are
    between parentheses already. -/
theorem parse_nested {t : Text} {q : Query} (h : Query.parse t = .ok q)
    (hb : q.FiltersBalanced) :
    Query.parse ("SELECT Id FROM X WHERE Id IN (" ++ t ++ ")") =
      .ok (.filtered ⟨⟨some (.ofQuery "Id" .isIn q), none⟩, []⟩) ∧
    ∃ name path, q.source = .object (Text.joinWith "." (path ++ [name])) ∧
      Query.parse ("SELECT (" ++ t ++ ") FROM X") =
        .ok (.ofObject "X" [.subquery { q with source := .relationship name path }]) := by
  obtain ⟨us, x, rfl, rfl, hx⟩ := exists_nestable h hb
  refine ⟨parse_membership hx, lastName x.2.1.1.1 x.2.1.1.2, pathNames x.2.1.1.1 x.2.1.1.2, ?_,
    parse_child hx⟩
  rw [pathNames_lastName]
  rfl

/-- Parentheses of a query in the field list, of a group, a list and a call, and one in a string;
    the last one of the group ends the text. -/
def crowded : Text :=
  "SELECT (SELECT B FROM C) FROM E.F WHERE (A IN (')', 'x') OR g(E) = 2)"

theorem parse_nested_crowded : ∃ q, Query.parse crowded = .ok q ∧ q.FiltersBalanced ∧
    Query.parse ("SELECT Id FROM X WHERE Id IN (" ++ crowded ++ ")") =
      .ok (.filtered ⟨⟨some (.ofQuery "Id" .isIn q), none⟩, []⟩) ∧
    ∃ name path, q.source = .object (Text.joinWith "." (path ++ [name])) ∧
      Query.parse ("SELECT (" ++ crowded ++ ") FROM X") =
        .ok (.ofObject "X" [.subquery { q with source := .relationship name path }]) := by
  have hexcess : (Query.parse crowded).toOption.map Query.ownExcess = some 0 := by decide_cbv
  cases hq : Query.parse crowded with
  | error e =>
    rw [hq] at hexcess
    cases hexcess
  | ok q =>
    have hown : q.ownExcess = 0 := by
      rw [hq] at hexcess
      exact Option.some.inj hexcess
    have hb : q.FiltersBalanced :=
      (List.forall_mem_cons.1 (allFormed_of_parse hq).1).1.ownExcess.2.1 hown
    exact ⟨q, rfl, hb, parse_nested hq hb⟩

end Query

end Soql
