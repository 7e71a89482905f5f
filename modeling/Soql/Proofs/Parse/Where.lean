/-
  Queries that only have a filter.

  * `Query.filtered chain`: the query of `SELECT Id FROM X WHERE` and a filter.
  * `parse_where`, `parse_where_rejected`: such a query is read if its filter
    is, and rejected if that is.
  * `Query.parse_filter_exact`: the filters of these queries are read as their
    chains, which tell them apart.
-/
import Mathlib
import Soql.Proofs.Parse.Grouped
import Soql.Query.Build

namespace Soql

open Unicode Token Soql.Parser

/-- The query that selects one field from an object, with a filter. -/
def Query.filtered (chain : Chain Condition) : Query :=
  { ofObject "X" [.ofName "Id"] with filter := some chain }

namespace Parser

/-! ## In front of the filter -/

/-- The keyword of a query. -/
abbrev selectPiece : Piece := .keyword "SELECT" (by decide)

/-- The name of a field. -/
abbrev namePiece : Piece := .keyword "Id" (by decide)

/-- The field, after a blank. -/
def fieldPieces : List Piece := [.space, namePiece]

/-- The source, after blanks. -/
def sourcePieces : List Piece :=
  [.space, .keyword "FROM" (by decide), .space, .keyword "X" (by decide)]

/-- The keyword of the filter, after a blank. -/
def wherePieces : List Piece := [.space, .keyword "WHERE" (by decide)]

theorem single_keyword (w : Text) (h : isPlainWord w = true) :
    Single (.word w) [Piece.space, .keyword w h] :=
  Single.blank_append blank_space (Single.token _)

theorem isKeyword_space {w : Text} (h : isPlainWord w = true) :
    IsKeyword w [Piece.space, .keyword w h] :=
  ⟨w, single_keyword w h, sameWord_self w⟩

theorem run_pathRest_nil {ds : List Piece} (h : inView ds ≠ .dot) : Run pathRest [] [] ds :=
  run_many (F := fun _ => True) .nil trivial (run_after_none h)

theorem run_fields (nested : Parser Query) {ds : List Piece} (h : inView ds = .word "FROM") :
    Run (commaSeparated (field nested)) fieldPieces (.ofName "Id", []) ds := by
  refine run_commaSeparated (F := fun t => t = .comma ∨ t = .word "FROM") (.one _)
    (.cons (fun ds hds => ?_) .nil) (Or.inl rfl) (Or.inr h) (by simp [h])
  have hends : EndsName (inView ds) ∧ ∀ w, inView ds = .word w → isReserved w = true := by
    rcases hds with hds | hds <;> rw [hds] <;> refine ⟨by simp [EndsName], ?_⟩
    · simp
    · rintro _ ⟨⟩
      decide
  refine run_field_named (w := "Id") rfl (by decide) ?_
  have hview : inView ([] ++ ds) ≠ .openParen := hends.1.2
  rw [← List.append_nil fieldPieces]
  refine run_path (single_keyword "Id" (by decide)) hview ?_
  exact Run.answer (run_pathRest_nil hends.1.1)
    ((run_aliasName_none hends.2).bind_pure fun a => fieldOf "Id" [] a)

theorem run_source {ds : List Piece} (h : EndsAlias (inView ds)) :
    Run (fromClause false) sourcePieces (.object "X", none) ds := by
  refine (run_expectKeyword (isKeyword_space (w := "FROM") (by decide)) _).bind ?_
  have hsource : Run (source false) [Piece.space, .keyword "X" (by decide)] (.object "X") ds := by
    rw [source_eq]
    have hpath : Run path [Piece.space, .keyword "X" (by decide)] ("X", []) ds :=
      (run_identifier (single_keyword "X" (by decide)) _ ds).bind_nil
        ((run_pathRest_nil h.1.1).bind_pure _)
    exact hpath.bind_pure (sourceOf false)
  exact Run.both_nil hsource (run_aliasName_none h.2)

theorem run_source_where {ds : List Piece} (h : inView ds = .word "WHERE") :
    Run (fromClause false) sourcePieces (.object "X", none) ds :=
  run_source (h ▸ endsAlias_word (by decide))

/-- The query of the field, the source and the clauses after it. -/
theorem run_selected {m : Nat} (vs : List Piece) {t : Tail} (hview : EndsAlias (inView vs))
    (h : Run (tail (selectUpTo m false)) vs t []) : Run (selectUpTo (m + 1) false)
      ([.keyword "SELECT" (by decide)] ++ (fieldPieces ++ (sourcePieces ++ vs)))
      (queryOf [.ofName "Id"] (.object "X", none) t) [] := by
  change Run (selectWith (selectUpTo m) false) _ _ _
  rw [selectWith_eq]
  have hsource : Run (fromClause false) sourcePieces (.object "X", none) (vs ++ []) :=
    run_source (by rwa [List.append_nil])
  have hselection := (run_fields (selectUpTo m true) rfl).both (hsource.both h)
  exact (run_expectKeyword (isKeyword_keyword "SELECT" (by decide)) _).bind
    (hselection.bind_pure Selection.query)

/-! ## After the filter -/

theorem run_body_none : Run body [] ((none, none, none, none), []) [] :=
  run_body_nil (run_middle_nil fun _ _ => rfl) (run_withClauses_nil rfl) rfl

theorem run_tail {nested : Parser Query} {us : List Piece} {chain : Chain Condition}
    (h : Run (filter nested) us chain []) :
    Run (tail nested) (wherePieces ++ us) (some chain, ((none, none, none, none), []), none, none)
      [] := by
  have hwhere := run_afterKeyword (isKeyword_space (w := "WHERE") (by decide)) h
  rw [← List.append_nil (wherePieces ++ us)]
  exact Run.both hwhere (Run.both_nil run_body_none
    (Run.both_nil (run_afterKeyword_none rfl) (run_afterKeyword_none rfl)))

/-! ## Whole queries -/

/-- The pieces in front of a filter. -/
def preamble : List Piece :=
  [selectPiece] ++ (fieldPieces ++ (sourcePieces ++ wherePieces))

theorem spell_preamble (us : List Piece) :
    spell (preamble ++ .space :: us) = "SELECT Id FROM X WHERE " ++ spell us := rfl

theorem fits_preamble {us : List Piece} (h : Fits us []) : Fits (preamble ++ .space :: us) [] := by
  have hclosed : Closed preamble :=
    closed_keyword (closed_keyword (closed_keyword (closed_keyword (closed_token _ _) _ _) _ _) _ _)
      _ _
  exact (fits_append ..).2 ⟨hclosed _ (clean_cons (by decide) _), h⟩

theorem parse_rejects {vs : List Piece} (hfit : Fits vs [])
    (h : ∀ m, count vs ≤ m → Rejects (selectUpTo m false) vs) : ∃ position,
      Query.parse (spell vs) = .error (.unsupported .negatedGroupInParentheses position) := by
  have hsize := count_le_size (spell vs).length vs
  obtain ⟨position, c, hc⟩ := h ((cursor (spell vs).length vs).size + 1) (by omega) _ le_rfl
  have hselect : select (cursor (spell vs).length vs) =
      .error (.unsupported .negatedGroupInParentheses position) c := hc
  have hall := bind_of_error (g := fun q => expect .finish .endOfQuery >>= fun _ => pure q) hselect
  refine ⟨position, ?_⟩
  rw [parse_eq, readAll, ofText_spell hfit, ofLexemes_placed]
  simp only [hall]

section Where

variable {us : List Piece} {m : Nat}

theorem run_preamble {chain : Chain Condition} (h : Run (filter (selectUpTo m false)) us chain []) :
    Run (selectUpTo (m + 1) false) (preamble ++ .space :: us) (.filtered chain) [] :=
  run_selected (wherePieces ++ .space :: us) (endsAlias_word (w := "WHERE") (by decide))
    (run_tail (h.blank_append blank_space))

/-- A query is rejected if its filter is. -/
theorem rejects_preamble (h : Rejects (filter (selectUpTo m false)) us) :
    Rejects (selectUpTo (m + 1) false) (preamble ++ .space :: us) := by
  change Rejects (selectWith (selectUpTo m) false) _
  rw [selectWith_eq]
  have hfilter : Rejects (filter (selectUpTo m false)) (.space :: us) := h.blank_append blank_space
  have hwhere : Rejects (afterKeyword "WHERE" (filter (selectUpTo m false)))
      (wherePieces ++ .space :: us) :=
    (run_eatKeyword (isKeyword_space (w := "WHERE") (by decide)) _).rejects (hfilter.bind _)
  have htail : Rejects (tail (selectUpTo m false)) (wherePieces ++ .space :: us) := hwhere.bind _
  have hselection := (run_fields (selectUpTo m true) rfl).rejects_both
    ((run_source_where rfl).rejects_both htail)
  exact (run_expectKeyword (isKeyword_keyword "SELECT" (by decide)) _).rejects (hselection.bind _)

theorem count_preamble (us : List Piece) : count (preamble ++ .space :: us) = count us + 5 := by
  rw [count_append]
  exact Nat.add_comm 5 (count us)

theorem parse_where {chain : Chain Condition} (hfit : Fits us [])
    (h : ∀ m, count us ≤ m → Run (filter (selectUpTo m false)) us chain []) :
    Query.parse ("SELECT Id FROM X WHERE " ++ spell us) = .ok (.filtered chain) := by
  rw [← spell_preamble]
  refine parse_spell (fits_preamble hfit) fun m hm => ?_
  rw [count_preamble] at hm
  obtain ⟨m, rfl⟩ : ∃ k, m = k + 1 := ⟨m - 1, by omega⟩
  exact run_preamble (h m (by omega))

theorem parse_where_rejected (hfit : Fits us [])
    (h : ∀ m, count us ≤ m → Rejects (filter (selectUpTo m false)) us) : ∃ position,
      Query.parse ("SELECT Id FROM X WHERE " ++ spell us) =
        .error (.unsupported .negatedGroupInParentheses position) := by
  rw [← spell_preamble]
  refine parse_rejects (fits_preamble hfit) fun m hm => ?_
  rw [count_preamble] at hm
  obtain ⟨m, rfl⟩ : ∃ k, m = k + 1 := ⟨m - 1, by omega⟩
  exact rejects_preamble (h m (by omega))

end Where

/-! ## Filters for examples -/

/-- The pieces of `A = 1`. -/
def equation : List Piece :=
  [.keyword "A" (by decide), .space, .mark .eq rfl, .space,
    .token (.number (Text.decimal 1)) (proper_decimal 1)]

theorem closed_equation : Closed equation :=
  closed_keyword ((closed_token _ (proper_decimal 1)).token_blank _ _) _ _

/-- The condition of `A = 1`. -/
def equated : Condition :=
  { Condition.ofValue "A" .equal (.single "1") with kinds := some (.uniform .integer) }

theorem isCondition_equation : IsCondition equation equated := ⟨closed_equation.fits, rfl⟩

end Parser

namespace Query

/-- **Filters are read as chains, which tell them apart.**  Where no group starts with the negation
    of another one a filter is read as its chain, and no other filter is read as the same chain.
    All other filters are rejected. -/
theorem parse_filter_exact {f : Formula} {us : List Piece} (hw : f.Written us)
    (hfit : Fits us []) :
    (f.Admissible → ∃ chain : Chain Condition,
      Query.parse ("SELECT Id FROM X WHERE " ++ spell us) = .ok (.filtered chain) ∧
      chain.links = f.links 0 0 none ∧ chain.links.flatMap Link.signs = f.signs ∧
      ∀ g vs, Formula.Written g vs → Fits vs [] →
        Query.parse ("SELECT Id FROM X WHERE " ++ spell vs) = .ok (.filtered chain) → g = f) ∧
    (¬ f.Admissible → ∃ position, Query.parse ("SELECT Id FROM X WHERE " ++ spell us) =
      .error (.unsupported .negatedGroupInParentheses position)) := by
  refine ⟨fun ha => ?_, fun ha => parse_where_rejected hfit fun m => f.rejects_filter hw ha⟩
  obtain ⟨chain, hlinks, hrun⟩ := f.run_filter hw ha
  have hsigns : chain.links.flatMap Link.signs = f.signs := by
    rw [hlinks, f.flatMap_signs_links 0 0 none ha (by simp) hw.bare]
    simp
  refine ⟨chain, parse_where hfit hrun, hlinks, hsigns, fun g vs hg hfit' hparse => ?_⟩
  have hga : g.Admissible := by
    by_contra hga
    obtain ⟨position, herror⟩ := parse_where_rejected hfit' fun m => g.rejects_filter hg hga
    rw [hparse] at herror
    cases herror
  obtain ⟨chain', hlinks', hrun'⟩ := g.run_filter hg hga
  rw [parse_where hfit' hrun'] at hparse
  obtain rfl : chain' = chain := by simpa [Query.filtered] using hparse
  exact Formula.links_inj hga ha hg.bare hw.bare (hlinks'.symm.trans hlinks)

/-- A negated condition and a negated group, and a negated group in another one. -/
theorem parse_filter_exact_negated : Condition.parse "A = 1" = .ok equated ∧
    (∃ chain : Chain Condition,
      Query.parse "SELECT Id FROM X WHERE NOT A = 1 OR NOT (A = 1)" = .ok (.filtered chain) ∧
      chain.links = [⟨some (equated.surround 0 true 0), some .or⟩, ⟨none, some .not⟩,
        ⟨some (equated.surround 1 false 1), none⟩]) ∧
    ∃ position, Query.parse "SELECT Id FROM X WHERE (NOT (A = 1))" =
      .error (.unsupported .negatedGroupInParentheses position) := by
  have hc := isCondition_equation
  have hnot : IsKeyword "NOT" [.space, notPiece] := isKeyword_space (by decide)
  have hor : IsKeyword "OR" [.space, .keyword "OR" (by decide)] := isKeyword_space (by decide)
  have hopen : Single .openParen [.space, .openParen] :=
    Single.blank_append blank_space (Single.token _)
  have hlast : (Formula.last (.condition false equated)).Written equation :=
    ⟨[], equation, rfl, rfl, hc, fun _ => rfl⟩
  have hcondition : (Term.condition true equated).Written ([notPiece] ++ ([.space] ++ equation)) :=
    ⟨_, _, rfl, isKeyword_not, hc.blank_append blank_space, by simp⟩
  have hgroup {ns : List Piece} (hn : IsKeyword "NOT" ns) :
      (Term.group true (.last (.condition false equated))).Written
        (ns ++ ([.space, .openParen] ++ (equation ++ [.closeParen]))) :=
    ⟨_, _, _, _, rfl, hn, hopen, hlast, Single.token _⟩
  obtain ⟨chain, hparse, hlinks, -⟩ :=
    (parse_filter_exact (f := .join (.condition true equated) .or (.last _))
      ⟨_, _, _, rfl, hcondition, hor, hgroup hnot⟩
      ⟨rfl, rfl, rfl, rfl, rfl, rfl, rfl, rfl, rfl, rfl, rfl, trivial⟩).1 ⟨trivial, rfl, trivial⟩
  have hrejected := (parse_filter_exact (f := .last (.group false (.last _)))
    ⟨[], [.openParen], _, [.closeParen], rfl, rfl, Single.token _, hgroup isKeyword_not,
      Single.token _⟩
    ⟨rfl, rfl, rfl, rfl, rfl, rfl, rfl, rfl, trivial⟩).2 fun h => Bool.noConfusion h.1
  exact ⟨hc.reads, ⟨chain, hparse, hlinks⟩, hrejected⟩

end Query

end Soql
