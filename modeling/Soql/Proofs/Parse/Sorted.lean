/-
  Queries that only have a sort key.

  A call may be sorted by in two ways: as it was written, and put together
  from its parts as a group key is.

  * `Query.sortedBy key`: the query of `SELECT Id FROM X ORDER BY` and a key.
  * `FlatCall.Cited s c`: the source text of `c` comes from `s`, and as a sort
    key both texts are read as `c`.
  * `parse_sorted`: such a query is read if its key is.
  * `cited_written`: the calls that are read are cited.
-/
import Mathlib
import Soql.Proofs.Parse.Where

namespace Soql

open Unicode Token Soql.Parser

/-- The sort key that is a call. -/
def SortKey.ofCall (c : FlatCall) : SortKey := { call := some c }

/-- The query that selects one field from an object, sorted by a key. -/
def Query.sortedBy (key : SortKey) : Query :=
  { ofObject "X" [.ofName "Id"] with sorting := some (.one key) }

/-- The source text of the call is a piece of the text `s` from its name to a closing parenthesis.
    As a sort key this text is read as the call, and so is the text that the call has as a group
    key, up to the source text. -/
structure FlatCall.Cited (s : Text) (c : FlatCall) : Prop where
  source : ∃ name source, c.name = some name ∧ c.source = some source ∧ source <:+: s ∧
    name <+: source ∧ source.getLast? = some ')'
  sorts : ∀ key, c.source = some key ∨ Grouping.text { call := some c } = key →
    Query.parse ("SELECT Id FROM X ORDER BY " ++ key) =
      .ok (.sortedBy (.ofCall { c with source := some key }))

namespace Parser

/-! ## Queries that only have a sort key -/

/-- The keyword of the sort keys, after blanks. -/
def orderPieces : List Piece :=
  [.space, .keyword "ORDER" (by decide), .space, .keyword "BY" (by decide)]

/-- The pieces in front of a sort key. -/
def sortPreamble : List Piece :=
  [selectPiece] ++ (fieldPieces ++ (sourcePieces ++ orderPieces))

theorem fits_sortPreamble {us : List Piece} (h : Fits us []) :
    Fits (sortPreamble ++ .space :: us) [] := by
  have hclosed : Closed sortPreamble :=
    closed_keyword (closed_keyword (closed_keyword (closed_keyword (closed_keyword
      (closed_token _ _) _ _) _ _) _ _) _ _) _ _
  exact (fits_append ..).2 ⟨hclosed _ (clean_cons (by decide) _), h⟩

theorem run_sortKey_bare {us : List Piece} {s : Subject} (h : ∀ ds, Run subject us s ds)
    {ds : List Piece} (hds : EndsKey (inView ds)) :
    Run sortKey us { field := s.field?, call := s.call? } ds := by
  have hnulls : Run (afterKeyword "NULLS" (expectKeywordOf .nullsPlace : Parser NullsPlace)) []
      none ds := run_afterKeyword_none (hds.isKeyword (by decide))
  exact (h ds).bind_nil ((run_order_none (Or.inr hds)).bind_nil (hnulls.bind_pure fun nulls =>
    ({ field := s.field?, call := s.call?, nulls } : SortKey)))

section Sorted

variable {us : List Piece} {key : SortKey}
  (h : ∀ ds, EndsKey (inView ds) → Run sortKey us key ds)

include h

theorem run_sorting_one : Run sorting us (.one key) [] := by
  rw [sorting_eq]
  have hrow : List.Forall₂ (fun us key => ∀ ds, EndsKey (inView ds) → Run sortKey us key ds) [us]
      [key] := .cons h .nil
  exact (run_commaSeparated (Row.one us) hrow (Or.inl rfl)
    (Or.inr (Or.inl (Or.inr rfl))) (by simp)).bind_pure sortKeysOf

theorem run_sortTail (nested : Parser Query) : Run (tail nested) (orderPieces ++ .space :: us)
    (none, ((none, some (.one key), none, none), []), none, none) [] := by
  have hkeys := (run_sorting_one h).blank_append blank_space
  have hby : Run (do expectKeyword "BY"; sorting)
      ([.space, .keyword "BY" (by decide)] ++ .space :: us) (.one key) [] :=
    (run_expectKeyword (isKeyword_space _) _).bind hkeys
  have hsort := run_afterKeyword (isKeyword_space (w := "ORDER") (by decide)) hby
  have hgroup : Run groupingClause [] none (orderPieces ++ .space :: us ++ []) :=
    Run.bind_nil (run_afterKeyword_none rfl) (Run.current fun l _ =>
      (run_afterKeyword_none rfl).bind_nil (Run.pure none _))
  have hmiddle : Run middle (orderPieces ++ .space :: us) (none, some (.one key), none, none) [] :=
    Run.nil_both hgroup (Run.both_nil hsort
      (Run.both_nil (run_afterKeyword_none rfl) (run_afterKeyword_none rfl)))
  have hbody : Run body (orderPieces ++ .space :: us ++ [])
      ((none, some (.one key), none, none), []) [] :=
    run_body (w := "ORDER") (by decide) rfl (by simpa using hmiddle) (run_withClauses_nil rfl)
  rw [List.append_nil] at hbody
  exact Run.nil_both (run_afterKeyword_none rfl) (Run.both_nil hbody
    (Run.both_nil (run_afterKeyword_none rfl) (run_afterKeyword_none rfl)))

theorem parse_sorted (hfit : Fits us []) :
    Query.parse ("SELECT Id FROM X ORDER BY " ++ spell us) = .ok (.sortedBy key) := by
  have hspell : spell (sortPreamble ++ .space :: us) = "SELECT Id FROM X ORDER BY " ++ spell us :=
    rfl
  rw [← hspell]
  refine parse_spell (fits_sortPreamble hfit) fun m hm => ?_
  have hcount : count (sortPreamble ++ .space :: us) = count us + 6 := by
    rw [count_append]
    exact Nat.add_comm 6 (count us)
  obtain ⟨m, rfl⟩ : ∃ k, m = k + 1 := ⟨m - 1, by omega⟩
  exact run_selected (orderPieces ++ .space :: us)
    (endsAlias_word (w := "ORDER") (by decide)) (run_sortTail h (selectUpTo m false))

end Sorted

/-! ## Calls as sort keys -/

section Call

variable {name : Text} {us os as cs : List Piece} {args : List Argument}

/-- The pieces of a call are a sort key. -/
theorem parse_sorted_call (h : Single (.word name) us) (ho : Single .openParen os)
    (hc : Single .closeParen cs) (ha : ArgumentsRun as args)
    (hfit : Fits (us ++ (os ++ (as ++ cs))) []) :
    Query.parse ("SELECT Id FROM X ORDER BY " ++ spell (us ++ (os ++ (as ++ cs)))) =
      .ok (.sortedBy (.ofCall
        (Call.written name args (name ++ spell (os ++ (as ++ cs)))).flatten)) :=
  parse_sorted (fun _ => run_sortKey_bare (run_subject_call h ho hc ha)) hfit

/-- A call that is read is cited in the text that it is read from. -/
theorem cited_written {s r : Text} (h : Single (.word name) us) (ho : Single .openParen os)
    (hc : Single .closeParen cs) (ha : ArgumentsPhrase as args)
    (hfit : Fits (us ++ (os ++ (as ++ cs))) r)
    (hs : name ++ spell (os ++ (as ++ cs)) <:+: s) :
    (Call.written name args (name ++ spell (os ++ (as ++ cs)))).flatten.Cited s where
  source := by
    refine ⟨name, _, rfl, rfl, hs, List.prefix_append .., ?_⟩
    obtain ⟨bs, hp, hb, rfl⟩ := hc
    simp [spelling]
  sorts := by
    have hname : spell [Piece.token (.word name) h.proper] = name := by simp [spelling]
    have hgroup (u : Text) : Grouping.text { call := some (Call.written name args u).flatten } =
        callText name (args.map Argument.flatText) := rfl
    rintro key (hkey | hkey)
    · cases Option.some.inj hkey
      have hagain := parse_sorted_call (Single.token h.proper) ho hc ha.again
        (Rewrites.again h hc hfit).closed.fits
      rw [spell_append, hname] at hagain
      rw [hagain]
      rfl
    · obtain ⟨vs, hvs, hr, -, hrun⟩ := ha.flat
      have hflat := parse_sorted_call (Single.token h.proper) (Single.mark .openParen rfl)
        (Single.mark .closeParen rfl) hrun (Rewrites.call h ho hc hr).closed.fits
      have htext : name ++ spell (callPieces vs) = key := by
        rw [← hkey, hgroup]
        simp [callText, hvs]
      rw [← callPieces, spell_append, hname, htext] at hflat
      rw [hflat]
      rfl

end Call

end Parser

end Soql
