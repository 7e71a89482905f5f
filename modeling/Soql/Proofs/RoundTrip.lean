/-
  Round trips of query text.

  A query that was read is read back from its text, on one line as well as
  over several lines.  Only the texts that calls were written with may change,
  and only line feeds keep a layout over several lines from being read back:
  nested queries are indented as texts, literals and all.

  * `compose_parses_back`: on one line, reading and composing are inverse up
    to these texts, so composing again changes nothing.
  * `reformat_keeps_query`: over several lines, the text stands for the same
    query and is laid out already.
  * `reformat_literals_iff`: when the string literals stay what they are.
-/
import Mathlib
import Soql.Command.Basic
import Soql.Proofs.Parse.Select

namespace Soql

open Soql.Parser

namespace Query

variable {s : Text} {q : Query}

/-! ## On one line -/

/-- **A query is read back from its text on one line**, up to the texts of the calls that it
    selects and groups by, and its text does not depend on these. -/
theorem compose_parses_back (h : Query.parse s = .ok q) :
    ∃ p, Query.parse (q.compose {}) = .ok p ∧ p.forgetSources = q.forgetSources ∧
      p.compose {} = q.compose {} := by
  obtain ⟨us, hq, -⟩ := exists_queryPhrase h
  obtain ⟨p, hp, hforget⟩ := hq.parse_compose spaced_plain (Or.inl ⟨rfl, rfl⟩)
  refine ⟨p, ?_, hforget, compose_of_forgetSources hforget {}⟩
  rw [compose_eq]
  exact hp

/-- The alias of the source moves into a path, the `WITH` clause to the end, and the blanks inside
    of the call are gone. -/
theorem compose_parses_back_moved : ∃ q,
    Query.parse "select a.Id, max( B ) m from X a WITH SECURITY_ENFORCED GROUP BY C" = .ok q ∧
      ∃ p, Query.parse (q.compose {}) = .ok p ∧ p.forgetSources = q.forgetSources ∧
        p.compose {} = q.compose {} :=
  exists_parse (by decide +kernel) fun _ => compose_parses_back

/-! ## Over several lines -/

theorem reformat_eq (h : Query.parse s = .ok q) (o : LayoutOptions) :
    Query.reformat s o = .ok (q.compose (.spreading o)) := by
  simp only [Query.reformat, h]

theorem compose_spreading (q : Query) (o : LayoutOptions) :
    q.compose (.spreading o) = (Compose.query (.spread o) q).value :=
  compose_eq q _

/-- The literals of a query are those of the text that it was read from. -/
theorem strings_eq_literals (h : Query.parse s = .ok q) : q.strings.map Prod.snd = s.literals := by
  obtain ⟨us, hq, hlit⟩ := exists_queryPhrase h
  rw [← hlit, hq.literals, stringsAt]
  simp [Query.strings]

/-- **A query without line feeds in its literals and calls is read back from its text over several
    lines**, and that text is laid out already. -/
theorem reformat_keeps_query (o : LayoutOptions) (h : Query.parse s = .ok q)
    (hs : ∀ u ∈ s.literals, '\n' ∉ u) (hc : ∀ u ∈ q.callTexts, '\n' ∉ u) :
    ∃ t p, Query.reformat s o = .ok t ∧ Query.parse t = .ok p ∧
      p.compose {} = q.compose {} ∧ Query.reformat t o = .ok t := by
  obtain ⟨us, hq, -⟩ := exists_queryPhrase h
  have hline : OneLine q.parts := by
    refine hq.feeds.oneLine (fun x hx => ?_) fun x hx u hu => hc u (List.mem_flatMap.2 ⟨x, hx, hu⟩)
    refine hs x.2 ?_
    rw [← strings_eq_literals h]
    exact List.mem_map_of_mem hx
  obtain ⟨p, hp, hforget⟩ := hq.parse_compose (LayoutOptions.spaced_spread o) (Or.inr hline)
  rw [← compose_spreading] at hp
  refine ⟨_, p, reformat_eq h o, hp, compose_of_forgetSources hforget {}, ?_⟩
  rw [reformat_eq hp, compose_of_forgetSources hforget]

/-- A nested query with a condition, with the connectives indented. -/
theorem reformat_keeps_query_nested : ∃ (s : Text) (q : Query),
    s = "SELECT f( 'a' ), (SELECT Id FROM N WHERE A = 'b' OR B = 1) FROM X" ∧
      Query.parse s = .ok q ∧ ∃ t p, Query.reformat s { indentConnectives := true } = .ok t ∧
        Query.parse t = .ok p ∧ p.compose {} = q.compose {} ∧
        Query.reformat t { indentConnectives := true } = .ok t := by
  obtain ⟨s, hs⟩ : ∃ s : Text,
      s = "SELECT f( 'a' ), (SELECT Id FROM N WHERE A = 'b' OR B = 1) FROM X" := ⟨_, rfl⟩
  have hline : ∀ u ∈ s.literals, '\n' ∉ u := by
    subst hs
    decide +kernel
  have hcalls : (Query.parse s).toOption.any
      (fun q => q.callTexts.all (!·.contains '\n')) = true := by
    subst hs
    decide +kernel
  have hok : (Query.parse s).isOk = true := by
    subst hs
    decide +kernel
  obtain ⟨q, hq, h⟩ := exists_parse hok fun q h => by
    refine reformat_keeps_query { indentConnectives := true } h hline ?_
    rw [h] at hcalls
    simpa [Except.toOption] using hcalls
  exact ⟨s, q, hs, hq, h⟩

/-! ## String literals -/

/-- **When laying out a text keeps its string literals**: `q.strings` lists the literals of the
    text, each with the number of levels that the query around it is indented by, and a literal
    stays the same unless it is indented and holds a line feed. -/
theorem reformat_literals_iff (o : LayoutOptions) (h : Query.parse s = .ok q) :
    q.strings.map Prod.snd = s.literals ∧ ∃ t, Query.reformat s o = .ok t ∧
      (t.literals = s.literals ↔ o.tabs = 0 ∨ ∀ x ∈ q.strings, 0 < x.1 → '\n' ∉ x.2) := by
  obtain ⟨us, hq, hlit⟩ := exists_queryPhrase h
  refine ⟨strings_eq_literals h, _, reformat_eq h o, ?_⟩
  rw [compose_spreading, hq.literals_compose (LayoutOptions.spaced_spread o), ← hlit, hq.literals]
  exact stringsAt_eq_iff

/-- A line feed in a literal of the outer query, which is not indented. -/
theorem reformat_literals_iff_outer : ∃ q, Query.parse "SELECT Id FROM X WHERE A = 'a\nb'" = .ok q ∧
    q.strings.map Prod.snd = Text.literals "SELECT Id FROM X WHERE A = 'a\nb'" ∧
    ∃ t, Query.reformat "SELECT Id FROM X WHERE A = 'a\nb'" {} = .ok t ∧
      (t.literals = Text.literals "SELECT Id FROM X WHERE A = 'a\nb'" ↔
        ({} : LayoutOptions).tabs = 0 ∨ ∀ x ∈ q.strings, 0 < x.1 → '\n' ∉ x.2) :=
  exists_parse (by decide_cbv) fun _ => reformat_literals_iff {}

/-- A line feed in a literal of a nested query is followed by tabs afterwards. -/
theorem reformat_alters_literal :
    (Query.reformat "SELECT (SELECT Id FROM N WHERE A = 'a\nb') FROM X" {}).toOption.map
      Text.literals = some ["a\n\t\tb".toList] ∧
    Text.literals "SELECT (SELECT Id FROM N WHERE A = 'a\nb') FROM X" = ["a\nb".toList] := by
  decide_cbv

end Query

end Soql
