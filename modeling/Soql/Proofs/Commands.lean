/-
  Commands that hand queries on as JSON.

  A parsed query is written as JSON, and read and composed by another
  command.  A filter takes one level of JSON for each of its links, so a text
  may stand for a query that is written but not read again.

  * `Query.storable_of_parse`: the queries that are read can be stored.
  * `Command.parsed_read_back_iff`: a parsed query is read again from the
    output of the command, unless its form is too deep.
  * `Command.long_filter_refused`: the form of a long filter is.
-/
import Mathlib
import Soql.Command.Basic
import Soql.Proofs.Codec.Texts
import Soql.Proofs.Parse.Shape
import Soql.Proofs.Parse.Where

namespace Soql

open Unicode Token Soql.Parser Json

variable {s : Text} {q : Query}

/-- The queries that are read can be stored, as far as their counts of parentheses can. -/
theorem Query.storable_of_parse (h : Query.parse s = .ok q)
    (hcounts : ∀ r ∈ q.all, r.CountsFit) : ∀ r ∈ q.all, r.Storable := by
  intro r hr
  refine ⟨hcounts r hr, fun hkeys => ?_⟩
  have hformed : ∃ isField, r.Formed isField := by
    rcases List.mem_cons.1 hr with rfl | hr
    · exact ⟨false, (Query.allFormed_of_parse h).1 _ List.mem_cons_self⟩
    · obtain ⟨x, hx, rfl⟩ := List.mem_map.1 hr
      exact ⟨x.1, (Query.allFormed_of_parse h).1 x (List.mem_cons_of_mem _ hx)⟩
  obtain ⟨isField, hformed⟩ := hformed
  have := (hformed.sorting _ hkeys).many [] rfl
  simp at this

namespace Command

/-- The text that a parsed query is written as is read again as far as it may be deep. -/
theorem ofJsonText_output (h : Query.parse s = .ok q) (hcounts : ∀ r ∈ q.all, r.CountsFit)
    (pretty : Bool) : ∃ t, Command.run (.parse s pretty) = .ok t ∧
      Query.ofJsonText t = if (Encode.query q).depth ≤ maxDepth then .ok q
        else .error (.json .malformed) := by
  have hstorable := Query.storable_of_parse h hcounts
  simp only [Command.run, h]
  cases pretty with
  | false => exact ⟨_, rfl, Query.ofJsonText_toJsonText hstorable⟩
  | true => exact ⟨_, rfl, Query.ofJsonText_toJsonPretty hstorable⟩

/-- **When a parsed query survives the way through JSON**: the output of the command that parses
    is always there, compact or over several lines, and the query is read again from it and
    composed if and only if its form is not deeper than what is read.  Otherwise the output is
    refused as malformed. -/
theorem parsed_read_back_iff (h : Query.parse s = .ok q) (hcounts : ∀ r ∈ q.all, r.CountsFit)
    (pretty : Bool) : ∃ t, Command.run (.parse s pretty) = .ok t ∧
      (Query.ofJsonText t = .ok q ↔ (Encode.query q).depth ≤ maxDepth) ∧
      (Command.run (.compose (some t) false false) = .ok (q.compose {}) ↔
        (Encode.query q).depth ≤ maxDepth) ∧
      (maxDepth < (Encode.query q).depth → Query.ofJsonText t = .error (.json .malformed) ∧
        Command.run (.compose (some t) false false) = .error (.query (.json .malformed))) := by
  obtain ⟨t, hrun, hread⟩ := ofJsonText_output h hcounts pretty
  refine ⟨t, hrun, ?_⟩
  by_cases hdepth : (Encode.query q).depth ≤ maxDepth
  · rw [if_pos hdepth] at hread
    simp [Command.run, hread, hdepth]
  · rw [if_neg hdepth] at hread
    simp [Command.run, hread, hdepth]

/-- A call, a query in the field list, and a filter with a group and a list. -/
theorem parsed_read_back_iff_nested :
    let s : Text := "SELECT f(A), (SELECT B FROM C) FROM X WHERE (D = 1 OR E IN ('x', 2))"
    ∃ q t, Query.parse s = .ok q ∧ Command.run (.parse s true) = .ok t ∧
      Query.ofJsonText t = .ok q ∧
      Command.run (.compose (some t) false false) = .ok (q.compose {}) := by
  intro s
  have hcheck : (Query.parse s).toOption.all (fun q => decide ((∀ r ∈ q.all, r.CountsFit) ∧
      (Encode.query q).depth ≤ maxDepth)) = true := by decide +kernel
  have hok : (Query.parse s).isOk = true := by decide +kernel
  obtain ⟨q, hq, t, hrun, hread, hcompose, -⟩ := exists_parse hok fun q hq => by
    rw [hq] at hcheck
    exact parsed_read_back_iff hq (of_decide_eq_true hcheck).1 true
  rw [hq] at hcheck
  have hdepth := (of_decide_eq_true hcheck).2
  exact ⟨q, t, hq, hrun, hread.2 hdepth, hcompose.2 hdepth⟩

end Command

/-! ## Long filters -/

/-- Every link of a filter lies deeper in the form of the query. -/
theorem Query.length_filter_lt_depth {chain : Chain Condition} (h : chain ∈ q.filter) :
    chain.links.length < (Encode.query q).depth := by
  obtain ⟨x, xs⟩ := chain
  exact lt_of_le_of_lt (Encode.length_lt_depth_chain Encode.condition x xs) (depth_filter_lt h)

/-- The same condition several times more than once, joined by `AND`. -/
def conjunction (c : Condition) : Nat → Formula
  | 0 => .last (.condition false c)
  | n + 1 => .join (.condition false c) .and (conjunction c n)

theorem length_links_conjunction (c : Condition) (n : Nat) :
    ((conjunction c n).links 0 0 none).length = n + 1 := by
  induction n with
  | zero => rfl
  | succ n ih =>
    rw [conjunction, Formula.links, List.length_append, ih, Term.links, List.length_singleton]
    omega

theorem condition_of_mem_conjunction (c : Condition) (n : Nat) :
    ∀ x ∈ (conjunction c n).links 0 0 none, x.condition = some (c.surround 0 false 0) := by
  induction n with
  | zero => simp [conjunction, Formula.links, Term.links]
  | succ n ih =>
    intro x hx
    rw [conjunction, Formula.links, List.mem_append] at hx
    rcases hx with hx | hx
    · obtain rfl := List.mem_singleton.1 hx
      rfl
    · exact ih x hx

theorem admissible_conjunction (c : Condition) (n : Nat) : (conjunction c n).Admissible := by
  induction n with
  | zero => trivial
  | succ n ih => exact ⟨trivial, ih⟩

/-- The pieces of ` AND A = 1`, several times. -/
def moreEquations : Nat → List Piece
  | 0 => []
  | n + 1 => [.space, .keyword "AND" (by decide)] ++ (([.space] ++ equation) ++ moreEquations n)

theorem spell_moreEquations (n : Nat) :
    spell (moreEquations n) = (List.replicate n (" AND A = 1" : Text)).flatten := by
  induction n with
  | zero => rfl
  | succ n ih =>
    have hone : spell ([Piece.space, .keyword "AND" (by decide)] ++ ([Piece.space] ++ equation)) =
        " AND A = 1" := by decide
    rw [moreEquations, ← List.append_assoc, spell_append, hone, ih, List.replicate_succ,
      List.flatten_cons]

theorem closed_moreEquations (n : Nat) :
    Closed (moreEquations n) ∧ Clean (spell (moreEquations n)) := by
  induction n with
  | zero => exact ⟨blank_nil.closed, by simp [moreEquations, Clean]⟩
  | succ n ih =>
    exact ⟨closed_space (closed_keyword (closed_equation.append ih.1 ih.2) _ _),
      clean_cons (by decide) _⟩

theorem written_conjunction (n : Nat) {us : List Piece} (hu : IsCondition us equated)
    (hnot : (inView us).isKeyword "NOT" = false) :
    (conjunction equated n).Written (us ++ moreEquations n) := by
  induction n generalizing us with
  | zero =>
    rw [moreEquations, List.append_nil]
    exact ⟨[], us, rfl, rfl, hu, fun _ => hnot⟩
  | succ n ih =>
    refine ⟨us, _, _, rfl, ⟨[], us, rfl, rfl, hu, fun _ => hnot⟩, ?_,
      ih (isCondition_equation.blank_append blank_space) rfl⟩
    exact isKeyword_space (by decide)

/-- A query whose filter only has a condition without parentheses and without a query, several
    times, can be stored. -/
theorem Query.countsFit_filtered {chain : Chain Condition} {c : Condition} (hq : c.query = none)
    (h : ∀ x ∈ chain.links, x.condition = some (c.surround 0 false 0)) :
    ∀ r ∈ (Query.filtered chain).all, r.CountsFit := by
  have hcond : ∀ d ∈ chain.conditions, d = c.surround 0 false 0 := by
    intro d hd
    obtain ⟨x, hx, hxd⟩ := List.mem_filterMap.1 hd
    rw [h x hx] at hxd
    exact (Option.some.inj hxd).symm
  have hinner : (Query.filtered chain).inner = [] := by
    have hnone : chain.conditions.flatMap Condition.inner = [] := by
      refine List.flatMap_eq_nil_iff.2 fun d hd => ?_
      rw [hcond d hd]
      change Query.innerOption c.query = []
      rw [hq]
      rfl
    rw [Query.inner_eq]
    change [] ++ (chain.conditions ++ []).flatMap Condition.inner = []
    rw [List.append_nil, hnone, List.nil_append]
  intro r hr
  obtain rfl : r = .filtered chain := by simpa [Query.all, hinner] using hr
  refine ⟨fun chain' hchain => ?_, fun chain' hchain => by cases hchain⟩
  obtain rfl : chain = chain' := Option.some.inj hchain
  intro d hd
  rw [hcond d hd]
  have hsize : 0 < UInt32.size := by decide
  exact ⟨hsize, hsize⟩

namespace Command

/-- The output for a filter of 127 links is refused. -/
theorem long_filter_refused :
    let s : Text := "SELECT Id FROM X WHERE A = 1" ++
      (List.replicate 126 (" AND A = 1" : Text)).flatten
    ∃ q t, Query.parse s = .ok q ∧ Command.run (.parse s false) = .ok t ∧
      Query.ofJsonText t = .error (.json .malformed) := by
  intro s
  obtain ⟨chain, hlinks, hrun⟩ :=
    (conjunction equated 126).run_filter (written_conjunction 126 isCondition_equation rfl)
      (admissible_conjunction _ _)
  have hclosed := closed_moreEquations 126
  have hparse : Query.parse s = .ok (.filtered chain) := by
    have hstart : "SELECT Id FROM X WHERE " ++ spell equation =
        ("SELECT Id FROM X WHERE A = 1" : Text) := by decide
    have hparse := parse_where (closed_equation.append hclosed.1 hclosed.2).fits hrun
    rwa [spell_append, spell_moreEquations, ← List.append_assoc, hstart] at hparse
  have hcounts : ∀ r ∈ (Query.filtered chain).all, r.CountsFit := by
    refine Query.countsFit_filtered (c := equated) rfl ?_
    rw [hlinks]
    exact condition_of_mem_conjunction equated 126
  have hdepth : maxDepth < (Encode.query (.filtered chain)).depth := by
    have hlength : chain.links.length < (Encode.query (.filtered chain)).depth :=
      Query.length_filter_lt_depth rfl
    rwa [hlinks, length_links_conjunction] at hlength
  obtain ⟨t, hout, hread⟩ := ofJsonText_output hparse hcounts false
  rw [if_neg (Nat.not_le.2 hdepth)] at hread
  exact ⟨_, t, hparse, hout, hread⟩

end Command

end Soql
