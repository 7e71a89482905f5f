/-
  The parts of a query that may hold string literals.

  Nested queries are laid out with indentation, so each part is listed with
  the number of levels that its text is indented by.

  * `Part`, `Part.text`, `Part.callTexts`: a part, the text it is composed to
    and the function calls in it as they were written.
  * `Query.parts`: the parts of a query in the order in which they are written.
  * `Query.strings`: the string literals of a query with their levels.
  * `stringsAt k ps`: these literals where a level is `k` tabs.
-/
import Mathlib
import Soql.Proofs.Query.Sources
import Soql.Proofs.Token.Indented

namespace Soql

/-- A part of a query that may hold string literals. -/
inductive Part where
  /-- A call among the fields. -/
  | call (c : Call)
  /-- What a condition compares. -/
  | subject (field : Option Text) (call : Option FlatCall)
  /-- What it compares with. -/
  | value (v : FilterValue) (kinds : Option LiteralKinds)
  /-- The keys of `GROUP BY`. -/
  | grouping (fields : Option GroupFields) (call : Option FlatCall)
  /-- What a condition of `HAVING` compares with. -/
  | groupValue (value : Text)
  /-- A key of `ORDER BY`. -/
  | sortKey (key : SortKey)

namespace Part

/-- The text of a part. -/
def text : Part → Text
  | call c => (Compose.call .plain c).value
  | subject field c => subjectText field c
  | value v kinds => v.render kinds
  | grouping fs c => Grouping.text { fields := fs, call := c }
  | groupValue t => t
  | sortKey key => key.text

/-- The function calls of a part, each with the calls inside of it, as they were written. -/
def callTexts : Part → List Text
  | call c => c.source.toList
  | subject _ c => (c.bind FlatCall.source).toList
  | value _ _ => []
  | grouping _ c => (c.bind FlatCall.source).toList
  | groupValue _ => []
  | sortKey key => (key.call.bind FlatCall.source).toList

end Part

/-- The parts of a nested query, which is indented by so many levels. -/
def deeper (level : Nat) (ps : List (Nat × Part)) : List (Nat × Part) :=
  ps.map fun x => (level + x.1, x.2)

/-- The parts of a condition of `HAVING`. -/
def GroupCondition.parts (c : GroupCondition) : List (Nat × Part) :=
  [(0, .subject c.field c.call), (0, .groupValue c.value)]

/-- The parts of a grouping. -/
def Grouping.parts (g : Grouping) : List (Nat × Part) :=
  (0, .grouping g.fields g.call) :: (g.having.toList.flatMap Chain.links).flatMap fun link =>
    link.condition.toList.flatMap GroupCondition.parts

/-- The keys in order. -/
def SortKeys.toList : SortKeys → List SortKey
  | one key => [key]
  | many keys => keys

/-- The parts of sort keys. -/
def SortKeys.parts (keys : SortKeys) : List (Nat × Part) :=
  keys.toList.map fun key => (0, .sortKey key)

mutual

/-- The parts of a query in order, each with the levels that it is indented by. -/
def Query.parts : Query → List (Nat × Part)
  | ⟨fs, _, _, filter, grouping, sorting, _, _, _, _, _, _⟩ =>
    Field.partsAll fs ++ Condition.partsFilter filter ++ grouping.toList.flatMap Grouping.parts
      ++ sorting.toList.flatMap SortKeys.parts

/-- The parts of fields in order. -/
def Field.partsAll : List Field → List (Nat × Part)
  | [] => []
  | f :: fs => f.parts ++ Field.partsAll fs

/-- The parts of a field. -/
def Field.parts : Field → List (Nat × Part)
  | .call c => [(0, .call c)]
  | .subquery q => deeper 2 q.parts
  | .plain _ | .path _ | .typeOf _ => []

/-- The parts of a filter. -/
def Condition.partsFilter : Option (Chain Condition) → List (Nat × Part)
  | none => []
  | some ⟨head, tail⟩ => Condition.partsLink head ++ Condition.partsLinks tail

/-- The parts of links in order. -/
def Condition.partsLinks : List (Link Condition) → List (Nat × Part)
  | [] => []
  | l :: ls => Condition.partsLink l ++ Condition.partsLinks ls

/-- The parts of a link. -/
def Condition.partsLink : Link Condition → List (Nat × Part)
  | ⟨none, _⟩ => []
  | ⟨some c, _⟩ => c.parts

/-- The parts of a condition. -/
def Condition.parts : Condition → List (Nat × Part)
  | ⟨_, _, _, field, call, _, value, kinds, query⟩ =>
    (0, .subject field call) :: Query.partsOption value kinds query

/-- The parts of what a condition compares with. -/
def Query.partsOption (value : Option FilterValue) (kinds : Option LiteralKinds) :
    Option Query → List (Nat × Part)
  | some q => deeper 1 q.parts
  | none => value.toList.map fun v => (0, .value v kinds)

end

/-! ## String literals -/

/-- The string literals of parts with the levels that they are indented by. -/
def strings (ps : List (Nat × Part)) : List (Nat × Text) :=
  ps.flatMap fun x => x.2.text.literals.map fun u => (x.1, u)

/-- The string literals of a query in order, with the levels that they are indented by. -/
def Query.strings (q : Query) : List (Nat × Text) := Soql.strings q.parts

/-- The texts of the function calls of a query, outside of one another. -/
def Query.callTexts (q : Query) : List Text := q.parts.flatMap fun x => x.2.callTexts

/-- The string literals of parts where an indentation level is `k` tabs. -/
def stringsAt (k : Nat) (ps : List (Nat × Part)) : List Text :=
  (strings ps).map fun x => indented (k * x.1) x.2

section StringsAt

variable {k : Nat} {ps qs : List (Nat × Part)}

@[simp] theorem stringsAt_nil (k : Nat) : stringsAt k [] = [] := rfl

@[simp] theorem stringsAt_append (k : Nat) (ps qs : List (Nat × Part)) :
    stringsAt k (ps ++ qs) = stringsAt k ps ++ stringsAt k qs := by
  simp [stringsAt, strings]

theorem stringsAt_cons (k : Nat) (x : Nat × Part) (ps : List (Nat × Part)) :
    stringsAt k (x :: ps) = stringsAt k [x] ++ stringsAt k ps := stringsAt_append k [x] ps

@[simp] theorem stringsAt_top (k : Nat) (p : Part) : stringsAt k [(0, p)] = p.text.literals := by
  simp [stringsAt, strings, Function.comp_def]

theorem stringsAt_deeper (k level : Nat) (ps : List (Nat × Part)) :
    stringsAt k (deeper level ps) = (stringsAt k ps).map (indented (k * level)) := by
  simp only [stringsAt, strings, deeper, List.flatMap_map, List.map_flatMap, List.map_map]
  congr 1
  funext x
  simp [Function.comp_def, Nat.mul_add]

@[simp] theorem stringsAt_zero_deeper (level : Nat) (ps : List (Nat × Part)) :
    stringsAt 0 (deeper level ps) = stringsAt 0 ps := by
  rw [stringsAt_deeper, Nat.zero_mul, List.map_congr_left fun t _ => indented_zero t, List.map_id']

theorem stringsAt_eq_iff : stringsAt k ps = stringsAt 0 ps ↔
    k = 0 ∨ ∀ x ∈ strings ps, 0 < x.1 → '\n' ∉ x.2 := by
  simp only [stringsAt, Nat.zero_mul, indented_zero, List.map_inj_left, indented_eq_self_iff,
    Nat.mul_eq_zero]
  constructor
  · intro h
    by_cases hk : k = 0
    · exact Or.inl hk
    · refine Or.inr fun x hx hpos => ?_
      rcases h x hx with (h | h) | h
      · exact absurd h hk
      · omega
      · exact h
  · rintro (rfl | h) x hx
    · exact Or.inl (Or.inl rfl)
    · by_cases hx0 : x.1 = 0
      · exact Or.inl (Or.inr hx0)
      · exact Or.inr (h x hx (by omega))

end StringsAt

/-! ## Parts without line feeds -/

/-- No part holds a line feed. -/
def OneLine (ps : List (Nat × Part)) : Prop := ∀ x ∈ ps, '\n' ∉ x.2.text

/-- The line feeds of every part stand in its string literals and its function calls. -/
def Feeds (ps : List (Nat × Part)) : Prop :=
  ∀ x ∈ ps, '\n' ∈ x.2.text → ∃ u ∈ x.2.text.literals ++ x.2.callTexts, '\n' ∈ u

section OneLine

variable {ps qs : List (Nat × Part)} {level : Nat}

@[simp] theorem oneLine_append : OneLine (ps ++ qs) ↔ OneLine ps ∧ OneLine qs := by
  simp only [OneLine, List.mem_append, or_imp, forall_and]

@[simp] theorem oneLine_cons {x : Nat × Part} :
    OneLine (x :: ps) ↔ '\n' ∉ x.2.text ∧ OneLine ps := by
  simp [OneLine]

@[simp] theorem oneLine_deeper : OneLine (deeper level ps) ↔ OneLine ps := by
  simp only [OneLine, deeper, List.forall_mem_map]

@[simp] theorem feeds_append : Feeds (ps ++ qs) ↔ Feeds ps ∧ Feeds qs := by
  simp only [Feeds, List.mem_append, or_imp, forall_and]

theorem feeds_cons {x : Nat × Part} : Feeds (x :: ps) ↔ Feeds [x] ∧ Feeds ps := by
  rw [← List.singleton_append, feeds_append]

theorem feeds_nil : Feeds [] := by simp [Feeds]

theorem feeds_single {p : Part}
    (h : '\n' ∈ p.text → ∃ u ∈ p.text.literals ++ p.callTexts, '\n' ∈ u) (n : Nat) :
    Feeds [(n, p)] := by
  intro x hx
  obtain rfl := List.mem_singleton.1 hx
  exact h

@[simp] theorem feeds_deeper : Feeds (deeper level ps) ↔ Feeds ps := by
  simp only [Feeds, deeper, List.forall_mem_map]

/-- Parts hold no line feed if their string literals and their function calls do not. -/
theorem Feeds.oneLine (h : Feeds ps) (hs : ∀ x ∈ strings ps, '\n' ∉ x.2)
    (hc : ∀ x ∈ ps, ∀ u ∈ x.2.callTexts, '\n' ∉ u) : OneLine ps := by
  intro x hx hm
  obtain ⟨u, hu, hn⟩ := h x hx hm
  rcases List.mem_append.1 hu with hu | hu
  · refine hs (x.1, u) ?_ hn
    exact List.mem_flatMap.2 ⟨x, hx, List.mem_map.2 ⟨u, hu, rfl⟩⟩
  · exact hc x hx u hu hn

end OneLine

end Soql
