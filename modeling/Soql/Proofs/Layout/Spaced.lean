/-
  Layouts that only put blanks between tokens.

  What a layout may do to a query is said once, for the layout on one line and
  the layout over several lines alike.

  * `Layout.Spaced l k`: the layout adds blanks, commas and parentheses only,
    and indents the text of a nested query by `k` tabs for each level.
  * `spaced_plain`, `spaced_spread`: the two layouts are like this.
-/
import Mathlib
import Soql.Layout.Spread
import Soql.Proofs.Parse.Rows

namespace Soql

open Unicode

/-- The text is made of blanks. -/
def BlankText (b : Text) : Prop := ∀ c ∈ b, isBlank c

/-- The layout adds blanks only, and indents nested queries by `k` tabs for each level. -/
structure Layout.Spaced (l : Layout) (k : Nat) : Prop where
  fields : ∀ t ts, ∃ b s, BlankText b ∧ TextRow (t :: ts) s ∧
    FieldItem.renderAll (l.fields ((t :: ts).map FieldItem.ofText)) = b ++ s
  clause : ∃ c, isBlank c ∧ ∀ keyword, l.clause keyword = c :: keyword
  subquery : ∀ level inFilter, ∃ b b', BlankText b ∧ BlankText b' ∧ ∀ t,
    l.subquery t level inFilter = "(" ++ b ++ indented (k * level) t ++ b' ++ ")"
  connective : ∃ c b, isBlank c ∧ BlankText b ∧ ∀ operator right,
    l.connective operator right = c :: b ++ operator ++ " " ++ right
  sortKeys : ∀ t ts, TextRow (t :: ts) (l.sortKeys (t :: ts))

/-! ## On one line -/

theorem blankText_nil : BlankText [] := by simp [BlankText]

theorem blankText_space : BlankText [' '] := by
  intro c hc
  rw [List.mem_singleton.1 hc]
  decide

theorem renderAll_separate (t : Text) (ts : List Text) :
    FieldItem.renderAll (Layout.separate ((t :: ts).map FieldItem.ofText)) =
      Text.joinWith ", " (t :: ts) := by
  induction ts generalizing t with
  | nil => simp [Layout.separate, FieldItem.renderAll, FieldItem.render, FieldItem.ofText,
      Text.joinWith]
  | cons u ts ih =>
    have := ih u
    simp only [FieldItem.renderAll, List.map_cons] at this ⊢
    rw [Layout.separate, List.flatMap_cons, this]
    · simp [FieldItem.render, FieldItem.ofText, Text.joinWith]
    · simp

/-- **The layout on one line adds blanks only.** -/
theorem spaced_plain : Layout.plain.Spaced 0 where
  fields t ts := ⟨[], _, blankText_nil, textRow_joinWith blankText_space t ts,
    renderAll_separate t ts⟩
  clause := ⟨' ', by decide, fun _ => rfl⟩
  subquery _ _ := ⟨[], [], blankText_nil, blankText_nil, fun t => by simp [Layout.plain]⟩
  connective := ⟨' ', [], by decide, blankText_nil, fun _ _ => rfl⟩
  sortKeys t ts := textRow_joinWith blankText_space t ts

/-! ## Over several lines -/

namespace LayoutOptions

variable (o : LayoutOptions)

theorem blankText_lineBreak (level : Nat) : BlankText (o.lineBreak level) := by
  intro c hc
  rcases List.mem_cons.1 hc with rfl | hc
  · decide
  · rw [List.eq_of_mem_replicate hc]
    decide

theorem indent_eq (level : Nat) (t : Text) : o.indent level t = indented (o.tabs * level) t := rfl

theorem length_lineStarts (used : Nat) (isFirst afterQuery : Bool) (items : List FieldItem) :
    (o.lineStarts used isFirst afterQuery items).length = items.length := by
  induction items generalizing used isFirst afterQuery with
  | nil => rfl
  | cons item items ih => simp [lineStarts, ih]

theorem renderAll_placeFields (t : Text) (ts : List Text) (starts : List Bool)
    (h : starts.length = ts.length + 1) : ∃ b s, BlankText b ∧ TextRow (t :: ts) s ∧
      FieldItem.renderAll (o.placeFields ((t :: ts).map FieldItem.ofText) starts) = b ++ s := by
  have before : ∀ start : Bool, BlankText (if start then o.lineBreak 1 else []) := by
    intro start
    cases start
    · exact blankText_nil
    · exact o.blankText_lineBreak 1
  induction ts generalizing t starts with
  | nil =>
    obtain ⟨start, rfl⟩ := List.length_eq_one_iff.1 h
    refine ⟨_, t, before start, .one t, ?_⟩
    simp [placeFields, FieldItem.renderAll, FieldItem.render, FieldItem.ofText]
  | cons u ts ih =>
    match starts, h with
    | start :: next :: later, h =>
      obtain ⟨b, s, hb, hs, hr⟩ := ih u (next :: later) (by simpa using h)
      refine ⟨_, t ++ ',' :: ((if next then [] else [' ']) ++ b ++ s), before start,
        .cons t (b := (if next then [] else [' ']) ++ b) ?_ hs, ?_⟩
      · intro c hc
        rcases List.mem_append.1 hc with hc | hc
        · cases next
          · exact blankText_space c hc
          · simp at hc
        · exact hb c hc
      · simp only [FieldItem.renderAll, List.map_cons] at hr ⊢
        cases next
        all_goals
          rw [placeFields, List.flatMap_cons, hr]
          simp [FieldItem.render, FieldItem.ofText]

/-- **The layout over several lines adds blanks only.** -/
theorem spaced_spread : (Layout.spread o).Spaced o.tabs where
  fields t ts := o.renderAll_placeFields t ts _ (by rw [length_lineStarts]; simp)
  clause := ⟨'\n', by decide, fun _ => rfl⟩
  subquery level inFilter := by
    by_cases h : (o.parensOnOwnLine || inFilter) = true
    · exact ⟨o.lineBreak level, o.lineBreak (level - 1), o.blankText_lineBreak _,
        o.blankText_lineBreak _, fun t => by
          simp only [Layout.spread, spreadSubquery, h, if_true, indent_eq]⟩
    · exact ⟨[], [], blankText_nil, blankText_nil, fun t => by
        simp [Layout.spread, spreadSubquery, h, indent_eq]⟩
  connective := by
    refine ⟨'\n', List.replicate (o.tabs * if o.indentConnectives then 1 else 0) '\t', by decide,
      ?_, fun _ _ => rfl⟩
    intro c hc
    rw [List.eq_of_mem_replicate hc]
    decide
  sortKeys t ts := by
    simp only [Layout.spread, spreadSortKeys]
    split
    · exact textRow_joinWith (o.blankText_lineBreak 1) t ts
    · exact textRow_joinWith blankText_space t ts

end LayoutOptions

end Soql
