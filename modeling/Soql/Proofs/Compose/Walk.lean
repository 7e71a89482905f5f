/-
  Filters, composed by recursion.

  A filter is composed in two passes: its links from the first to the last
  give the texts of their conditions, and then these are joined from the last
  to the first, with a trim at each join.  That is the same as the recursion
  over the filter, in the text and in the journal.

  * `Compose.walk`: the text of a filter by recursion from its first link on.
  * `Compose.joinLinks_cons`: joining takes the first link last.
  * `Compose.filter_eq_walk`: the filters of `WHERE` and `HAVING` are walks.
-/
import Mathlib
import Soql.Compose.Query

namespace Soql

namespace Compose

variable {κ : Type} (l : Layout)

/-! ## The recursive definition -/

/-- The text to the left of the operator of a link: that of its condition, if it has one. -/
def leftText (text : κ → Journaled Text) (link : Link κ) : Journaled Text :=
  match link.condition with
  | none => return []
  | some c => text c

/-- The text of a filter by recursion: that of the first link, joined to the text of the links
    after it if there are any, and trimmed. -/
def walk (text : κ → Journaled Text) (first : Link κ) : List (Link κ) → Journaled Text
  | [] => do return Text.trim (← leftText text first)
  | second :: others => do
    let left ← leftText text first
    let right ← walk text second others
    let operator := (first.connective.map Keyword.spelling).getD []
    return Text.trim (left ++ (← layConnective l operator right))

/-! ## Joining from the last link to the first -/

theorem joinLinks_cons (x y : Link Text) (ys : List (Link Text)) :
    joinLinks l (x :: y :: ys) = (do joinLink l (← joinLinks l (y :: ys)) x) := by
  obtain ⟨last, before, h⟩ : ∃ last before, (y :: ys).reverse = last :: before :=
    List.exists_cons_of_ne_nil (by simp)
  have hx : (x :: y :: ys).reverse = last :: (before ++ [x]) := by
    rw [List.reverse_cons, h, List.cons_append]
  simp only [joinLinks, h, hx, List.foldlM_append, List.foldlM_cons, List.foldlM_nil, bind_pure]

/-- A link with the text of its condition. -/
def textLink (text : κ → Journaled Text) (link : Link κ) : Journaled (Link Text) :=
  match link.condition with
  | none => return ⟨none, link.connective⟩
  | some c => return ⟨some (← text c), link.connective⟩

/-- What follows needs the text of a link only, and its operator. -/
theorem textLink_bind {α : Type} (text : κ → Journaled Text) (link : Link κ)
    (f : Text → Option Connective → Journaled α) :
    (do let x ← textLink text link; f (x.condition.getD []) x.connective) =
      (do let left ← leftText text link; f left link.connective) := by
  obtain ⟨condition, connective⟩ := link
  cases condition <;> simp [textLink, leftText]

/-- **Composing all links and joining them from the last to the first is the walk.** -/
theorem joinLinks_mapM (text : κ → Journaled Text) (first : Link κ) (others : List (Link κ)) :
    (do joinLinks l (← (first :: others).mapM (textLink text))) = walk l text first others := by
  induction others generalizing first with
  | nil =>
    have h := textLink_bind text first fun left _ => pure (Text.trim left)
    simpa [joinLinks, walk] using h
  | cons second others ih =>
    have h := textLink_bind text first fun left connective => do
      let right ← walk l text second others
      let operator := (connective.map Keyword.spelling).getD []
      return Text.trim (left ++ (← layConnective l operator right))
    rw [walk, ← h, ← ih second]
    simp [List.mapM_cons, joinLinks_cons, joinLink]

/-! ## The filters of a query -/

theorem link_eq_textLink (x : Link Condition) : link l x = textLink (condition l) x := by
  obtain ⟨condition, connective⟩ := x
  cases condition <;> rw [link, textLink]

theorem links_eq_mapM (xs : List (Link Condition)) :
    links l xs = xs.mapM (textLink (condition l)) := by
  induction xs with
  | nil => rw [links, List.mapM_nil]
  | cons x xs ih => rw [links, List.mapM_cons, ih, link_eq_textLink]

theorem mapM_textLink_pure (text : κ → Text) (xs : List (Link κ)) :
    xs.mapM (textLink fun c => pure (text c)) = pure (xs.map (Link.map text)) := by
  have h : textLink (fun c => pure (text c)) = fun x => pure (x.map text) := by
    funext x
    obtain ⟨condition, connective⟩ := x
    cases condition <;> simp [textLink, Link.map]
  rw [h, List.mapM_pure]

/-- **Filters are composed as by recursion**: the text of a filter is that of its first link,
    trimmed, if there is no other; otherwise it is that text and what the layout makes of the
    operator and the text of the other links, trimmed.  The layout is asked the same questions in
    the same order. -/
theorem filter_eq_walk :
    (∀ chain, filter l chain = walk l (condition l) chain.head chain.tail) ∧
      (∀ chain, groupFilter l chain =
        walk l (fun c => pure c.text) chain.head chain.tail) ∧
      ∀ text chain, addFilter l text (some chain) =
        (do addClause l "WHERE" text (← filter l chain)) := by
  refine ⟨fun chain => ?_, fun chain => ?_, fun text chain => ?_⟩
  · rw [filter, Chain.links, links_eq_mapM, joinLinks_mapM]
  · rw [← joinLinks_mapM, mapM_textLink_pure, pure_bind]
    rfl
  · rw [addFilter, filter, Chain.links, links]
    simp

end Compose

end Soql
