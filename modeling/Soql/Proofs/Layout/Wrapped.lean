/-
  Field lists over several lines.

  The entries of a field list are put on lines from the first to the last, and
  each line is filled as far as the width allows.  A query has a line of its
  own.

  * `FieldItem.breaks`: a line break stands before an entry.
  * `FieldItem.lineStart`, `FieldItem.lineUpTo`: the first entry of the line
    that an entry stands on, and the characters of that line up to the entry.
  * `FieldItem.Wraps`: what the layout over several lines makes of a list.
  * `LayoutOptions.spread_wraps`: it makes this of every list.
-/
import Mathlib
import Soql.Layout.Spread
import Soql.Proofs.Layout.Spaced

namespace Soql

namespace FieldItem

/-- A text that starts with a parenthesis stands at this place of a list. -/
def opensAt (texts : List Text) (i : Nat) : Bool := texts[i]?.any fun t => t.head? == some '('

section lines

variable (items : List FieldItem)

/-- A line break stands before the entry at this place. -/
def breaks (i : Nat) : Bool := items[i]?.any fun item => !item.before.isEmpty

/-- The first entry of the line on which the entry at this place stands. -/
def lineStart (i : Nat) : Nat := Nat.findGreatest (fun k => breaks items k = true) i

/-- The number of characters of an entry, with a comma and a blank if another one follows. -/
def widthAt (i : Nat) : Nat :=
  ((items.map text)[i]?.getD []).length + if i + 1 < items.length then 2 else 0

/-- The number of characters on the line of an entry up to it, without indentation.  The first
    line holds `SELECT` and a blank already. -/
def lineUpTo (i : Nat) : Nat :=
  (if breaks items (lineStart items i) then 0 else 7) +
    ∑ k ∈ Finset.Icc (lineStart items i) i, widthAt items k

/-- What stands before the text of an entry: a comma behind the entry before it and then a blank,
    or the line break in its place. -/
def lead (lineBreak : Text) : Nat → Text
  | 0 => if breaks items 0 then lineBreak else []
  | i + 1 => ',' :: if breaks items (i + 1) then lineBreak else [' ']

theorem lineStart_zero : lineStart items 0 = 0 := Nat.findGreatest_zero

theorem lineStart_succ (i : Nat) :
    lineStart items (i + 1) = if breaks items (i + 1) then i + 1 else lineStart items i :=
  Nat.findGreatest_succ i

theorem lineStart_le (i : Nat) : lineStart items i ≤ i := Nat.findGreatest_le i

/-- An entry that does not start its line has no line break before it. -/
theorem not_breaks_of_lineStart_lt {i : Nat} (h : lineStart items i < i) :
    breaks items i = false := by
  by_contra hb
  exact Nat.findGreatest_is_greatest h le_rfl (by simpa using hb)

theorem lineUpTo_zero :
    lineUpTo items 0 = (if breaks items 0 then 0 else 7) + widthAt items 0 := by
  simp [lineUpTo, lineStart_zero]

theorem lineUpTo_succ (i : Nat) : lineUpTo items (i + 1) =
    (if breaks items (i + 1) then 0 else lineUpTo items i) + widthAt items (i + 1) := by
  rw [lineUpTo, lineStart_succ]
  by_cases hb : breaks items (i + 1) = true
  · simp [hb]
  · have hle : lineStart items i ≤ i + 1 := Nat.le_succ_of_le (lineStart_le items i)
    simp only [hb, if_false, Bool.false_eq_true]
    rw [Finset.sum_Icc_succ_top hle, ← Nat.add_assoc, lineUpTo]

end lines

/-- What the layout over several lines makes of a list of texts: lines that are filled from the
    first to the last. -/
structure Wraps (o : LayoutOptions) (texts : List Text) (items : List FieldItem) : Prop where
  kept : items.map text = texts
  rendering : renderAll items =
    (texts.mapIdx fun i t => lead items ('\n' :: List.replicate o.tabs '\t') i ++ t).flatten
  first : breaks items 0 = opensAt texts 0
  /-- A line is full where the next entry does not fit, nor its comma and blank. -/
  greedy : ∀ i, i + 1 < texts.length → (breaks items (i + 1) = true ↔
    opensAt texts (i + 1) ∨ opensAt texts i ∨
      o.lineWidth < lineUpTo items i + widthAt items (i + 1))
  /-- A line with two entries or more has the width at most. -/
  fits : ∀ i, lineStart items i < i → i < texts.length → lineUpTo items i ≤ o.lineWidth

end FieldItem

namespace LayoutOptions

open FieldItem

variable (o : LayoutOptions)

theorem lineBreak_one : o.lineBreak 1 = '\n' :: List.replicate o.tabs '\t' := by
  rw [lineBreak, Nat.mul_one]

/-! ## Entries in their places -/

section placeFields

variable {texts : List Text} {starts : List Bool} (h : starts.length = texts.length)

include h

theorem map_text_placeFields :
    (o.placeFields (texts.map ofText) starts).map FieldItem.text = texts := by
  induction texts generalizing starts with
  | nil => rfl
  | cons t ts ih =>
    obtain ⟨start, later, rfl⟩ := List.exists_cons_of_length_eq_add_one h
    simp [placeFields, ofText, ih (Nat.succ.inj h)]

theorem map_before_placeFields :
    (o.placeFields (texts.map ofText) starts).map (fun item => !item.before.isEmpty) = starts := by
  induction texts generalizing starts with
  | nil => exact (List.length_eq_zero_iff.1 h).symm
  | cons t ts ih =>
    obtain ⟨start, later, rfl⟩ := List.exists_cons_of_length_eq_add_one h
    cases start <;> simp [placeFields, ofText, lineBreak, ih (Nat.succ.inj h)]

/-- Line breaks stand before the entries that are told to start a line. -/
theorem breaks_placeFields (i : Nat) :
    breaks (o.placeFields (texts.map ofText) starts) i = starts[i]?.getD false := by
  have := congrArg (·[i]?) (o.map_before_placeFields h)
  rw [← this, breaks, List.getElem?_map]
  cases (o.placeFields (texts.map ofText) starts)[i]? <;> rfl

end placeFields

theorem renderAll_cons {t : Text} {ts : List Text} {start : Bool} {later : List Bool}
    (h : later.length = ts.length) :
    renderAll (o.placeFields ((t :: ts).map ofText) (start :: later)) =
      (if start then o.lineBreak 1 else []) ++ t ++ (ts.mapIdx fun i u =>
        ',' :: (if later[i]?.getD false then o.lineBreak 1 else [' ']) ++ u).flatten := by
  induction ts generalizing t start later with
  | nil =>
    rw [List.length_eq_zero_iff.1 h]
    simp [placeFields, renderAll, render, ofText]
  | cons u ts ih =>
    obtain ⟨next, later, rfl⟩ := List.exists_cons_of_length_eq_add_one h
    have hnext : renderAll (o.placeFields ((u :: ts).map ofText) (next :: later)) = _ :=
      ih (Nat.succ.inj h)
    cases next
    all_goals
      rw [List.map_cons, placeFields, renderAll, List.flatMap_cons, ← renderAll, hnext]
      simp [render, ofText, List.mapIdx_cons]

/-! ## Filling the lines -/

/-- Whether an entry starts a line, and what its line has when it is there. -/
theorem lineStarts_cons (used : Nat) (isFirst afterQuery : Bool) (t : Text) (ts : List Text) :
    ∃ start, o.lineStarts used isFirst afterQuery ((t :: ts).map ofText) =
        start :: o.lineStarts ((if start then 0 else used) + (t.length + if ts = [] then 0 else 2))
          false (t.head? == some '(') (ts.map ofText) ∧
      start = (t.head? == some '(' || !isFirst && (afterQuery ||
        decide (o.lineWidth < used + (t.length + if ts = [] then 0 else 2)))) := by
  refine ⟨_, ?_, rfl⟩
  simp only [List.map_cons, lineStarts, List.isEmpty_iff, List.map_eq_nil_iff, ofText, ite_add,
    Nat.zero_add]

section spreadFields

variable (texts : List Text)

theorem length_starts : (o.lineStarts 7 true false (texts.map ofText)).length = texts.length := by
  rw [length_lineStarts, List.length_map]

theorem breaks_spreadFields (i : Nat) : breaks (o.spreadFields (texts.map ofText)) i =
    (o.lineStarts 7 true false (texts.map ofText))[i]?.getD false :=
  o.breaks_placeFields (o.length_starts texts) i

theorem map_text_spreadFields : (o.spreadFields (texts.map ofText)).map FieldItem.text = texts :=
  o.map_text_placeFields (o.length_starts texts)

variable {texts} {i : Nat} (hi : i < texts.length)

include hi

theorem opensAt_eq : opensAt texts i = (texts[i].head? == some '(') := by simp [opensAt, hi]

theorem widthAt_eq : widthAt (o.spreadFields (texts.map ofText)) i =
    texts[i].length + if texts.drop (i + 1) = [] then 0 else 2 := by
  have hlength := congrArg List.length (o.map_text_spreadFields texts)
  rw [List.length_map] at hlength
  rw [widthAt, map_text_spreadFields, hlength, List.getElem?_eq_getElem hi, Option.getD_some]
  congr 1
  simp only [List.drop_eq_nil_iff, ← Nat.not_lt, ite_not]

/-- Behind an entry the lines are filled from what its line has so far. -/
theorem drop_lineStarts :
    (o.lineStarts 7 true false (texts.map ofText)).drop (i + 1) =
      o.lineStarts (lineUpTo (o.spreadFields (texts.map ofText)) i) false (opensAt texts i)
        ((texts.drop (i + 1)).map ofText) := by
  have hbreaks := o.breaks_spreadFields texts
  induction i with
  | zero =>
    have h : texts = texts[0] :: texts.drop 1 := List.drop_eq_getElem_cons hi
    obtain ⟨start, hs, -⟩ := o.lineStarts_cons 7 true false texts[0] (texts.drop 1)
    rw [← h] at hs
    rw [lineUpTo_zero, o.widthAt_eq hi, opensAt_eq hi, hbreaks, hs]
    rfl
  | succ i ih =>
    have ih := ih (Nat.lt_of_succ_lt hi)
    obtain ⟨start, hs, -⟩ := o.lineStarts_cons (lineUpTo (o.spreadFields (texts.map ofText)) i)
      false (opensAt texts i) texts[i + 1] (texts.drop (i + 1 + 1))
    rw [← List.drop_eq_getElem_cons hi, ← ih] at hs
    have hstart := congrArg (·[0]?) hs
    simp only [List.getElem?_drop, List.getElem?_cons_zero, Nat.add_zero] at hstart
    rw [lineUpTo_succ, o.widthAt_eq hi, opensAt_eq hi, hbreaks, hstart]
    have := congrArg (List.drop 1) hs
    rwa [List.drop_drop, List.drop_one, List.tail_cons] at this

omit hi

/-- An entry after the first starts a line iff it or the one before it is a query, or it does not
    fit. -/
theorem breaks_succ (hi : i + 1 < texts.length) :
    breaks (o.spreadFields (texts.map ofText)) (i + 1) =
      (opensAt texts (i + 1) || (opensAt texts i ||
        decide (o.lineWidth < lineUpTo (o.spreadFields (texts.map ofText)) i +
          widthAt (o.spreadFields (texts.map ofText)) (i + 1)))) := by
  obtain ⟨start, hs, hstart⟩ := o.lineStarts_cons
    (lineUpTo (o.spreadFields (texts.map ofText)) i) false (opensAt texts i) texts[i + 1]
    (texts.drop (i + 1 + 1))
  rw [← List.drop_eq_getElem_cons hi, ← o.drop_lineStarts (Nat.lt_of_succ_lt hi)] at hs
  have h := congrArg (·[0]?) hs
  simp only [List.getElem?_drop, List.getElem?_cons_zero, Nat.add_zero] at h
  rw [breaks_spreadFields, h, Option.getD_some, hstart, opensAt_eq hi, o.widthAt_eq hi,
    Bool.not_false, Bool.true_and]

theorem breaks_zero : breaks (o.spreadFields (texts.map ofText)) 0 = opensAt texts 0 := by
  rw [breaks_spreadFields]
  cases texts with
  | nil => rfl
  | cons t ts =>
    obtain ⟨start, hs, hstart⟩ := o.lineStarts_cons 7 true false t ts
    rw [hs, List.getElem?_cons_zero, Option.getD_some, hstart, opensAt, List.getElem?_cons_zero]
    simp

theorem renderAll_spreadFields : renderAll (o.spreadFields (texts.map ofText)) =
    (texts.mapIdx fun i t =>
      lead (o.spreadFields (texts.map ofText)) (o.lineBreak 1) i ++ t).flatten := by
  cases texts with
  | nil => rfl
  | cons t ts =>
    have hbreaks := o.breaks_spreadFields (t :: ts)
    have hlength := o.length_starts (t :: ts)
    obtain ⟨start, hs, -⟩ := o.lineStarts_cons 7 true false t ts
    rw [hs] at hbreaks hlength
    rw [List.mapIdx_cons, List.flatten_cons]
    simp only [lead, hbreaks, List.getElem?_cons_zero, Option.getD_some, List.getElem?_cons_succ]
    rw [spreadFields, hs]
    exact o.renderAll_cons (Nat.succ.inj hlength)

/-- A line with two entries or more has the width at most, since its last entry did fit. -/
theorem lineUpTo_le (hi : i < texts.length)
    (h : lineStart (o.spreadFields (texts.map ofText)) i < i) :
    lineUpTo (o.spreadFields (texts.map ofText)) i ≤ o.lineWidth := by
  have hb := not_breaks_of_lineStart_lt _ h
  cases i with
  | zero => exact absurd h (Nat.not_lt_zero _)
  | succ i =>
    have hfit := (o.breaks_succ hi).symm.trans hb
    simp only [Bool.or_eq_false_iff, decide_eq_false_iff_not, Nat.not_lt] at hfit
    rw [lineUpTo_succ, hb]
    exact hfit.2.2

end spreadFields

/-- **Field lists are wrapped greedily, without loss and within the width**: the layout over
    several lines keeps the texts and puts commas and blanks or line breaks between them, a line
    break only around queries and where an entry does not fit on the line, so that no line with
    two entries or more is wider than the options say. -/
theorem spread_wraps (texts : List Text) :
    Wraps o texts ((Layout.spread o).fields (texts.map ofText)) where
  kept := o.map_text_spreadFields texts
  rendering := o.lineBreak_one ▸ o.renderAll_spreadFields
  first := o.breaks_zero
  greedy i hi := by
    rw [← decide_eq_true_iff (p := o.lineWidth < _), ← Bool.or_eq_true, ← Bool.or_eq_true]
    exact Bool.eq_iff_iff.1 (o.breaks_succ hi)
  fits i h hi := o.lineUpTo_le hi h

/-- The width counts the blank that follows a comma. -/
example : (((Layout.spread { lineWidth := 20 }).fields
    (["Id", "Name", "BillingCity", "Phone"].map ofText)).map FieldItem.before) =
      [[], [], "\n\t", []] := by decide_cbv

end LayoutOptions

end Soql
