/-
  The layout over several lines.

  Every clause starts a line.  A line of fields is filled as far as the width
  allows; a query among the fields has lines of its own, and its own lines
  are indented.

  * `lineStarts`: the entries of a field list that start a line.
  * `Layout.spread`: the layout for given options.
  * `Layout.ofConfig`: the layout of a configuration.
-/
import Soql.Layout.Basic
import Soql.Config

namespace Soql

namespace LayoutOptions

/-- A line break with the indentation of a level. -/
def lineBreak (o : LayoutOptions) (level : Nat) : Text :=
  '\n' :: List.replicate (o.tabs * level) '\t'

/-- Which entries start a line, where the current line has `used` characters.  A query does, and
    apart from the first entry so does one after a query and one that does not fit with the comma
    and the blank after it. -/
def lineStarts (o : LayoutOptions) : (used : Nat) → (isFirst afterQuery : Bool) →
    List FieldItem → List Bool
  | _, _, _, [] => []
  | used, isFirst, afterQuery, item :: items =>
    let width := item.text.length + if items.isEmpty then 0 else 2
    let starts := item.isSubquery ||
      (!isFirst && (afterQuery || decide (o.lineWidth < used + width)))
    starts :: lineStarts o (if starts then width else used + width) false item.isSubquery items

/-- Line breaks before the entries that start a line, and commas after all entries but the last,
    with a blank where no line starts. -/
def placeFields (o : LayoutOptions) : List FieldItem → List Bool → List FieldItem
  | item :: items, starts :: later =>
    { item with
      before := if starts then o.lineBreak 1 else item.before
      after := match later with
        | [] => ""
        | true :: _ => ","
        | false :: _ => ", " } :: placeFields o items later
  | _, _ => []

/-- The entries of a field list over several lines; the first line holds `SELECT` already. -/
def spreadFields (o : LayoutOptions) (items : List FieldItem) : List FieldItem :=
  o.placeFields items (o.lineStarts 7 true false items)

/-- The text with an indentation level put after every line break. -/
def indent (o : LayoutOptions) (level : Nat) (t : Text) : Text :=
  t.flatMap fun c => if c = '\n' then o.lineBreak level else [c]

/-- A query between parentheses, its lines indented.  In a filter, or if the options say so, the
    parentheses stand on lines of their own. -/
def spreadSubquery (o : LayoutOptions) (query : Text) (level : Nat) (inFilter : Bool) : Text :=
  let body := o.indent level query
  if o.parensOnOwnLine || inFilter then
    "(" ++ o.lineBreak level ++ body ++ o.lineBreak (level - 1) ++ ")"
  else "(" ++ body ++ ")"

/-- Sort keys on one line if they fit after `ORDER BY`, otherwise each on a line. -/
def spreadSortKeys (o : LayoutOptions) (keys : List Text) : Text :=
  let line := Text.joinWith ", " keys
  if o.lineWidth < 9 + line.length then Text.joinWith (',' :: o.lineBreak 1) keys else line

end LayoutOptions

namespace Layout

/-- The layout over several lines. -/
def spread (o : LayoutOptions) : Layout where
  fields := o.spreadFields
  clause keyword := '\n' :: keyword
  subquery := o.spreadSubquery
  connective operator right :=
    o.lineBreak (if o.indentConnectives then 1 else 0) ++ operator ++ " " ++ right
  sortKeys := o.spreadSortKeys

/-- The plain layout, or the one over several lines. -/
def standard (isSpread : Bool) (o : LayoutOptions) : Layout := if isSpread then spread o else plain

/-- The layout of a configuration. -/
def ofConfig (c : Config) : Layout := standard c.spread c.options

end Layout

end Soql
