/-
  Layouts — the blanks and line breaks of composed text.

  Composing puts the pieces of a query together and asks a layout for
  everything that is presentation only.

  * `FieldItem`: an entry of a field list with the text put around it.
  * `Layout`: the decisions of a layout.
  * `Layout.plain`: everything on one line.
-/
import Soql.Text

namespace Soql

/-- An entry of a field list, with the text that a layout puts around it. -/
structure FieldItem where
  text : Text
  isSubquery : Bool
  /-- What stands before the text. -/
  before : Text := []
  /-- What stands after the text. -/
  after : Text := []
deriving DecidableEq

namespace FieldItem

/-- The entry of a text, with nothing around it; a query starts with a parenthesis. -/
def ofText (text : Text) : FieldItem := { text, isSubquery := text.head? == some '(' }

/-- The text with what stands around it. -/
def render (item : FieldItem) : Text := item.before ++ item.text ++ item.after

/-- A field list as it stands in a query. -/
def renderAll (items : List FieldItem) : Text := items.flatMap render

end FieldItem

/-- The decisions of a layout. -/
structure Layout where
  /-- Puts text around the entries of a field list. -/
  fields : List FieldItem → List FieldItem
  /-- The keyword of a clause with what stands before it. -/
  clause : Text → Text
  /-- A composed query between parentheses, its body at an indentation level, in a filter or
      not. -/
  subquery (query : Text) (level : Nat) (inFilter : Bool) : Text
  /-- An operator of a filter and the text to its right. -/
  connective (operator right : Text) : Text
  /-- The keys of `ORDER BY` put together. -/
  sortKeys : List Text → Text

namespace Layout

/-- Commas after all entries but the last. -/
def separate : List FieldItem → List FieldItem
  | [] => []
  | [item] => [{ item with after := "" }]
  | item :: items => { item with after := ", " } :: separate items

/-- Everything on one line. -/
def plain : Layout where
  fields := separate
  clause keyword := " " ++ keyword
  subquery query _ _ := "(" ++ query ++ ")"
  connective operator right := " " ++ operator ++ " " ++ right
  sortKeys := Text.joinWith ", "

end Layout

end Soql
