/-
  Configuration of composing.

  * `LayoutOptions`: how composed text is spread over lines.
  * `Config`: whether it is, and what else happens on the way.
-/
import Soql.Text

namespace Soql

/-- How composed text is spread over lines. -/
structure LayoutOptions where
  /-- Tabs of an indentation level. -/
  tabs : Nat := 1
  /-- Width that a line of fields or sort keys may have. -/
  lineWidth : Nat := 60
  /-- Whether the parentheses of a query among the fields stand on lines of their own. -/
  parensOnOwnLine : Bool := true
  /-- Whether the lines of a filter that start with an operator are indented. -/
  indentConnectives : Bool := false
deriving DecidableEq

/-- Configuration of composing. -/
structure Config where
  /-- Whether the text is spread over lines. -/
  spread : Bool := false
  options : LayoutOptions := {}
  /-- Whether a composer composes as soon as it is there. -/
  autoCompose : Bool := true
  /-- Whether the steps of composing are reported. -/
  logging : Bool := false
deriving DecidableEq

/-- The configuration that spreads text over lines. -/
def Config.spreading (options : LayoutOptions) : Config := { spread := true, options }

end Soql
