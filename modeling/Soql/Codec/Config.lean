/-
  The JSON form of configurations.

  * `Decode.config`, `Decode.layoutOptions`: every member may be left out.
  * `Encode.config`, `Encode.layoutOptions`: every member is written.
-/
import Soql.Codec.Basic
import Soql.Config

namespace Soql

namespace Decode

/-- A natural number of 64 bits. -/
def size : Decoder Nat := natBelow UInt64.size "usize"

/-- Options of a layout. -/
def layoutOptions : Decoder LayoutOptions :=
  record
    { name := "FormatOptions"
      slots := [
        defaulted "numIndent" size fun o v => { o with tabs := v },
        defaulted "fieldMaxLineLength" size fun o v => { o with lineWidth := v },
        defaulted "fieldSubqueryParensOnOwnLine" bool fun o v => { o with parensOnOwnLine := v },
        defaulted "whereClauseOperatorsIndented" bool
          fun o v => { o with indentConnectives := v }]
      blank := {} } .direct

/-- A configuration. -/
def config : Decoder Config :=
  record
    { name := "ComposeConfig"
      slots := [
        defaulted "format" bool fun c v => { c with spread := v },
        defaulted "formatOptions" layoutOptions fun c v => { c with options := v },
        defaulted "autoCompose" bool fun c v => { c with autoCompose := v },
        defaulted "logging" bool fun c v => { c with logging := v }]
      blank := {} } .direct

end Decode

namespace Encode

/-- Options of a layout. -/
def layoutOptions (o : LayoutOptions) : Json :=
  .obj [("numIndent", .int o.tabs), ("fieldMaxLineLength", .int o.lineWidth),
    ("fieldSubqueryParensOnOwnLine", .bool o.parensOnOwnLine),
    ("whereClauseOperatorsIndented", .bool o.indentConnectives)]

/-- A configuration. -/
def config (c : Config) : Json :=
  .obj [("format", .bool c.spread), ("formatOptions", layoutOptions c.options),
    ("autoCompose", .bool c.autoCompose), ("logging", .bool c.logging)]

end Encode

end Soql
