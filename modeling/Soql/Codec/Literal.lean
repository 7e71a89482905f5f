/-
  The JSON form of literals.

  Scalars of any type stand for their text; `null` stands for `NULL`.

  * `Decode.scalarText`, `Decode.filterValue`, `Decode.literalKinds`.
  * `Encode.filterValue`, `Encode.literalKinds`.
-/
import Soql.Codec.Basic
import Soql.Literal.Basic

namespace Soql

namespace Decode

/-- The text of a scalar. -/
def scalarText : Decoder Text
  | .str t => .ok t
  | .int i => .ok (Json.intText i)
  | .real x => .ok (Json.realText x)
  | .bool true => .ok "true"
  | .bool false => .ok "false"
  | .null => .ok "NULL"
  | v => .error (.notScalar v)

/-- A scalar or a list of scalars. -/
def filterValue : Decoder FilterValue
  | .arr items => .list <$> items.mapM scalarText
  | v => .single <$> scalarText v

/-- One kind or a list of kinds. -/
def literalKinds : Decoder LiteralKinds :=
  either "LiteralTypes" (fun v => .uniform <$> keyword v) (fun v => .each <$> list keyword v)

end Decode

namespace Encode

/-- A keyword by its spelling. -/
def keyword {κ : Type} [Keyword κ] (k : κ) : Json := .str (Keyword.spelling k)

/-- A list of texts. -/
def texts (ts : List Text) : Json := .arr (ts.map .str)

/-- A text or a list of texts. -/
def filterValue : FilterValue → Json
  | .single t => .str t
  | .list ts => texts ts

/-- A kind or a list of kinds. -/
def literalKinds : LiteralKinds → Json
  | .uniform kind => keyword kind
  | .each kinds => .arr (kinds.map keyword)

end Encode

end Soql
