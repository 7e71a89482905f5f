/-
  Literals — the values that conditions compare with, and how they are
  written.

  * `LiteralKind`: what kind of value a text stands for.
  * `LiteralKind.render`: a text as a literal of a kind.
  * `FilterValue.render`: a value or a list of values with their kinds.
-/
import Soql.Keyword

namespace Soql

/-- The kind of a literal, which decides how it is written. -/
inductive LiteralKind where
  | string | integer | decimal | currencyInteger | currencyDecimal | boolean | null
  | date | dateTime
  /-- A relative date such as `TODAY` or `LAST_WEEK`. -/
  | relativeDate
  /-- A relative date with a count, such as `LAST_N_DAYS:5`. -/
  | countedDate
  /-- A bind variable, kept without its colon. -/
  | bindVariable
deriving DecidableEq

instance : Keyword LiteralKind where
  all := [.string, .integer, .decimal, .currencyInteger, .currencyDecimal, .boolean, .null,
    .date, .dateTime, .relativeDate, .countedDate, .bindVariable]
  spelling
    | .string => "STRING"
    | .integer => "INTEGER"
    | .decimal => "DECIMAL"
    | .currencyInteger => "INTEGER_WITH_CURRENCY_PREFIX"
    | .currencyDecimal => "DECIMAL_WITH_CURRENCY_PREFIX"
    | .boolean => "BOOLEAN"
    | .null => "NULL"
    | .date => "DATE"
    | .dateTime => "DATETIME"
    | .relativeDate => "DATE_LITERAL"
    | .countedDate => "DATE_N_LITERAL"
    | .bindVariable => "APEX_BIND_VARIABLE"

/-- A text as a literal: strings between quotes unless they start with one, bind variables after
    a colon unless they start with one, everything else as it stands. -/
def LiteralKind.render (kind : LiteralKind) (text : Text) : Text :=
  match kind, text with
  | .string, '\'' :: _ => text
  | .string, _ => '\'' :: text ++ ['\'']
  | .bindVariable, ':' :: _ => text
  | .bindVariable, _ => ':' :: text
  | _, _ => text

/-- The kinds of the values of a condition. -/
inductive LiteralKinds where
  /-- One kind for all of them. -/
  | uniform (kind : LiteralKind)
  /-- A kind for each of them, by position. -/
  | each (kinds : List LiteralKind)
deriving DecidableEq

/-- The kind of the value at a position, if it has one. -/
def LiteralKinds.at? : LiteralKinds → Nat → Option LiteralKind
  | uniform kind, _ => some kind
  | each kinds, index => kinds[index]?

/-- What a condition compares with. -/
inductive FilterValue where
  /-- One value. -/
  | single (text : Text)
  /-- A list of values. -/
  | list (texts : List Text)
deriving DecidableEq

/-- A text as a literal of the given kind; without a kind it stays as it is. -/
def renderLiteral (kind : Option LiteralKind) (text : Text) : Text :=
  match kind with
  | some kind => kind.render text
  | none => text

/-- A value as it stands in a query: a list between parentheses, each value by its own kind. -/
def FilterValue.render (value : FilterValue) (kinds : Option LiteralKinds) : Text :=
  let kindAt index := kinds.bind fun kinds => kinds.at? index
  match value with
  | single text => renderLiteral (kindAt 0) text
  | list texts =>
    "(" ++ Text.joinWith ", " (texts.mapIdx fun index text => renderLiteral (kindAt index) text)
      ++ ")"

end Soql
