/-
  Classification of literals — what kind of value a token of query text is.

  * `isDate`, `isDateTime`: the forms of dates.
  * `isRelativeDate`: names of relative dates, in any case.
  * `isAmount`: an amount with a currency.
  * `LiteralKind.ofNumber`, `ofDate?`, `ofWord?`: the kind of a token.
-/
import Soql.Literal.Basic

namespace Soql

open Unicode

/-! ## Dates -/

/-- What follows exactly `n` digits at the start of the text. -/
def afterDigits : Nat → Text → Option Text
  | 0, t => some t
  | _ + 1, [] => none
  | n + 1, c :: t => if c.isDigit then afterDigits n t else none

/-- What follows the character `c` at the start of the text. -/
def afterChar (c : Char) : Text → Option Text
  | [] => none
  | d :: t => if d = c then some t else none

/-- What follows `year-month-day` at the start of the text. -/
def afterDate (t : Text) : Option Text := do
  afterDigits 2 (← afterChar '-' (← afterDigits 2 (← afterChar '-' (← afterDigits 4 t))))

/-- What follows `hours:minutes:seconds` at the start of the text. -/
def afterTime (t : Text) : Option Text := do
  afterDigits 2 (← afterChar ':' (← afterDigits 2 (← afterChar ':' (← afterDigits 2 t))))

/-- What follows an optional decimal point with at least one digit after it. -/
def afterSecondsFraction : Text → Text
  | '.' :: d :: t => if d.isDigit then t.dropWhile Char.isDigit else '.' :: d :: t
  | t => t

/-- Whether the text is a time zone: `Z`, or a sign, hours and minutes with an optional colon
    between them. -/
def isZone : Text → Bool
  | ['Z'] => true
  | sign :: t =>
    (sign == '+' || sign == '-') &&
      (match afterDigits 2 t with
        | some (':' :: minutes) => afterDigits 2 minutes == some []
        | some minutes => afterDigits 2 minutes == some []
        | none => false)
  | [] => false

/-- Whether the text is a date. -/
def isDate (t : Text) : Bool := afterDate t == some []

/-- Whether the text is a date with a time and a time zone. -/
def isDateTime (t : Text) : Bool :=
  match afterDate t with
  | some ('T' :: t) =>
    match afterTime t with
    | some t => isZone (afterSecondsFraction t)
    | none => false
  | _ => false

/-! ## Relative dates -/

/-- The names of the relative dates without a count. -/
def relativeDates : List Text :=
  let days : List Text := ["YESTERDAY", "TODAY", "TOMORROW", "LAST_90_DAYS", "NEXT_90_DAYS"]
  let spans : List Text := ["WEEK", "MONTH", "QUARTER", "YEAR", "FISCAL_QUARTER", "FISCAL_YEAR"]
  let named (place : Text) := spans.map fun span => place ++ span
  days ++ named "LAST_" ++ named "THIS_" ++ named "NEXT_"

/-- Upper case for the letters of relative dates.  Beyond ASCII the long s and the Kelvin sign
    are case variants of `S` and `K`. -/
def dateLetter (c : Char) : Char :=
  if c = '\u017f' then 'S' else if c = '\u212a' then 'K' else c.toUpper

/-- Whether a word names a relative date, in any case. -/
def isRelativeDate (word : Text) : Bool := relativeDates.contains (word.map dateLetter)

/-! ## Amounts -/

/-- Whether the text is a non-empty run of decimal digits. -/
def isDigits (t : Text) : Bool := !t.isEmpty && t.all isDecimalDigit

/-- Whether a word is an amount with a currency: three ASCII letters, decimal digits, and
    possibly a point with more of them. -/
def isAmount : Text → Bool
  | a :: b :: c :: amount =>
    a.isAlpha && b.isAlpha && c.isAlpha && isDigits (amount.takeWhile isDecimalDigit) &&
      (match amount.dropWhile isDecimalDigit with
        | [] => true
        | '.' :: decimals => isDigits decimals
        | _ => false)
  | _ => false

/-! ## Kinds of tokens -/

namespace LiteralKind

/-- The kind of a number: one with a decimal point is a decimal. -/
def ofNumber (text : Text) : LiteralKind := if text.contains '.' then decimal else integer

/-- The kind of a date token, if it has one of the two forms. -/
def ofDate? (text : Text) : Option LiteralKind :=
  if isDate text then some date
  else if isDateTime text then some dateTime
  else none

/-- The kind of a word that stands as a value, if it can. -/
def ofWord? (word : Text) : Option LiteralKind :=
  if Text.sameWord word "true" || Text.sameWord word "false" then some boolean
  else if Text.sameWord word "null" then some null
  else if isRelativeDate word then some relativeDate
  else if isAmount word then
    some (if word.contains '.' then currencyDecimal else currencyInteger)
  else none

end LiteralKind

end Soql
