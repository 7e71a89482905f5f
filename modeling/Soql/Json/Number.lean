/-
  JSON numbers — their text and their value.

  A number without fraction and exponent that fits in 64 bits stays an
  integer.  Any other is read as an integer of at most 64 bits, the first
  digits of the text, and a power of ten; these two are rounded and then
  multiplied or divided with one more rounding.

  * `Json.readNumber`: a number at the front of a text.
  * `Json.realText`: a floating-point number in the fewest digits.
-/
import Soql.Json.Basic
import Soql.Decimal.Shortest

namespace Soql.Json

/-! ## Reading -/

/-- The value of a decimal digit. -/
def digitValue (c : Char) : Nat := c.toNat - '0'.toNat

/-- The number with digits put after it for as long as it stays below `2 ^ 64`, and how many
    they are. -/
def absorb : Nat → Text → Nat × Nat
  | n, [] => (n, 0)
  | n, c :: digits =>
    let n' := 10 * n + digitValue c
    if n' < UInt64.size then
      let (n, count) := absorb n' digits
      (n, count + 1)
    else (n, 0)

/-- `x` divided by ten to the power of `k`, by steps of at most 308 powers, of which `steps` go
    before the last.  Three steps take any number of 64 bits to zero. -/
def divideByPower : Nat → Binary64 → Nat → Binary64
  | 0, x, k => if k ≤ 308 then x.div (.powerOfTen k) else .zero
  | steps + 1, x, k =>
    if k ≤ 308 then x.div (.powerOfTen k)
    else if x.mantissa = 0 then x
    else divideByPower steps (x.div (.powerOfTen 308)) (k - 308)

/-- `significand * 10 ^ exponent`; none if that is beyond the greatest number. -/
def scale? (significand : Nat) (exponent : Int) : Option Binary64 := do
  let x ← Binary64.ofNat? significand
  if 0 ≤ exponent then
    if exponent ≤ 308 then x.mul? (.powerOfTen exponent.toNat)
    else if x.mantissa = 0 then some x
    else none
  else some (divideByPower 3 x (-exponent).toNat)

/-- The parts of a number as it is written. -/
structure Numeral where
  negative : Bool
  /-- The digits before the point. -/
  whole : Text
  /-- The digits after the point. -/
  fraction : Option Text
  /-- Sign and digits of the exponent. -/
  exponent : Option (Bool × Text)

/-- An exponent: whether it is negative, its digits, and what follows. -/
def readExponent : Text → Option (Bool × Text × Text)
  | '+' :: t => digits false t
  | '-' :: t => digits true t
  | t => digits false t
where
  digits (negative : Bool) (t : Text) : Option (Bool × Text × Text) :=
    let exponent := t.takeWhile Char.isDigit
    if exponent.isEmpty then none else some (negative, exponent, t.dropWhile Char.isDigit)

/-- A number at the front of a text, and what follows: an optional minus sign, digits without a
    leading zero, and optionally a point with digits and an exponent. -/
def readNumeral (t : Text) : Option (Numeral × Text) := do
  let (negative, t) := match t with
    | '-' :: t => (true, t)
    | t => (false, t)
  let whole := t.takeWhile Char.isDigit
  let rest := t.dropWhile Char.isDigit
  guard (!whole.isEmpty && (whole.length == 1 || whole.head? != some '0'))
  let (fraction, rest) ← match rest with
    | '.' :: t =>
      let fraction := t.takeWhile Char.isDigit
      if fraction.isEmpty then none else some (some fraction, t.dropWhile Char.isDigit)
    | t => some (none, t)
  match rest with
  | 'e' :: t | 'E' :: t =>
    let (negativeExponent, exponent, rest) ← readExponent t
    return (⟨negative, whole, fraction, some (negativeExponent, exponent)⟩, rest)
  | t => return (⟨negative, whole, fraction, none⟩, t)

namespace Numeral

/-- The number that the numeral stands for; none if it is beyond the greatest number. -/
def value? (n : Numeral) : Option Json :=
  let (significand, kept) := absorb 0 n.whole
  let signed (x : Binary64) : Json := real { x with negative := n.negative }
  if n.fraction.isNone && n.exponent.isNone && kept == n.whole.length then
    if n.negative then
      if 0 < significand ∧ significand ≤ Nat.pow 2 63 then some (int (-(significand : Int)))
      else (Binary64.ofNat? significand).map signed
    else some (int significand)
  else
    let (significand, decimals) := absorb significand (n.fraction.getD [])
    let shift : Int := ((n.whole.length - kept : Nat) : Int) - (decimals : Int)
    match n.exponent with
    | none => (scale? significand shift).map signed
    | some (negativeExponent, digits) =>
      let size := digits.foldl (fun k c => 10 * k + digitValue c) 0
      if size < Nat.pow 2 31 then
        (scale? significand (if negativeExponent then shift - size else shift + size)).map signed
      else if significand ≠ 0 ∧ !negativeExponent then none
      else some (signed .zero)

end Numeral

/-- A number at the front of a text, and what follows. -/
def readNumber (t : Text) : Option (Json × Text) := do
  let (numeral, rest) ← readNumeral t
  return (← numeral.value?, rest)

/-! ## Writing -/

/-- An integer in decimal digits. -/
def intText (i : Int) : Text :=
  if i < 0 then '-' :: Text.decimal i.natAbs else Text.decimal i.natAbs

/-- `digits * 10 ^ exponent` with a point and at least one digit to each side of it. -/
def positional (digits : Text) (exponent : Int) : Text :=
  if 0 ≤ exponent then digits ++ List.replicate exponent.toNat '0' ++ ".0"
  else
    let places := (-exponent).toNat
    if places < digits.length then
      digits.take (digits.length - places) ++ "." ++ digits.drop (digits.length - places)
    else "0." ++ List.replicate (places - digits.length) '0' ++ digits

/-- A digit, the others after a point if there are any, and the exponent with its sign. -/
def scientific (digits : Text) (exponent : Int) : Text :=
  let point : Text := if digits.length ≤ 1 then "" else "."
  let sign : Text := if exponent < 0 then "-" else "+"
  digits.take 1 ++ point ++ digits.drop 1 ++ "e" ++ sign ++ Text.decimal exponent.natAbs

/-- A floating-point number in the fewest digits, positional if the exponent of its first digit
    is from -5 to 15. -/
def realText (x : Binary64) : Text :=
  let sign : Text := if x.negative then "-" else ""
  if x.mantissa = 0 then sign ++ "0.0"
  else
    let shortest := x.shortest
    let digits := Text.decimal shortest.digits
    let leading := shortest.exponent + digits.length - 1
    sign ++ (if -5 ≤ leading ∧ leading ≤ 15 then positional digits shortest.exponent
      else scientific digits leading)

end Soql.Json
