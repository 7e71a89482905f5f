/-
  Shortest decimals — the fewest digits that still read back as a number.

  A number of 64 bits is the nearest one to every real in an interval around
  it.  On the decimal grids from coarse to fine, the first grid with a point
  in that interval gives the digits; of two points the nearer is taken.

  * `Shortest`: digits and the power of ten of the last one.
  * `Binary64.shortest`: the shortest decimal of a positive number.
-/
import Soql.Decimal.Binary64

namespace Soql

/-- The decimal `digits * 10 ^ exponent`. -/
structure Shortest where
  digits : Nat
  exponent : Int
deriving DecidableEq

namespace Shortest

/-- `num / den` compared with `k * 10 ^ exponent`: both sides without denominators. -/
def crossed (num den k : Nat) (exponent : Int) : Nat × Nat :=
  if 0 ≤ exponent then (num, k * Nat.pow 10 exponent.toNat * den)
  else (num * Nat.pow 10 (-exponent).toNat, k * den)

/-- The reals that round to a number, over a common denominator. -/
structure Interval where
  low : Nat
  value : Nat
  high : Nat
  den : Nat
  /-- Whether the ends belong to it. -/
  closed : Bool

/-- Whether the interval holds `k * 10 ^ exponent`. -/
def Interval.holds (i : Interval) (k : Nat) (exponent : Int) : Bool :=
  let (low, a) := crossed i.low i.den k exponent
  let (high, b) := crossed i.high i.den k exponent
  if i.closed then decide (low ≤ a ∧ b ≤ high) else decide (low < a ∧ b < high)

/-- The point of the grid of `10 ^ exponent` that the interval holds, nearest to its value;
    halfway between two it is the even one. -/
def Interval.onGrid (i : Interval) (exponent : Int) : Option Nat :=
  let (n, d) := crossed i.value i.den 1 exponent
  let below := n / d
  match i.holds below exponent, i.holds (below + 1) exponent with
  | true, true => some (Binary64.roundDiv n d)
  | true, false => some below
  | false, true => some (below + 1)
  | false, false => none

/-- The first hit on `n` grids, from `10 ^ exponent` to finer ones. -/
def Interval.search (i : Interval) : Nat → Int → Option Shortest
  | 0, _ => none
  | n + 1, exponent =>
    match i.onGrid exponent with
    | some digits => some ⟨digits, exponent⟩
    | none => i.search n (exponent - 1)

/-- The decimal without zeros at the end of its digits; at most `n` are taken off. -/
def stripZeros : Nat → Shortest → Shortest
  | 0, s => s
  | n + 1, s =>
    if s.digits ≠ 0 ∧ s.digits % 10 = 0 then stripZeros n ⟨s.digits / 10, s.exponent + 1⟩ else s

end Shortest

open Shortest

/-- The reals that round to the number: half a unit of its last binary place to each side, a
    quarter below a power of two.  The ends round to an even mantissa. -/
def Binary64.interval (x : Binary64) : Interval :=
  let (num, den) := (⟨false, 1, x.exponent - 2⟩ : Binary64).ratio
  let below := if x.mantissa = Nat.pow 2 52 ∧ Binary64.minExponent < x.exponent then 1 else 2
  { low := (4 * x.mantissa - below) * num
    value := 4 * x.mantissa * num
    high := (4 * x.mantissa + 2) * num
    den
    closed := x.mantissa % 2 == 0 }

/-- The shortest decimal of a positive number.  A grid that is coarser than the number comes
    first; seventeen digits always suffice. -/
def Binary64.shortest (x : Binary64) : Shortest :=
  let interval := x.interval
  let (num, den) := x.ratio
  let magnitude : Int := ((num.log2 : Int) - (den.log2 : Int) + 1) * 30103 / 100000 + 1
  let found := (interval.search 20 magnitude).getD ⟨0, 0⟩
  stripZeros 20 found

end Soql
