/-
  Binary64 — the binary floating-point numbers of 64 bits, computed exactly.

  A finite number is a sign, a mantissa below `2 ^ 53` and an exponent from
  -1074 to 971; it stands for `mantissa * 2 ^ exponent`.

  * `Binary64.ofRatio?`: the number nearest to a quotient.
  * `Binary64.mul?`, `Binary64.div`: product and quotient, rounded once.
-/

namespace Soql

/-- A finite number of 64 bits. -/
structure Binary64 where
  negative : Bool
  mantissa : Nat
  exponent : Int
deriving DecidableEq

namespace Binary64

/-- The least exponent. -/
def minExponent : Int := -1074

/-- The greatest exponent. -/
def maxExponent : Int := 971

/-- Positive zero. -/
def zero : Binary64 := ⟨false, 0, minExponent⟩

/-- Numerator and denominator of `num / den / 2 ^ exponent`. -/
def scaled (num den : Nat) (exponent : Int) : Nat × Nat :=
  if 0 ≤ exponent then (num, den * Nat.pow 2 exponent.toNat)
  else (num * Nat.pow 2 (-exponent).toNat, den)

/-- The integer nearest to a quotient; halfway between two it is the even one. -/
def roundDiv (num den : Nat) : Nat :=
  let quotient := num / den
  let rest := 2 * (num % den)
  if den < rest ∨ (rest = den ∧ quotient % 2 = 1) then quotient + 1 else quotient

/-- The positive number nearest to a quotient; none if that is beyond the greatest number. -/
def ofRatio? (num den : Nat) : Option Binary64 :=
  if num = 0 then some zero
  else
    let least := max ((num.log2 : Int) - (den.log2 : Int) - 53) minExponent
    let (n, d) := scaled num den least
    let exponent := if Nat.pow 2 53 ≤ n / d then least + 1 else least
    let (n, d) := scaled num den exponent
    let mantissa := roundDiv n d
    let (mantissa, exponent) :=
      if mantissa = Nat.pow 2 53 then (Nat.pow 2 52, exponent + 1) else (mantissa, exponent)
    if maxExponent < exponent then none else some ⟨false, mantissa, exponent⟩

/-- The number nearest to a natural number. -/
def ofNat? (n : Nat) : Option Binary64 := ofRatio? n 1

/-- The number nearest to a power of ten; one for the powers beyond the greatest number. -/
def powerOfTen (k : Nat) : Binary64 := (ofNat? (Nat.pow 10 k)).getD ⟨false, 1, 0⟩

/-- Numerator and denominator of the value without its sign. -/
def ratio (x : Binary64) : Nat × Nat :=
  if 0 ≤ x.exponent then (x.mantissa * Nat.pow 2 x.exponent.toNat, 1)
  else (x.mantissa, Nat.pow 2 (-x.exponent).toNat)

/-- The product of two positive numbers. -/
def mul? (x y : Binary64) : Option Binary64 :=
  let (a, b) := x.ratio
  let (c, d) := y.ratio
  ofRatio? (a * c) (b * d)

/-- The quotient of a positive number and one that is at least one. -/
def div (x y : Binary64) : Binary64 :=
  let (a, b) := x.ratio
  let (c, d) := y.ratio
  (ofRatio? (a * d) (b * c)).getD zero

end Binary64

end Soql
