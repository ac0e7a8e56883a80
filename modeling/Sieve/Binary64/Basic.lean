/-
# Floating-point values

The values of IEEE 754 binary64, kept as what they are: a sign and a natural number times a
power of two.  All arithmetic on them is exact arithmetic on natural numbers, so that reading
and writing are ordinary functions which a proof can follow.

* `Binary64.ofRatio`: the value nearest to a quotient, ties to an even significand.
-/

namespace Sieve

/-- A floating-point value. A finite one is `significand * 2 ^ exponent`, with a significand
below `2 ^ 53` and at least `2 ^ 52` unless the exponent is `-1074`. -/
inductive Binary64 where
  | nan
  | infinite (negative : Bool)
  | finite (negative : Bool) (significand : Nat) (exponent : Int)
  deriving DecidableEq, Repr

namespace Binary64

/-! ## 1. Quotients -/

/-- The quotient rounded to the nearest natural number, a tie to the even one. -/
def roundEven (num den : Nat) : Nat :=
  let q := num / den
  let r := num % den
  if den < 2 * r ∨ (2 * r = den ∧ q % 2 = 1) then q + 1 else q

/-- The quotient over `2 ^ k`, as a quotient again. -/
def unscale (num den : Nat) (k : Int) : Nat × Nat :=
  (num * Nat.pow 2 (-k).toNat, den * Nat.pow 2 k.toNat)

/-- The exponent of the greatest power of two that does not exceed the quotient of two positive
numbers. -/
def binade (num den : Nat) : Int :=
  let k := (num.log2 : Int) - den.log2
  let scaled := unscale num den k
  if scaled.2 ≤ scaled.1 then k else k - 1

/-! ## 2. The nearest value -/

/-- The least significand of a value that keeps its full precision: `2 ^ 52`. -/
def leastNormal : Nat := 4503599627370496

/-- Zero, with a sign. -/
def zero (negative : Bool) : Binary64 := finite negative 0 (-1074)

/-- The value nearest to a quotient of naturals, ties to an even significand; infinite from
the middle between the greatest value and `2 ^ 1024` on. -/
def ofRatio (negative : Bool) (num den : Nat) : Binary64 :=
  if num = 0 then zero negative
  else
    let k := max (binade num den - 52) (-1074)
    let scaled := unscale num den k
    let m := roundEven scaled.1 scaled.2
    let value := if m = 2 * leastNormal then (leastNormal, k + 1) else (m, k)
    if 971 < value.2 then infinite negative else finite negative value.1 value.2

/-- Whether the value is neither infinite nor no number at all. -/
def isFinite : Binary64 → Bool
  | finite .. => true
  | _ => false

end Binary64

end Sieve
