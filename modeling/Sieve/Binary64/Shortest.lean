/-
# Writing floating-point values

Of the decimals that read back to a value, the one with the fewest digits is written, and of
those the one nearest to the value.  The search tries one digit, two digits and so on: on each
decimal grid only the two neighbours of the value can be nearest, and both are tested against
the interval of reals that round to the value.  Where the two are equally near, the format
decides, so the tie rule is a parameter.

* `Binary64.shortest`: the digits and the power of ten;
* `Binary64.plain`: positional text, whatever the size;
* `Binary64.scientific`: positional text from `0.00001` up to below `10 ^ 16`, and a power of
  ten outside.
-/
import Sieve.Binary64.Basic
import Sieve.Text.Basic

namespace Sieve

namespace Binary64

/-! ## 1. The digits -/

/-- Which of two equally near decimals is taken. -/
inductive Tie where
  | toEven
  | up
  deriving DecidableEq, Repr

/-- `a * 10 ^ i` compared with `n * 2 ^ j`. -/
def compareScaled (a : Nat) (i : Int) (n : Nat) (j : Int) : Ordering :=
  compare (a * Nat.pow 10 i.toNat * Nat.pow 2 (-j).toNat)
    (n * Nat.pow 2 j.toNat * Nat.pow 10 (-i).toNat)

/-- Whether `digits * 10 ^ e` rounds to `m * 2 ^ q`: it lies between the middles to the two
neighbours, which belong to the interval if `m` is even. Below a power of two the neighbour
is half as far away as above. -/
def readsBack (m : Nat) (q : Int) (digits : Nat) (e : Int) : Bool :=
  let low := if m = leastNormal ∧ -1074 < q then 4 * m - 1 else 4 * m - 2
  let closed := m % 2 == 0
  let below := compareScaled digits e low (q - 2)
  let above := compareScaled digits e (4 * m + 2) (q - 2)
  (below == .gt || (closed && below == .eq)) && (above == .lt || (closed && above == .eq))

/-- The least `k` with `m * 2 ^ q < 10 ^ k`, for a positive `m`: an estimate from the binary
logarithm, put right by one step in either direction. -/
def decade (m : Nat) (q : Int) : Int :=
  let k := ((m.log2 : Int) + q) * 30103 / 100000 + 1
  if compareScaled 1 k m q != .gt then k + 1
  else if compareScaled 1 (k - 1) m q == .gt then k - 1
  else k

/-- The neighbour of `m * 2 ^ q` on the grid `10 ^ e` that is written, if one reads back. -/
def onGrid? (tie : Tie) (m : Nat) (q e : Int) : Option Nat :=
  let low := m * Nat.pow 2 q.toNat * Nat.pow 10 (-e).toNat /
    (Nat.pow 10 e.toNat * Nat.pow 2 (-q).toNat)
  match readsBack m q low e, readsBack m q (low + 1) e with
  | true, true =>
    match compareScaled (2 * low + 1) e (2 * m) q with
    | .lt => some (low + 1)
    | .gt => some low
    | .eq => some (if tie = .toEven ∧ low % 2 = 0 then low else low + 1)
  | true, false => some low
  | false, true => some (low + 1)
  | false, false => none

/-- The digits without the zeros behind them, and the power of ten that they stand for. -/
def strip (fuel : Nat) (digits : Nat) (e : Int) : Nat × Int :=
  match fuel with
  | 0 => (digits, e)
  | fuel + 1 => if digits % 10 = 0 then strip fuel (digits / 10) (e + 1) else (digits, e)

/-- The fewest digits that read back to `m * 2 ^ q`, for a positive `m`, and their power of
ten. Seventeen digits always read back. -/
def shortest (tie : Tie) (m : Nat) (q : Int) : Nat × Int :=
  let k := decade m q
  let found := (List.range 17).findSome? fun (n : Nat) =>
    (onGrid? tie m q (k - 1 - n)).map fun digits => (digits, k - 1 - n)
  let (digits, e) := found.getD (0, 0)
  strip 17 digits e

/-! ## 2. Two layouts -/

/-- `digits * 10 ^ e` with a point where it belongs and zeros up to it; `wholeMark` ends a
number that has no fraction. -/
def positional (digits : Text) (e : Int) (wholeMark : Text) : Text :=
  let point : Int := digits.length + e
  if 0 ≤ e then digits ++ List.replicate e.toNat '0' ++ wholeMark
  else if 0 < point then digits.take point.toNat ++ '.' :: digits.drop point.toNat
  else "0.".toList ++ List.replicate (-point).toNat '0' ++ digits

/-- The sign in front of a text. -/
def signed (negative : Bool) (s : Text) : Text := if negative then '-' :: s else s

/-- Positional text with no more digits than needed; a tie goes up. -/
def plain : Binary64 → Text
  | nan => "NaN".toList
  | infinite negative => signed negative "inf".toList
  | finite negative m q =>
    signed negative <|
      if m = 0 then ['0']
      else
        let (digits, e) := shortest .up m q
        positional (Text.decimal digits) e []

/-- One digit, the others behind a point, and the power of ten with its sign. -/
def powerOfTen (digits : Text) (e : Int) : Text :=
  let k := digits.length - 1 + e
  let head := match digits with
    | [d] => [d]
    | d :: more => d :: '.' :: more
    | [] => []
  head ++ 'e' :: (if k < 0 then '-' else '+') :: Text.decimal k.natAbs

/-- The text of a finite value in a data format: always with a point or a power of ten,
positional from `0.00001` up to below `10 ^ 16`; a tie goes to the even digit. None for
the values that are not finite. -/
def scientific? : Binary64 → Option Text
  | nan | infinite _ => none
  | finite negative m q =>
    some <| signed negative <|
      if m = 0 then "0.0".toList
      else
        let (n, e) := shortest .toEven m q
        let digits := Text.decimal n
        let point : Int := digits.length + e
        if -4 ≤ point ∧ point ≤ 16 then positional digits e ".0".toList
        else powerOfTen digits e

end Binary64

end Sieve
