/-
# Reading decimal numerals

A numeral is an optional sign, digits with at most one point among them and at least one
digit in all, and an optional power of ten behind `e` or `E`.  The words `inf`, `infinity`
and `nan` are numerals too, in any case.  The value is the floating-point number nearest to
what the numeral says, however many digits it has.

* `Binary64.ofDecimal`: the value nearest to `digits * 10 ^ exponent`;
* `Binary64.read?`: the value of a numeral.
-/
import Sieve.Binary64.Basic
import Sieve.Text.Basic

namespace Sieve

namespace Binary64

/-! ## 1. The nearest value to a decimal -/

/-- The value nearest to `digits * 10 ^ exponent`. Beyond the powers of ten that matter the
answer is known without computing the power. -/
def ofDecimal (negative : Bool) (digits : Nat) (exponent : Int) : Binary64 :=
  let magnitude := ((Text.decimal digits).length : Int) + exponent
  if digits = 0 then zero negative
  else if 310 < magnitude then infinite negative
  else if magnitude < -330 then zero negative
  else ofRatio negative (digits * Nat.pow 10 exponent.toNat) (Nat.pow 10 (-exponent).toNat)

/-! ## 2. Numerals -/

/-- A sign in front of a text: whether it is a minus, and the rest. -/
def sign : Text → Bool × Text
  | '-' :: r => (true, r)
  | '+' :: r => (false, r)
  | s => (false, s)

/-- The power of ten behind the digits: zero where the text ends, none where anything but a
well-formed exponent follows. -/
def exponent? : Text → Option Int
  | [] => some 0
  | c :: r =>
    if c = 'e' ∨ c = 'E' then
      let (negative, digits) := sign r
      (Text.readNat? digits).map fun n => if negative then -(n : Int) else n
    else none

/-- The value of an unsigned numeral made of digits. -/
def readDigits? (negative : Bool) (s : Text) : Option Binary64 :=
  let whole := s.takeWhile Char.isDigit
  let rest := s.dropWhile Char.isDigit
  let fraction := match rest with
    | '.' :: r => r.takeWhile Char.isDigit
    | _ => []
  let tail := match rest with
    | '.' :: r => r.dropWhile Char.isDigit
    | _ => rest
  match Text.readNat? (whole ++ fraction), exponent? tail with
  | some digits, some e => some (ofDecimal negative digits (e - fraction.length))
  | _, _ => none

/-- The value of a numeral; none if the text is no numeral. -/
def read? (s : Text) : Option Binary64 :=
  let (negative, body) := sign s
  let name := Text.asciiLower body
  if name = "nan".toList then some nan
  else if name = "inf".toList ∨ name = "infinity".toList then some (infinite negative)
  else readDigits? negative body

end Binary64

end Sieve
