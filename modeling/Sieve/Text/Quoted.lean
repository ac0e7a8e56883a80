/-
# Quoted spans

A quoted span runs from a quote to the next quote of the same kind that no backslash
protects.  A backslash protects the one character behind it.  Two readers of spans agree on
that and differ in one point, whether a line feed may be protected, so the reader takes the
protectable characters as a parameter.

* `closing?`: how far the span reaches, counted in characters after the opening quote;
* `closing?_le`: it does not reach beyond the text.
-/
import Sieve.Text.Basic

namespace Sieve

/-- The two characters that open and close quoted spans. -/
def isQuote (c : Char) : Bool := c == '\'' || c == '"'

theorem isQuote_iff {c : Char} : isQuote c = true ↔ c = '\'' ∨ c = '"' := by
  simp [isQuote]

theorem ne_of_isQuote {q c : Char} (hq : isQuote q = true) (hc : isQuote c = false) : q ≠ c := by
  rintro rfl
  rw [hq] at hc
  cases hc

namespace Quoted

/-- The number of characters up to and with the closing quote, in the text after the opening
one; none if the span is never closed. -/
def closing? (protectable : Char → Bool) (q : Char) : Text → Option Nat
  | [] => none
  | [c] => if c ≠ '\\' ∧ c = q then some 1 else none
  | c :: d :: r =>
    if c = '\\' then
      if protectable d then (closing? protectable q r).map (· + 2) else none
    else if c = q then some 1
    else (closing? protectable q (d :: r)).map (· + 1)

theorem closing?_le {protectable : Char → Bool} {q : Char} {s : Text} {n : Nat}
    (h : closing? protectable q s = some n) : 1 ≤ n ∧ n ≤ s.length := by
  fun_induction closing? protectable q s generalizing n <;> grind [Option.map_eq_some_iff]

end Quoted

end Sieve
