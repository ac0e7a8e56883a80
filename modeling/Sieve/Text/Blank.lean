/-
# Blanks

A blank is a character with the Unicode property White_Space, of which there are
twenty-five.  Blanks separate tokens, surround literals and sort keys, and never belong to
them; the ASCII blanks alone would glue words that a no-break space keeps apart.
-/
import Sieve.Text.Basic

namespace Sieve

/-- The Unicode property White_Space. -/
def isBlank (c : Char) : Bool :=
  let n := c.toNat
  (9 ≤ n && n ≤ 13) || n == 0x20 || n == 0x85 || n == 0xA0 || n == 0x1680 ||
    (0x2000 ≤ n && n ≤ 0x200A) || n == 0x2028 || n == 0x2029 || n == 0x202F || n == 0x205F ||
    n == 0x3000

namespace Text

/-- The text without the blanks it starts with. -/
def trimStart (s : Text) : Text := s.dropWhile isBlank

/-- The text without the blanks at either end. -/
def trim (s : Text) : Text := (trimStart (trimStart s).reverse).reverse

/-- The number of blanks the text starts with. -/
def gap (s : Text) : Nat := (s.takeWhile isBlank).length

theorem trimStart_length_le (s : Text) : (trimStart s).length ≤ s.length :=
  (List.dropWhile_suffix isBlank).length_le

/-- What is left after the leading blanks starts with no blank. -/
theorem not_isBlank_of_trimStart {s r : Text} {c : Char} (h : trimStart s = c :: r) :
    isBlank c = false := by
  induction s with
  | nil => simp [trimStart] at h
  | cons d t ih =>
    by_cases hd : isBlank d = true
    · exact ih (by simpa [trimStart, List.dropWhile_cons, hd] using h)
    · simp only [trimStart, List.dropWhile_cons, hd, Bool.false_eq_true, if_false,
        List.cons.injEq] at h
      simpa [← h.1] using hd

end Text

end Sieve
