/-
# Keywords in capitals

The lexer knows keywords in capital letters only.  Users write them as they like, so a text
is first rewritten: every keyword phrase that stands between a blank and the end of a word is
put in capitals, and nothing else changes.  Letters are compared under simple case folding,
where besides the ASCII pairs the long s counts as an S and the Kelvin sign as a K.

A closed quoted span is copied as it is where a token could start: at the beginning, or behind
a blank, a parenthesis or a symbol.  Elsewhere a quote is a character like any other, as in
`O'Brien`.

* `Keyword.capitalize`: the rewriting;
* `capitalFrom_length`: it keeps the number of characters.
-/
import Sieve.Keyword

namespace Sieve

namespace Keyword

/-! ## 1. Letters -/

/-- Whether the capital letter `w` and the character `c` fold to the same letter. -/
def folds (w c : Char) : Bool :=
  c.toUpper == w || (w == 'S' && c == 'ſ') || (w == 'K' && c == '\u212A')

/-- The capital of a letter that folds into a keyword. The Kelvin sign is a capital already. -/
def capital (c : Char) : Char := if c == 'ſ' then 'S' else c.toUpper

/-! ## 2. What is rewritten and what is copied -/

/-- The phrases put in capitals: the keywords, and `NULL` as a literal. -/
def phrases : List (List Text) := all.map words ++ [["NULL".toList]]

/-- The number of characters of the phrase at the front of the text, whatever its case. -/
def foldedLength? (s : Text) : Option Nat := phrases.findSome? fun ws => closedPhrase? folds ws s

/-- Whether a quote behind this character opens a quoted span. -/
def opensSpan (c : Char) : Bool :=
  isBlank c || c == '(' || c == ')' || c == '=' || c == '<' || c == '>' || c == '!'

/-- The characters of the closed span that starts the text, quotes included. A backslash
protects every character but a line feed. -/
def spanLength? : Text → Option Nat
  | [] => none
  | q :: r => if isQuote q then (Quoted.closing? (· != '\n') q r).map (· + 1) else none

/-! ## 3. The rewriting -/

/-- Rewrites a text that does not stand at the beginning of the input. -/
def capitalFrom : Text → Text
  | [] => []
  | c :: r =>
    match (if opensSpan c then spanLength? r else none) with
    | some n => c :: r.take n ++ capitalFrom (r.drop n)
    | none =>
      let rest := r.drop (Text.gap r)
      match (if isBlank c then foldedLength? rest else none) with
      | some n => c :: (r.take (Text.gap r + n)).map capital ++ capitalFrom (rest.drop n)
      | none => c :: capitalFrom r
  termination_by s => s.length
  decreasing_by all_goals simp only [List.length_drop, List.length_cons]; omega

/-- The text with its keywords in capitals. -/
def capitalize (s : Text) : Text :=
  match spanLength? s with
  | some n => s.take n ++ capitalFrom (s.drop n)
  | none => capitalFrom s

/-- Rewriting keeps the number of characters. -/
theorem capitalFrom_length (s : Text) : (capitalFrom s).length = s.length := by
  fun_induction capitalFrom s with
  | case1 => rfl
  | case2 c r n h ih => simp [ih]; omega
  | case3 c r h rest n hn ih =>
    simp only [List.cons_append, List.length_cons, List.length_append, List.length_map,
      List.length_take, ih, rest, List.length_drop]
    omega
  | case4 c r h rest hn ih => simp [ih]

end Keyword

end Sieve
