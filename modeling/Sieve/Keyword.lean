/-
# Keywords

The keywords of the filter language are phrases of one to three words.  Between the words of
a phrase stand one or more blanks, and behind it the text ends or a blank, a parenthesis or
a quote follows: `ORDER` is not `OR` and the word `DER`.

* `phraseLength?`: the length of a phrase at the front of a text, for any way of comparing
  letters;
* `Keyword.read?`: the keyword a text starts with, letters compared exactly.
-/
import Sieve.Operator
import Sieve.Text.Blank
import Sieve.Text.Quoted

namespace Sieve

/-! ## 1. Phrases -/

/-- Whether a keyword may end in front of this text. -/
def endsWord : Text → Bool
  | [] => true
  | c :: _ => isBlank c || c == '(' || c == ')' || isQuote c

/-- Whether the text starts with the word, its letters compared by `same`. -/
def startsWith (same : Char → Char → Bool) : Text → Text → Bool
  | [], _ => true
  | _ :: _, [] => false
  | w :: word, c :: s => same w c && startsWith same word s

/-- The number of characters the words take at the front of the text, blanks between them
included; none if they do not stand there. -/
def phraseLength? (same : Char → Char → Bool) : List Text → Text → Option Nat
  | [], _ => some 0
  | [word], s => if startsWith same word s then some word.length else none
  | word :: next :: words, s =>
    if startsWith same word s then
      let tail := s.drop word.length
      if Text.gap tail = 0 then none
      else
        (phraseLength? same (next :: words) (tail.drop (Text.gap tail))).map
          (word.length + Text.gap tail + ·)
    else none

/-- The same, for a phrase that ends where a keyword may end. -/
def closedPhrase? (same : Char → Char → Bool) (words : List Text) (s : Text) : Option Nat :=
  (phraseLength? same words s).filter fun n => endsWord (s.drop n)

/-! ## 2. The keywords -/

/-- The keywords, longer phrases before the shorter ones that share a word with them. -/
inductive Keyword where
  | isNotNull | isNull | notIlike | notLike | notInList | and | or | ilike | like | inList
  deriving DecidableEq, Repr

namespace Keyword

/-- Every keyword, in the order they are tried. -/
def all : List Keyword :=
  [isNotNull, isNull, notIlike, notLike, notInList, and, or, ilike, like, inList]

/-- The words of the phrase. -/
def words : Keyword → List Text
  | isNotNull => ["IS".toList, "NOT".toList, "NULL".toList]
  | isNull => ["IS".toList, "NULL".toList]
  | notIlike => ["NOT".toList, "ILIKE".toList]
  | notLike => ["NOT".toList, "LIKE".toList]
  | notInList => ["NOT".toList, "IN".toList]
  | and => ["AND".toList]
  | or => ["OR".toList]
  | ilike => ["ILIKE".toList]
  | like => ["LIKE".toList]
  | inList => ["IN".toList]

theorem mem_all (k : Keyword) : k ∈ all := by cases k <;> decide

/-- The keyword that the text starts with, and the number of characters it takes. -/
def read? (s : Text) : Option (Keyword × Nat) :=
  all.findSome? fun k => (closedPhrase? (· == ·) k.words s).map (k, ·)

end Keyword

end Sieve
