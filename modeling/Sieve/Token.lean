/-
# Tokens

The tokens of a filter expression.  Operators of one kind share a constructor and carry their
text, so `<` and `NOT LIKE` are both comparisons; a word is a column name or a literal with
its quotes.  A token of the input carries the place where it starts, counted in bytes.

* `Token.precedence`: how tightly a token binds, for operators only;
* `Token.text`: the token as it is written.
-/
import Sieve.Operator

namespace Sieve

/-- A token of the filter language. -/
inductive Token where
  | and
  | or
  /-- One of `=`, `<>`, `!=`, `<`, `<=`, `>`, `>=` and the `LIKE` family. -/
  | compare (op : Operator)
  /-- `IN` or `NOT IN`. -/
  | membership (op : Operator)
  /-- `IS NULL`, which carries `IS`, or `IS NOT NULL`, which carries `IS NOT`. -/
  | nullTest (op : Operator)
  | openParen
  | closeParen
  | word (text : Text)
  deriving DecidableEq, Repr

namespace Token

/-- `OR` binds loosest, then `AND`, then all conditions alike; parentheses and words do not
bind. -/
def precedence : Token → Option Nat
  | or => some 1
  | and => some 2
  | compare _ | membership _ | nullTest _ => some 3
  | openParen | closeParen | word _ => none

/-- The token as it is written, with one space between the words of a keyword. -/
def text : Token → Text
  | and => "AND".toList
  | or => "OR".toList
  | compare op | membership op => op.text
  | nullTest op => op.text ++ " NULL".toList
  | openParen => ['(']
  | closeParen => [')']
  | word t => t

/-- Whether the token is a word. -/
def isWord : Token → Bool
  | word _ => true
  | _ => false

end Token

/-- A token and the byte at which it starts. -/
structure Placed where
  token : Token
  position : Nat
  deriving DecidableEq, Repr

end Sieve
