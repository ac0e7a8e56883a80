/-
# Reading expressions

From the text of an expression to a filter: the text is trimmed, keywords are put in capitals
if that is asked for, and then it is cut into tokens, reordered and folded into a tree.  A blank
expression is the empty filter and no error.

* `Filter.read`: the filter, or why there is none;
* `Filter.readOrEmpty`: the same, with the empty filter in place of an error.
-/
import Sieve.Filter.Build
import Sieve.Keyword.Capital
import Sieve.Postfix
import Sieve.Token.Lexer

namespace Sieve

/-- How expressions are read. -/
structure ReadOptions where
  /-- Whether keywords count in any case. -/
  normalize : Bool := true
  deriving DecidableEq, Repr

namespace Filter

/-- The text that is cut into tokens. -/
def prepare (options : ReadOptions) (s : Text) : Text :=
  if options.normalize then Keyword.capitalize (Text.trim s) else Text.trim s

/-- The filter that tokens stand for. An unbalanced parenthesis is reported before all else. -/
def ofTokens (tokens : List Placed) : Except FilterError Filter :=
  let postfixed := reorder tokens
  match postfixed.errors with
  | e :: _ => .error e
  | [] => build postfixed.tokens

/-- The filter that an expression stands for. -/
def read (options : ReadOptions) (s : Text) : Except FilterError Filter :=
  let prepared := prepare options s
  if prepared.isEmpty then .ok empty else ofTokens (tokenize prepared)

/-- The filter that an expression stands for, or the empty one if there is none. -/
def readOrEmpty (options : ReadOptions) (s : Text) : Filter :=
  match read options s with
  | .ok f => f
  | .error _ => empty

end Filter

end Sieve
