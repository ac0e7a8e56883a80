/-
# From words to literals

A word of an expression becomes a typed literal by trying one type after the other.  Quotes
decide first: a text between two equal quotes is an identifier, a timestamp or a string, and
never a number or a boolean.  A bare word is `true`, `false` or `null` in any case, an integer
of 64 bits, a finite floating-point number, or a string.

* `cast`: the literal that a word stands for.
-/
import Sieve.Literal.Scalar
import Sieve.Binary64.Numeral
import Sieve.Text.Quoted

namespace Sieve

/-- The quote around a text of at least two characters, and what stands between. -/
def unquote? : Text → Option (Char × Text)
  | [] => none
  | q :: r => if isQuote q && r.getLast? == some q then some (q, r.dropLast) else none

/-- The literal for what stands between two quotes `q`. Quotes of that kind lose their
backslash; those of the other kind keep it. -/
def castQuoted (q : Char) (s : Text) : Scalar :=
  match Uuid.read? s with
  | some u => .uuid u
  | none =>
    match Timestamp.read? s with
    | some t => .timestamp t
    | none => .string (Text.unescape q s)

/-- The literal for a word that is not quoted. -/
def castBare (s : Text) : Scalar :=
  let name := Text.asciiLower s
  if name = "true".toList then .bool true
  else if name = "false".toList then .bool false
  else if name = "null".toList then .null
  else
    match Text.readInt64? s with
    | some n => .int n
    | none =>
      match (Binary64.read? s).filter Binary64.isFinite with
      | some x => .float x
      | none => .string s

/-- The literal that a word stands for. Blanks around it do not count. -/
def cast (s : Text) : Scalar :=
  let s := Text.trim s
  if s.isEmpty then .string []
  else
    match unquote? s with
    | some (q, inner) => castQuoted q inner
    | none => castBare s

end Sieve
