/-
# Postfix order

Operators are moved behind their operands, so that a stack can fold the tokens into a tree
without looking at precedence again.  Words go straight out.  An operator first sends out the
waiting operators that bind at least as tightly, which makes every tier associate to the
left, and then waits itself.  Parentheses never come out; one without a partner is reported
and dropped.

* `reorder`: the tokens in postfix order and the parentheses without a partner.
-/
import Sieve.Token
import Sieve.Filter.Error

namespace Sieve

/-- The outcome of reordering. -/
structure Postfix where
  tokens : List Placed
  errors : List FilterError
  deriving DecidableEq, Repr

namespace Postfix

/-- The same outcome with more tokens sent out in front. -/
def emit (out : List Placed) (p : Postfix) : Postfix := ⟨out ++ p.tokens, p.errors⟩

/-- The same outcome with one more complaint in front. -/
def complain (e : FilterError) (p : Postfix) : Postfix := ⟨p.tokens, e :: p.errors⟩

/-- Whether a waiting token goes out in front of an operator that binds with `tier`. -/
def yields (tier : Nat) (waiting : Placed) : Bool :=
  match waiting.token.precedence with
  | some p => tier ≤ p
  | none => false

/-- Whether a token is no opening parenthesis. -/
def isNotOpen (p : Placed) : Bool := p.token ≠ .openParen

/-- What is left to do at the end of the input: the waiting operators go out, and every
parenthesis still open is reported. -/
def finish : List Placed → Postfix
  | [] => ⟨[], []⟩
  | top :: waiting =>
    if top.token = .openParen then (finish waiting).complain (.unbalancedParenthesis top.position)
    else (finish waiting).emit [top]

/-- Reorders the rest of the input while `waiting` holds operators and open parentheses, the
latest first. -/
def reorderFrom (waiting : List Placed) : List Placed → Postfix
  | [] => finish waiting
  | t :: input =>
    match t.token with
    | .openParen => reorderFrom (t :: waiting) input
    | .closeParen =>
      match waiting.dropWhile isNotOpen with
      | _ :: outer => (reorderFrom outer input).emit (waiting.takeWhile isNotOpen)
      | [] =>
        ((reorderFrom [] input).complain (.unbalancedParenthesis t.position)).emit waiting
    | .word _ => (reorderFrom waiting input).emit [t]
    | .and | .or | .compare _ | .membership _ | .nullTest _ =>
      let tier := t.token.precedence.getD 0
      (reorderFrom (t :: waiting.dropWhile (yields tier)) input).emit
        (waiting.takeWhile (yields tier))

end Postfix

/-- The tokens in postfix order. -/
def reorder (tokens : List Placed) : Postfix := Postfix.reorderFrom [] tokens

end Sieve
