/-
# Why an expression is refused

Each way in which an expression can fail to be a filter is a constructor that holds what its
message needs.  Places are bytes of the prepared text.
-/
import Sieve.Operator

namespace Sieve

/-- The reasons for which an expression is no filter. -/
inductive FilterError where
  /-- A `)` with no `(` to close, or a `(` that is never closed. -/
  | unbalancedParenthesis (position : Nat)
  /-- The operator found too few operands in front of it. -/
  | missingOperand (op : Operator) (position : Nat)
  /-- The operator found a condition or a group where it needs a plain word. -/
  | unexpectedOperand (op : Operator) (position : Nat)
  /-- The operands do not come together in one tree. -/
  | incompleteExpression (remaining : Nat)
  /-- The whole expression is one word. -/
  | loneOperand (word : Text)
  deriving DecidableEq, Repr

namespace FilterError

/-- What the user is told. -/
def message : FilterError → Text
  | unbalancedParenthesis p => "unbalanced parenthesis at position ".toList ++ Text.decimal p
  | missingOperand op p =>
    "missing operand for ".toList ++ op.text ++ " at position ".toList ++ Text.decimal p
  | unexpectedOperand op p =>
    "unexpected operand for ".toList ++ op.text ++ " at position ".toList ++ Text.decimal p
  | incompleteExpression n =>
    "incomplete expression: ".toList ++ Text.decimal n ++ " operands left unreduced".toList
  | loneOperand w => "expression has no operator: ".toList ++ w

end FilterError

end Sieve
