/-
# Expressions and their writings

The grammar of the filter language, said without its reader.  An expression is a tree of
connectives over leaves.  A writing of it is a token list in which some parts stand in
parentheses: it must bracket a part that the precedence of the connectives would read
otherwise, and may bracket every other part as often as it likes.

* `Expr.filter`: the filter that an expression stands for;
* `Writing.tokens`, `Writing.expr`: what is written, and the expression it writes;
* `Writing.WellBracketed`: the brackets that are needed are there;
* `Expr.reordered`: the tokens of an expression, operators behind their operands.
-/
import Sieve.Filter.Build

namespace Sieve

/-! ## 1. Connectives and leaves -/

/-- What joins two expressions. -/
inductive Connective where
  | and | or
  deriving DecidableEq, Repr

namespace Connective

def token : Connective → Token
  | and => .and
  | or => .or

def operator : Connective → Operator
  | and => .and
  | or => .or

/-- How tightly the connective binds. -/
def tier : Connective → Nat
  | or => 1
  | and => 2

@[simp] theorem precedence_token (c : Connective) : c.token.precedence = some c.tier := by
  cases c <;> rfl

end Connective

/-- What stands between connectives: a condition, or a fragment of one word.  The list of a
membership test may have come in several words, but not in none. -/
inductive Leaf where
  | comparison (column : Text) (op : Operator) (literal : Text)
  | membership (column : Text) (op : Operator) (first : Text) (more : List Text)
  | nullTest (column : Text) (op : Operator)
  | fragment (text : Text)
  deriving DecidableEq, Repr

namespace Leaf

/-- The leaf as it is written. -/
def tokens : Leaf → List Token
  | comparison column op literal => [.word column, .compare op, .word literal]
  | membership column op first more =>
    .word column :: .membership op :: (first :: more).map .word
  | nullTest column op => [.word column, .nullTest op]
  | fragment text => [.word text]

/-- The leaf with its operator behind its words. -/
def reordered : Leaf → List Token
  | comparison column op literal => [.word column, .word literal, .compare op]
  | membership column op first more =>
    .word column :: (first :: more).map .word ++ [.membership op]
  | nullTest column op => [.word column, .nullTest op]
  | fragment text => [.word text]

/-- The entry of a filter that the leaf stands for. -/
def node : Leaf → Node
  | comparison column op literal => .condition ⟨column, op, some (.scalar (cast literal))⟩
  | membership column op first more =>
    .condition ⟨column, op, some (.list ((splitList (first :: more).flatten).map cast))⟩
  | nullTest column op => .condition ⟨column, op, none⟩
  | fragment text => .raw text

def isFragment : Leaf → Bool
  | fragment _ => true
  | _ => false

def isMembership : Leaf → Bool
  | membership .. => true
  | _ => false

end Leaf

/-! ## 2. Expressions -/

/-- A tree of connectives over leaves. -/
inductive Expr where
  | leaf (l : Leaf)
  | join (c : Connective) (left right : Expr)
  deriving DecidableEq, Repr

namespace Expr

/-- The leaves from left to right. -/
def leaves : Expr → List Leaf
  | leaf l => [l]
  | join _ left right => left.leaves ++ right.leaves

/-- The entry of a filter that the expression stands for: a group of two under every
connective. -/
def node : Expr → Node
  | leaf l => l.node
  | join c left right => .group c.operator [left.node, right.node]

/-- The filter that the expression stands for. A leaf alone stands under no operator. -/
def filter : Expr → Filter
  | leaf l => .leaf l.node
  | join c left right => ⟨c.operator, [left.node, right.node]⟩

/-- The tokens of the expression, every operator behind its operands. -/
def reordered : Expr → List Token
  | leaf l => l.reordered
  | join c left right => left.reordered ++ right.reordered ++ [c.token]

end Expr

/-! ## 3. Writings -/

/-- An expression with the parentheses it is written with. -/
inductive Writing where
  | leaf (l : Leaf)
  | bracket (inner : Writing)
  | join (c : Connective) (left right : Writing)
  deriving DecidableEq, Repr

namespace Writing

/-- What is written. -/
def tokens : Writing → List Token
  | leaf l => l.tokens
  | bracket inner => .openParen :: inner.tokens ++ [.closeParen]
  | join c left right => left.tokens ++ c.token :: right.tokens

/-- The expression that is written. -/
def expr : Writing → Expr
  | leaf l => .leaf l
  | bracket inner => inner.expr
  | join c left right => .join c left.expr right.expr

/-- The connective that the writing shows outside all parentheses, and last to be read. -/
def root? : Writing → Option Connective
  | join c _ _ => some c
  | _ => none

/-- The needed parentheses are there: an `OR` is bracketed as an operand of `AND`, and so is
the right operand of a connective that has the same connective at its root. -/
def WellBracketed : Writing → Prop
  | leaf _ => True
  | bracket inner => inner.WellBracketed
  | join c left right =>
    left.WellBracketed ∧ right.WellBracketed ∧
      (c = .and → left.root? ≠ some .or ∧ right.root? ≠ some .or) ∧ right.root? ≠ some c

/-- How tightly the writing holds together: as its root, or as a condition if it has none. -/
def tier (w : Writing) : Nat :=
  match w.root? with
  | some c => c.tier
  | none => 3

/-- The needed parentheses, said in tiers: no looser on the left, tighter on the right. -/
theorem wellBracketed_join_iff {c : Connective} {left right : Writing} :
    (join c left right).WellBracketed ↔
      left.WellBracketed ∧ right.WellBracketed ∧ c.tier ≤ left.tier ∧ c.tier < right.tier := by
  have key : ((c = .and → left.root? ≠ some .or ∧ right.root? ≠ some .or) ∧
      right.root? ≠ some c) ↔ c.tier ≤ left.tier ∧ c.tier < right.tier := by
    unfold tier
    rcases left.root? with _ | (_ | _) <;> rcases right.root? with _ | (_ | _) <;>
      cases c <;> simp [Connective.tier]
  simp only [WellBracketed, key]

end Writing

end Sieve
