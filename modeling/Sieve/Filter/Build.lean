/-
# From postfix order to a tree

A stack of entries folds tokens in postfix order into a filter.  A word waits on the stack as
a raw fragment until an operator takes it as a column or a literal; one that no operator takes
stays a raw fragment.

* a comparison takes a literal and a column;
* a membership test takes the whole run of words on top: the deepest is the column, the others
  are joined and cut again at the commas outside quotes, since `1, 2` arrives as two words;
* a null test takes a column;
* a connective takes two entries of any kind.

`build` succeeds if one condition or group is left.
-/
import Sieve.Filter.Basic
import Sieve.Filter.Error
import Sieve.Literal.Cast
import Sieve.Token

namespace Sieve

/-! ## 1. Lists of literals -/

/-- A character in front of the first piece. -/
def pushFront (c : Char) : List Text → List Text
  | [] => [[c]]
  | piece :: more => (c :: piece) :: more

/-- Cuts at the commas outside quotes. `quote` is the quote that is open; in it a backslash
protects the next character. -/
def splitListFrom : Option Char → Text → List Text
  | _, [] => [[]]
  | none, c :: r =>
    if c = ',' then [] :: splitListFrom none r
    else pushFront c (splitListFrom (if isQuote c then some c else none) r)
  | some _, ['\\'] => [['\\']]
  | some q, '\\' :: d :: r => pushFront '\\' (pushFront d (splitListFrom (some q) r))
  | some q, c :: r => pushFront c (splitListFrom (if c = q then none else some q) r)

/-- The items of a list of literals. -/
def splitList (s : Text) : List Text := splitListFrom none s

/-! ## 2. The stack -/

namespace Filter

/-- Takes a plain word off the stack for an operator. -/
def popWord (op : Operator) (position : Nat) : List Node → Except FilterError (Text × List Node)
  | .raw w :: stack => .ok (w, stack)
  | _ :: _ => .error (.unexpectedOperand op position)
  | [] => .error (.missingOperand op position)

/-- The run of words on top of the stack, the deepest first, and what is below it. -/
def takeWords : List Node → List Text × List Node
  | .raw w :: stack => ((takeWords stack).1 ++ [w], (takeWords stack).2)
  | stack => ([], stack)

/-- Takes two entries and puts their group back. -/
def reduceGroup (op : Operator) (position : Nat) : List Node → Except FilterError (List Node)
  | right :: left :: stack => .ok (.group op [left, right] :: stack)
  | _ => .error (.missingOperand op position)

/-- What one token does to the stack. -/
def step (stack : List Node) (t : Placed) : Except FilterError (List Node) :=
  match t.token with
  | .and => reduceGroup .and t.position stack
  | .or => reduceGroup .or t.position stack
  | .compare op => do
    let (literal, stack) ← popWord op t.position stack
    let (column, stack) ← popWord op t.position stack
    return .condition ⟨column, op, some (.scalar (cast literal))⟩ :: stack
  | .membership op =>
    match takeWords stack with
    | (column :: word :: words, below) =>
      let items := (splitList (word :: words).flatten).map cast
      .ok (.condition ⟨column, op, some (.list items)⟩ :: below)
    | _ => .error (.missingOperand op t.position)
  | .nullTest op => do
    let (column, stack) ← popWord op t.position stack
    return .condition ⟨column, op, none⟩ :: stack
  | .word w => .ok (.raw w :: stack)
  | .openParen | .closeParen => .error (.unbalancedParenthesis t.position)

/-- The filter that the last stack holds. -/
def finish : List Node → Except FilterError Filter
  | [.group op entries] => .ok ⟨op, entries⟩
  | [.condition c] => .ok (leaf (.condition c))
  | [.raw w] => .error (.loneOperand w)
  | stack => .error (.incompleteExpression stack.length)

/-- The filter that tokens in postfix order stand for, or the first reason why there is
none. -/
def build (tokens : List Placed) : Except FilterError Filter := do
  let stack ← tokens.foldlM step []
  finish stack

end Filter

end Sieve
