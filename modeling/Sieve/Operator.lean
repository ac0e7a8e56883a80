/-
# Operators

An operator is named by its text alone: `NOT IN` is the operator that is written so.  The
vocabulary has what the filter language itself produces and the rest of what is usual in SQL;
`append` and `prepend` make operators of several words.

* `Operator.vocabulary`: the operators with a name, over which the null tests are told apart;
* `Operator.has_iff`: `has` is "equal to, or contains the text of".
-/
import Sieve.Text.Basic

namespace Sieve

/-- An operator, known by its text. -/
structure Operator where
  text : Text
  deriving DecidableEq, Repr

namespace Operator

/-! ## 1. The vocabulary -/

/-- No operator at all. A condition writes it as `=`, a group as `AND`. -/
def empty : Operator := ⟨[]⟩

def add : Operator := ⟨"+".toList⟩
def sub : Operator := ⟨"-".toList⟩
def mul : Operator := ⟨"*".toList⟩
def div : Operator := ⟨"/".toList⟩
def mod : Operator := ⟨"%".toList⟩

def bitAnd : Operator := ⟨"&".toList⟩
def bitOr : Operator := ⟨"|".toList⟩
def bitXor : Operator := ⟨"^".toList⟩

def equal : Operator := ⟨"=".toList⟩
def notEqual : Operator := ⟨"<>".toList⟩
def bangEqual : Operator := ⟨"!=".toList⟩
def greater : Operator := ⟨">".toList⟩
def greaterEqual : Operator := ⟨">=".toList⟩
def less : Operator := ⟨"<".toList⟩
def lessEqual : Operator := ⟨"<=".toList⟩

def addEquals : Operator := ⟨"+=".toList⟩
def subEquals : Operator := ⟨"-=".toList⟩
def mulEquals : Operator := ⟨"*=".toList⟩
def divEquals : Operator := ⟨"/=".toList⟩
def modEquals : Operator := ⟨"%=".toList⟩
def bitAndEquals : Operator := ⟨"&=".toList⟩
def bitXorEquals : Operator := ⟨"^=".toList⟩
def bitOrEquals : Operator := ⟨"|=".toList⟩

def is : Operator := ⟨"IS".toList⟩
def isNot : Operator := ⟨"IS NOT".toList⟩
def all : Operator := ⟨"ALL".toList⟩
def and : Operator := ⟨"AND".toList⟩
def any : Operator := ⟨"ANY".toList⟩
def between : Operator := ⟨"BETWEEN".toList⟩
def existsIn : Operator := ⟨"EXISTS".toList⟩
def inList : Operator := ⟨"IN".toList⟩
def notInList : Operator := ⟨"NOT IN".toList⟩
def like : Operator := ⟨"LIKE".toList⟩
def notLike : Operator := ⟨"NOT LIKE".toList⟩
def ilike : Operator := ⟨"ILIKE".toList⟩
def notIlike : Operator := ⟨"NOT ILIKE".toList⟩
def similar : Operator := ⟨"SIMILAR TO".toList⟩
def not : Operator := ⟨"NOT".toList⟩
def or : Operator := ⟨"OR".toList⟩
def some : Operator := ⟨"SOME".toList⟩

/-- All of them. -/
def vocabulary : List Operator :=
  [empty, add, sub, mul, div, mod, bitAnd, bitOr, bitXor, equal, notEqual, bangEqual, greater,
    greaterEqual, less, lessEqual, addEquals, subEquals, mulEquals, divEquals, modEquals,
    bitAndEquals, bitXorEquals, bitOrEquals, is, isNot, all, and, any, between, existsIn, inList,
    notInList, like, notLike, ilike, notIlike, similar, not, or, some]

/-! ## 2. Operations -/

/-- Whether the operator has no text. -/
def isEmpty (op : Operator) : Bool := op.text.isEmpty

/-- Whether `part` is this operator or stands in its text: `IS NOT` has `IS`. -/
def has (op part : Operator) : Bool := op == part || Text.occursIn part.text op.text

theorem has_iff {op part : Operator} : op.has part = true ↔ part.text <:+: op.text := by
  simp only [has, Bool.or_eq_true, beq_iff_eq, Text.occursIn_iff]
  constructor
  · rintro (rfl | h)
    · exact List.infix_refl _
    · exact h
  · exact Or.inr

/-- The two texts with a space between, this one first. -/
def append (op other : Operator) : Operator := ⟨op.text ++ ' ' :: other.text⟩

/-- The two texts with a space between, this one last. -/
def prepend (op other : Operator) : Operator := ⟨other.text ++ ' ' :: op.text⟩

/-- The operator itself, or `fallback` in place of the empty one. -/
def orElse (op fallback : Operator) : Operator := if op.isEmpty then fallback else op

end Operator

end Sieve
