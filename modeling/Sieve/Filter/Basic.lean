/-
# Filters

A filter is a tree.  Its leaves are conditions on a column and raw fragments, which stand for
themselves; its inner nodes are groups, an operator over any number of entries.  A filter read
from an expression has two entries in every group, or one condition under no operator.

* `Filter.leaf`, `Filter.and`, `Filter.or`: the ways to build one by hand;
* `Filter.empty`: the filter with no entries, which lets every row through.
-/
import Sieve.Operator
import Sieve.Literal.Scalar

namespace Sieve

/-- A condition on one column. Null tests have no value. -/
structure Condition where
  column : Text
  operator : Operator
  value : Option Value
  deriving DecidableEq, Repr

namespace Condition

/-- `column IS NULL`. -/
def isNull (column : Text) : Condition := ⟨column, .is, none⟩

/-- `column IS NOT NULL`. -/
def isNotNull (column : Text) : Condition := ⟨column, .isNot, none⟩

end Condition

/-- An entry of a filter. -/
inductive Node where
  /-- A fragment that stands for itself. -/
  | raw (fragment : Text)
  | condition (c : Condition)
  | group (op : Operator) (entries : List Node)
  deriving Repr

/-- A filter: an operator over its entries. -/
structure Filter where
  operator : Operator
  entries : List Node
  deriving Repr

namespace Filter

/-- The filter with no entries. -/
def empty : Filter := ⟨.empty, []⟩

/-- One entry under no operator. -/
def leaf (n : Node) : Filter := ⟨.empty, [n]⟩

/-- Both entries have to hold. -/
def and (left right : Node) : Filter := ⟨.and, [left, right]⟩

/-- One of the entries has to hold. -/
def or (left right : Node) : Filter := ⟨.or, [left, right]⟩

/-- Whether there are no entries. -/
def isEmpty (f : Filter) : Bool := f.entries.isEmpty

/-- The filter as an entry of another one. -/
def node (f : Filter) : Node := .group f.operator f.entries

end Filter

end Sieve
