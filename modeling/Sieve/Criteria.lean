/-
# Query criteria

All that selects one page of rows: a filter, an order, and the bounds of the page.  A bound is
put right when it is set, so that what is stored can be used as it is: a negative offset becomes
0, and a size below 1 becomes 1.
-/
import Sieve.Filter.Read
import Sieve.Sort

namespace Sieve

/-- A filter, an order and the bounds of a page. -/
@[ext]
structure Criteria where
  filter : Filter
  sortBy : SortBy
  offset? : Option Nat
  size? : Option Nat
  deriving Repr

namespace Criteria

/-- A filter and an order, with no bounds. -/
def new (filter : Filter) (sortBy : SortBy) : Criteria := ⟨filter, sortBy, none, none⟩

/-- Every row, in any order. -/
def unrestricted : Criteria := new .empty .none

/-- The criteria that two texts stand for. A malformed filter counts as the empty one. -/
def read (options : ReadOptions) (filter sort : Text) : Criteria :=
  new (Filter.readOrEmpty options filter) (SortBy.read sort)

/-! ## Setting and asking -/

def setFilter (f : Filter) (c : Criteria) : Criteria := { c with filter := f }

def setSortBy (s : SortBy) (c : Criteria) : Criteria := { c with sortBy := s }

/-- Sets the number of rows to skip; a negative number becomes 0. -/
def setOffset (n : Int) (c : Criteria) : Criteria := { c with offset? := some n.toNat }

/-- Sets the size of a page; a number below 1 becomes 1. -/
def setSize (n : Int) (c : Criteria) : Criteria := { c with size? := some (max n.toNat 1) }

/-- Whether a number of rows to skip was set. -/
def hasOffset (c : Criteria) : Bool := c.offset?.isSome

/-- Whether the size of a page was set. -/
def hasSize (c : Criteria) : Bool := c.size?.isSome

/-- The number of rows to skip. -/
def offset (c : Criteria) : Nat := c.offset?.getD 0

/-- The size of a page, or `fallback` if none was set. -/
def size (c : Criteria) (fallback : Nat) : Nat := c.size?.getD fallback

end Criteria

end Sieve
