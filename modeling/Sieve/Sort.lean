/-
# Sort specifications

A sort specification is a list of columns between commas; a hyphen in front of a column sorts
it in descending order.  Blanks around a column do not count, and entries without a column are
skipped.

* `SortBy.read`: the keys of a specification, the primary key first;
* `SortBy.text`: the keys as they stand behind ORDER BY.
-/
import Sieve.Text.Blank

namespace Sieve

/-- The direction of a sort key. -/
inductive Direction where
  | ascending
  | descending
  deriving DecidableEq, Repr

/-- The keyword for the direction. -/
def Direction.text : Direction → Text
  | ascending => "ASC".toList
  | descending => "DESC".toList

/-- A column and the direction it is sorted in. -/
structure SortKey where
  column : Text
  direction : Direction
  deriving DecidableEq, Repr

/-- The key as it stands behind ORDER BY. -/
def SortKey.text (k : SortKey) : Text := k.column ++ ' ' :: k.direction.text

/-- Sort keys, the primary key first. -/
structure SortBy where
  keys : List SortKey
  deriving DecidableEq, Repr

namespace SortBy

/-- No order at all. -/
def none : SortBy := ⟨[]⟩

/-- The key that a trimmed entry stands for. -/
def readKey : Text → SortKey
  | '-' :: column => ⟨Text.trim column, .descending⟩
  | column => ⟨column, .ascending⟩

/-- The keys of a sort specification. -/
def read (s : Text) : SortBy :=
  ⟨((Text.split ',' s).map fun entry => readKey (Text.trim entry)).filter fun k =>
    !k.column.isEmpty⟩

/-- Each key as it stands behind ORDER BY. -/
def texts (s : SortBy) : List Text := s.keys.map SortKey.text

/-- The keys as they stand behind ORDER BY. -/
def text (s : SortBy) : Text := ", ".toList.intercalate s.texts

end SortBy

end Sieve
