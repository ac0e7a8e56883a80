/-
# Filters as trees

A filter is shown with one line for every entry, drawn as a tree: an entry hangs on a branch
under the line of its group, and a bar runs down past the entries below it unless it is the
last of its group.  The lines of an entry do not depend on where it hangs; hanging puts the
same cell in front of all of them.

* `Report.filterTree`: the drawing.
-/
import Sieve.Filter.Basic
import Sieve.Report.Style

namespace Sieve

namespace Report

/-! ## 1. Labels -/

/-- A condition as column, operator and value; no value is shown as `NULL`. -/
def conditionLabel (colours : Bool) (c : Condition) : Text :=
  Style.cyan.paint colours c.column ++ ' ' :: Style.yellow.paint colours c.operator.text ++
    ' ' :: Style.green.paint colours (c.value.getD (.scalar .null)).text

/-- The line of a group. -/
def groupLabel (colours : Bool) (op : Operator) : Text :=
  if op.isEmpty then "(group)".toList else Style.bold.paint colours op.text

/-- The line of a raw fragment. -/
def rawLabel (colours : Bool) (fragment : Text) : Text :=
  Style.dimmed.paint colours "raw:".toList ++ ' ' :: fragment

/-! ## 2. Hanging entries under a group -/

/-- Puts `first` in front of the first line and `below` in front of the others. -/
def hang (first below : Text) : List Text → List Text
  | [] => []
  | l :: ls => (first ++ l) :: ls.map (below ++ ·)

/-- The lines of an entry that has a successor in its group. -/
def hangInner (ls : List Text) : List Text := hang "├── ".toList "│   ".toList ls

/-- The lines of the last entry of a group. -/
def hangLast (ls : List Text) : List Text := hang "└── ".toList "    ".toList ls

mutual

/-- The lines of an entry: its own, and those of its entries. -/
def nodeLines (colours : Bool) : Node → List Text
  | .raw fragment => [rawLabel colours fragment]
  | .condition c => [conditionLabel colours c]
  | .group op entries => groupLabel colours op :: entryLines colours entries

/-- The lines of the entries of a group. -/
def entryLines (colours : Bool) : List Node → List Text
  | [] => []
  | [n] => hangLast (nodeLines colours n)
  | n :: m :: more => hangInner (nodeLines colours n) ++ entryLines colours (m :: more)

end

/-! ## 3. Whole filters -/

/-- The lines of a filter. Entries under no operator have no group to hang on. -/
def filterLines (colours : Bool) (f : Filter) : List Text :=
  if f.operator.isEmpty then f.entries.flatMap (nodeLines colours)
  else groupLabel colours f.operator :: entryLines colours f.entries

/-- The filter drawn as a tree. -/
def filterTree (colours : Bool) (f : Filter) : Text :=
  if f.isEmpty then "(empty filter: matches every row)\n".toList
  else Text.unlines (filterLines colours f)

end Report

end Sieve
