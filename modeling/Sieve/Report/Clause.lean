/-
# Clauses, sort keys and criteria on paper

What the tool prints about a compiled filter, an order and whole criteria, as text and as JSON.
Bound values are numbered from 1 and shown with their types.
-/
import Sieve.Filter.Clause
import Sieve.Json.Criteria
import Sieve.Report.Tree

namespace Sieve

namespace Report

/-! ## 1. Clauses -/

/-- The line of one bound value. -/
def argumentLine (colours : Bool) (v : Value) (i : Nat) : Text :=
  "  ".toList ++ Text.decimal (i + 1) ++ ": ".toList ++ Style.green.paint colours v.text ++
    " (".toList ++ v.typeName ++ ")".toList

/-- The bound values, one a line. -/
def argumentList (colours : Bool) (args : List Value) : Text :=
  Style.bold.paint colours "Args:".toList ++
    if args.isEmpty then " (none)\n".toList
    else '\n' :: Text.unlines (args.mapIdx fun i v => argumentLine colours v i)

/-- A clause and its bound values. -/
def clauseText (colours : Bool) (clause : Text) (args : List Value) : Text :=
  Style.bold.paint colours "WHERE:".toList ++ ' ' :: orNone clause ++ '\n' ::
    argumentList colours args

/-- A clause and its bound values, as JSON. -/
def clauseJson (clause : Text) (args : List Value) : Json :=
  .object [("where".toList, .string clause), ("args".toList, .array (args.map Value.json))]

/-! ## 2. Sort keys -/

/-- The direction of a sort key, in a colour of its own. -/
def directionText (colours : Bool) (d : Direction) : Text :=
  match d with
  | .ascending => Style.green.paint colours d.text
  | .descending => Style.magenta.paint colours d.text

/-- The line of one sort key. -/
def sortLine (colours : Bool) (k : SortKey) (i : Nat) : Text :=
  Text.decimal (i + 1) ++ ". ".toList ++ Style.cyan.paint colours k.column ++
    ' ' :: directionText colours k.direction

/-- The sort keys, one a line. -/
def sortTable (colours : Bool) (s : SortBy) : Text :=
  if s.keys.isEmpty then "No sort keys.\n".toList
  else Text.unlines (s.keys.mapIdx fun i k => sortLine colours k i)

/-- The sort keys, as JSON. -/
def sortJson (s : SortBy) : Json :=
  .object [("sort_by".toList, s.json), ("order_by".toList, .string s.text)]

/-! ## 3. Criteria -/

/-- A labelled line, the labels filled up to one width. -/
def labelled (colours : Bool) (label value : Text) : Text :=
  Style.bold.paint colours (Text.fill 9 label) ++ ' ' :: value

/-- Criteria with a clause and its bound values. `fallback` is the size of a page that sets
none. -/
def criteriaSections (colours : Bool) (c : Criteria) (clause : Text) (args : List Value)
    (fallback : Nat) : Text :=
  Style.bold.paint colours "Filter:".toList ++ '\n' :: filterTree colours c.filter ++ '\n' ::
    Text.unlines
      [labelled colours "WHERE:".toList (orNone clause),
        labelled colours "ORDER BY:".toList (orNone c.sortBy.text),
        labelled colours "OFFSET:".toList (Text.decimal c.offset),
        labelled colours "LIMIT:".toList (Text.decimal (c.size fallback))] ++
    argumentList colours args

/-- Criteria with their compiled clause. -/
def criteriaText (colours : Bool) (c : Criteria) (fallback : Nat) : Text :=
  criteriaSections colours c c.filter.clause c.filter.arguments fallback

/-- Criteria with their compiled clause, as JSON. -/
def criteriaJson (c : Criteria) (fallback : Nat) : Json :=
  .object
    [("criteria".toList, c.json), ("where".toList, .string c.filter.clause),
      ("args".toList, .array (c.filter.arguments.map Value.json)),
      ("order_by".toList, .string c.sortBy.text), ("offset".toList, .int c.offset),
      ("size".toList, .int (c.size fallback))]

end Report

end Sieve
