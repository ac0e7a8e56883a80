/-
# Filters and criteria as JSON

Filters are plain data: a group is an object with its operator and its entries, a condition an
object with column, operator and value, a raw fragment a string.  Literals are written bare,
with timestamps and identifiers as strings.
-/
import Sieve.Json.Basic
import Sieve.Criteria

namespace Sieve

/-- A literal as JSON. -/
def Scalar.json : Scalar → Json
  | .null => .null
  | .bool b => .bool b
  | .int n => .int n
  | .float x => .float x
  | .timestamp t => .string t.dataText
  | .uuid u => .string u.text
  | .string s => .string s

/-- A value as JSON, a list as an array. -/
def Value.json : Value → Json
  | .scalar s => s.json
  | .list items => .array (items.map Scalar.json)

/-- A condition as JSON. -/
def Condition.json (c : Condition) : Json :=
  .object
    [("column".toList, .string c.column), ("operator".toList, .string c.operator.text),
      ("value".toList, .ofOption Value.json c.value)]

/-- A group as JSON, given its entries. -/
def groupJson (op : Operator) (entries : List Json) : Json :=
  .object [("operator".toList, .string op.text), ("conditions".toList, .array entries)]

mutual

/-- An entry as JSON. -/
def Node.json : Node → Json
  | .raw fragment => .string fragment
  | .condition c => c.json
  | .group op entries => groupJson op (nodesJson entries)

/-- Each entry as JSON. -/
def nodesJson : List Node → List Json
  | [] => []
  | n :: more => n.json :: nodesJson more

end

/-- A filter as JSON. -/
def Filter.json (f : Filter) : Json := groupJson f.operator (nodesJson f.entries)

/-- A sort key as JSON. -/
def SortKey.json (k : SortKey) : Json :=
  .object [("column".toList, .string k.column), ("order".toList, .string k.direction.text)]

/-- Sort keys as JSON. -/
def SortBy.json (s : SortBy) : Json := .array (s.keys.map SortKey.json)

/-- Criteria as JSON. Bounds that were not set are left out. -/
def Criteria.json (c : Criteria) : Json :=
  .object <|
    [("filter".toList, c.filter.json), ("sort_by".toList, c.sortBy.json)] ++
      Json.field? "offset".toList (fun (n : Nat) => .int n) c.offset? ++
      Json.field? "size".toList (fun (n : Nat) => .int n) c.size?

end Sieve
