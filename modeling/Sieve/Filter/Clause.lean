/-
# WHERE clauses

A filter is written as the text of a WHERE clause with a placeholder for every value, and the
values in the order of their placeholders.  Nested groups are bracketed, a group with no
entries is left out, and a test of the `IS` family against `NULL` has no placeholder.

* `Filter.clause`: the text;
* `Filter.arguments`: the values bound to its placeholders.
-/
import Sieve.Filter.Basic

namespace Sieve

/-! ## 1. Conditions -/

namespace Condition

/-- The operator that is written: `=` for the empty one. -/
def written (c : Condition) : Operator := c.operator.orElse .equal

/-- Whether the condition is written as a null test: the operator is of the `IS` family and
there is no value but `NULL`. -/
def isNullTest (c : Condition) : Bool :=
  (match c.value with
    | none => true
    | some v => v.isNull) && c.written.has .is

/-- The text of the condition. -/
def clause (c : Condition) : Text :=
  c.column ++ ' ' :: c.written.text ++
    if c.isNullTest then " NULL".toList else " (?)".toList

/-- The value bound to the placeholder of the condition, if it has one. -/
def arguments (c : Condition) : List Value :=
  if c.isNullTest then [] else [c.value.getD (.scalar .null)]

end Condition

/-! ## 2. Groups -/

/-- Clauses with the operator of their group between them: `AND` for the empty one. -/
def joinClauses (op : Operator) (clauses : List Text) : Text :=
  (' ' :: (op.orElse .and).text ++ [' ']).intercalate clauses

mutual

/-- The text of an entry; none for a group with no entries. -/
def Node.clause? : Node → Option Text
  | .raw fragment => some fragment
  | .condition c => some c.clause
  | .group _ [] => none
  | .group op (n :: more) => some ('(' :: joinClauses op (nodeClauses (n :: more)) ++ [')'])

/-- The texts of entries. -/
def nodeClauses : List Node → List Text
  | [] => []
  | n :: more => n.clause?.toList ++ nodeClauses more

end

theorem nodeClauses_eq_filterMap (entries : List Node) :
    nodeClauses entries = entries.filterMap Node.clause? := by
  induction entries with
  | nil => rfl
  | cons n more ih => cases h : n.clause? <;> simp [nodeClauses, h, ih]

/-- A group with entries is written between brackets. -/
theorem Node.clause?_group {op : Operator} {entries : List Node} (h : entries ≠ []) :
    (Node.group op entries).clause? =
      some ('(' :: joinClauses op (nodeClauses entries) ++ [')']) := by
  obtain ⟨n, more, rfl⟩ := List.exists_cons_of_ne_nil h
  rw [Node.clause?]

mutual

/-- The values bound in an entry, in order. -/
def Node.arguments : Node → List Value
  | .raw _ => []
  | .condition c => c.arguments
  | .group _ entries => nodeArguments entries

/-- The values bound in entries, in order. -/
def nodeArguments : List Node → List Value
  | [] => []
  | n :: more => n.arguments ++ nodeArguments more

end

theorem nodeArguments_eq_flatMap (entries : List Node) :
    nodeArguments entries = entries.flatMap Node.arguments := by
  induction entries with
  | nil => rfl
  | cons n more ih => simp [nodeArguments, ih]

namespace Filter

/-- The text of the WHERE clause. -/
def clause (f : Filter) : Text := joinClauses f.operator (nodeClauses f.entries)

/-- The values bound to the placeholders, in their order. -/
def arguments (f : Filter) : List Value := nodeArguments f.entries

end Filter

end Sieve
