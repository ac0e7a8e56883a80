/-
# Reading documents

A document is read statement by statement: a header opens a table, a key sets a value in the
table that was opened last.  The whole document is refused if one statement is malformed or
defines what is defined already.

* `Toml.read?`: the entries of a document, as `from_str` of the library `toml` finds them.
-/
import Sieve.Toml.Value

namespace Sieve

namespace Toml

/-! ## 1. Statements -/

/-- One line of a document, or a few of them if a value runs over more than one. -/
inductive Statement where
  | blank
  | entry (path : List Text) (key : Text) (item : Item)
  | header (path : List Text) (key : Text)
  | arrayHeader (path : List Text) (key : Text)
  deriving Repr

/-- The statement at the front of a text, and the rest behind its line break. -/
def statement? (s : Text) : Option (Statement × Text) :=
  match skipGap s with
  | [] => some (.blank, [])
  | '[' :: '[' :: r =>
    match key? deepest r with
    | some (path, key, ']' :: ']' :: r) => (lineEnd? r).map fun r => (.arrayHeader path key, r)
    | _ => none
  | '[' :: r =>
    match key? deepest r with
    | some (path, key, ']' :: r) => (lineEnd? r).map fun r => (.header path key, r)
    | _ => none
  | '#' :: r => (lineEnd? ('#' :: r)).map fun r => (.blank, r)
  | s =>
    match lineBreak? s with
    | some r => some (.blank, r)
    | none =>
      match keyValue? (value? deepest) s with
      | some ((path, key, item), r) => (lineEnd? r).map fun r => (.entry path key item, r)
      | none => none

/-! ## 2. Documents -/

/-- What a document holds so far: its entries, and the path of the table opened last. -/
structure State where
  entries : Entries
  opened : List Text

/-- The document with one statement more. -/
def State.add? (st : State) : Statement → Option State
  | .blank => some st
  | .entry path key item =>
    (insertUnder? st.opened path key item st.entries).map fun es => { st with entries := es }
  | .header path key => (openTable? path key st.entries).map fun es => ⟨es, path ++ [key]⟩
  | .arrayHeader path key =>
    (openArrayTable? path key st.entries).map fun es => ⟨es, path ++ [key]⟩

/-- The entries of the rest of a document. Every statement takes at least one character, so
`fuel` need not exceed the length of the text. -/
def statements? (fuel : Nat) (st : State) (s : Text) : Option Entries :=
  match fuel, s with
  | _, [] => some st.entries
  | 0, _ => none
  | fuel + 1, s =>
    match statement? s with
    | none => none
    | some (found, rest) => (st.add? found).bind fun st => statements? fuel st rest

/-- The entries of a document. A byte order mark in front of it is skipped. -/
def read? (s : Text) : Option Entries :=
  let s := if s.head? = some '\uFEFF' then s.drop 1 else s
  statements? s.length ⟨[], []⟩ s

end Toml

end Sieve
