/-
# TOML values

A value is read at the front of a text.  Arrays may run over several lines and may end in a
comma; tables between braces stay on one line and may not.  Values are nested at most
seventy-nine deep, which is also what makes the reader end.
-/
import Sieve.Toml.Basic
import Sieve.Toml.Lexical

namespace Sieve

namespace Toml

/-! ## 1. Sequences -/

/-- The items of an array, behind its opening bracket, read with the given reader of values.
`fuel` bounds the number of items. -/
def items? (value? : Text → Option (Item × Text)) (fuel : Nat) (s : Text) :
    Option (List Item × Text) :=
  match fuel with
  | 0 => none
  | fuel + 1 =>
    match skipLines s with
    | ']' :: r => some ([], r)
    | s =>
      match value? s with
      | none => none
      | some (item, r) =>
        match skipLines r with
        | ',' :: r => (items? value? fuel r).map fun (items, rest) => (item :: items, rest)
        | ']' :: r => some ([item], r)
        | _ => none

/-- A key, an equals sign and a value, with the spaces and tabs around them. -/
def keyValue? (value? : Text → Option (Item × Text)) (s : Text) :
    Option ((List Text × Text × Item) × Text) :=
  match key? deepest s with
  | some (path, key, '=' :: r) =>
    (value? (skipGap r)).map fun (item, rest) => ((path, key, item), skipGap rest)
  | _ => none

/-- The entries of a table between braces, behind a first entry or the opening brace. -/
def braced? (value? : Text → Option (Item × Text)) (fuel : Nat) (es : Entries) (s : Text) :
    Option (Entries × Text) :=
  match fuel with
  | 0 => none
  | fuel + 1 =>
    match keyValue? value? s with
    | none => none
    | some ((path, key, item), r) =>
      match insert? path key item es with
      | none => none
      | some es =>
        match r with
        | ',' :: r => braced? value? fuel es r
        | '}' :: r => some (es, r)
        | _ => none

/-! ## 2. Values -/

/-- A value that is not made of others. -/
def plainValue? (s : Text) : Option (Item × Text) :=
  match s with
  | [] => none
  | c :: _ =>
    if c = '"' ∨ c = '\'' then (skipString? s).map fun r => (.other, r)
    else if "true".toList.isPrefixOf s then some (.bool true, s.drop 4)
    else if "false".toList.isPrefixOf s then some (.bool false, s.drop 5)
    else
      match skipMoment? s with
      | some r => some (.date, r)
      | none =>
        match skipFloat? s with
        | some r => some (.other, r)
        | none => (integer? s).map fun (n, r) => (.int n, r)

/-- A value with at most `depth` levels of arrays and tables in it. -/
def value? (depth : Nat) (s : Text) : Option (Item × Text) :=
  match depth with
  | 0 => plainValue? s
  | depth + 1 =>
    match s with
    | '[' :: r => (items? (value? depth) (r.length + 1) r).map fun (items, rest) =>
      (.array items, rest)
    | '{' :: r =>
      match skipGap r with
      | '}' :: r => some (.table .braces [], r)
      | _ => (braced? (value? depth) (r.length + 1) [] r).map fun (es, rest) =>
        (.table .braces es, rest)
    | _ => plainValue? s

end Toml

end Sieve
