/-
# TOML documents

The settings file is a TOML document.  Its values are read in full, so that a malformed file is
noticed, but only what a setting can hold is kept: booleans, integers, arrays and tables.  All
other values are checked and forgotten, dates being told apart from the rest.

A table remembers how it came to be, because that decides what may still be added to it:

* one opened by its own `[header]` is complete when the next header starts;
* one that only stands in the path of a longer header may still get a header of its own;
* one made by dotted keys may only be extended by more dotted keys;
* one written between braces is closed.

`insert?` and `openTable?` are the two ways in which a document grows.

What is accepted follows `from_str` of the library `toml`, version 0.8.  That settings which were
written are read back is not assumed of the library: it is proved of the reader here, as
`Settings.ofText?_toText`.
-/
import Sieve.Text.Basic

namespace Sieve

namespace Toml

/-! ## 1. Items -/

/-- How a table came to be. -/
inductive Origin where
  | header
  | path
  | dotted
  | braces
  deriving DecidableEq, Repr

/-- What a key of a document stands for. -/
inductive Item where
  | bool (b : Bool)
  | int (n : Int)
  | date
  /-- A string or a floating-point number. -/
  | other
  | array (items : List Item)
  | table (origin : Origin) (entries : List (Text × Item))
  /-- Tables opened by `[[header]]`; only the latest can still grow. -/
  | tables (latest : List (Text × Item))
  deriving Repr

/-- The keys of a table and what they stand for. -/
abbrev Entries := List (Text × Item)

namespace Entries

/-- What the key stands for. -/
def get? (key : Text) (es : Entries) : Option Item := es.lookup key

/-- The entries with the key set: in place if it is there, at the end if not. -/
def set (key : Text) (item : Item) : Entries → Entries
  | [] => [(key, item)]
  | (k, i) :: more => if k = key then (key, item) :: more else (k, i) :: set key item more

end Entries

/-! ## 2. Growing -/

/-- Changes the table at the end of a path, with its origin; tables missing on the way are made
with the origin `made`. Dotted keys may not pass through tables that are complete. -/
def within? (made : Origin) (change : Origin → Entries → Option Entries) :
    List Text → Origin → Entries → Option Entries
  | [], origin, es => change origin es
  | key :: path, _, es =>
    match es.get? key with
    | none => (within? made change path made []).map fun t => es.set key (.table made t)
    | some (.table .braces _) => none
    | some (.table .header t) =>
      if made = .dotted then none
      else (within? made change path .header t).map fun t => es.set key (.table .header t)
    | some (.table origin t) =>
      (within? made change path origin t).map fun t => es.set key (.table origin t)
    | some (.tables t) =>
      (within? made change path .header t).map fun t => es.set key (.tables t)
    | some _ => none

/-- Adds a key with its value under a dotted path. The key must be new, and the table at the
end of a path must be one that dotted keys have made. -/
def insert? (path : List Text) (key : Text) (item : Item) (es : Entries) : Option Entries :=
  within? .dotted
    (fun origin es =>
      if (!path.isEmpty && origin != .dotted) || (es.get? key).isSome then none
      else some (es.set key item))
    path .header es

/-- Opens the table at a path of headers: a new one, or one that is so far only part of longer
paths. -/
def openTable? (path : List Text) (key : Text) (es : Entries) : Option Entries :=
  within? .path
    (fun _ es =>
      match es.get? key with
      | none => some (es.set key (.table .header []))
      | some (.table .path t) => some (es.set key (.table .header t))
      | some _ => none)
    path .header es

/-- Opens one more table of an array of tables. -/
def openArrayTable? (path : List Text) (key : Text) (es : Entries) : Option Entries :=
  within? .path
    (fun _ es =>
      match es.get? key with
      | none | some (.tables _) => some (es.set key (.tables []))
      | some _ => none)
    path .header es

/-- Adds a key with its value to the table that the latest header has opened. -/
def insertUnder? (header path : List Text) (key : Text) (item : Item) (es : Entries) :
    Option Entries :=
  within? .path (fun _ es => insert? path key item es) header .header es

end Toml

end Sieve
