/-
# The settings file

How settings stand in a TOML document, in three sections.  Unknown keys are ignored.  A section
may also be given as an array of its values in order, and a date in the place of a section is an
empty one, because a date counts as a table with a key of its own.

* `Settings.ofText?`: the settings that a file holds, with its version;
* `Settings.toText`: the file that holds the settings, and `Settings.encode`, which refuses what
  TOML has no room for.
-/
import Sieve.Settings.Basic
import Sieve.Toml.Document

namespace Sieve

namespace Settings

/-! ## 1. Reading -/

open Toml (Item Entries)

/-- A setting that may be missing; `none` if it has a value of the wrong type. -/
def optional {α : Type} (read : Item → Option α) (key : Text) (es : Entries) :
    Option (Option α) :=
  match es.get? key with
  | none => some none
  | some item => (read item).map some

/-- A truth value. -/
def bool? : Item → Option Bool
  | .bool b => some b
  | _ => none

/-- A number that is not negative. -/
def nat? : Item → Option Nat
  | .int n => if 0 ≤ n then some n.toNat else none
  | _ => none

/-- The entries of a section whose keys have the given order. None if what stands there can be
no section, or an array with too few items. -/
def sectionEntries? (keys : List Text) : Option Item → Option Entries
  | none => some []
  | some (.table _ es) => some es
  | some .date => some []
  | some (.array items) => if items.length < keys.length then none else some (keys.zip items)
  | some _ => none

/-- The version of a document; the first one if it does not say. -/
def version? (es : Entries) : Option Nat :=
  match es.get? "version".toList with
  | none => some 1
  | some item => (nat? item).filter (· < UInt32.size)

/-- The settings of a document, with its version. -/
def ofDocument? (es : Entries) : Option Settings := do
  let version ← version? es
  let filter ← sectionEntries? ["normalize".toList, "strict".toList] (es.get? "filter".toList)
  let page ← sectionEntries? ["size".toList] (es.get? "page".toList)
  let output ← sectionEntries? ["color".toList] (es.get? "output".toList)
  let normalize ← optional bool? "normalize".toList filter
  let strict ← optional bool? "strict".toList filter
  let size ← optional nat? "size".toList page
  let color ← optional bool? "color".toList output
  return ⟨version, normalize, strict, size, color⟩

/-- The settings that a file holds, with its version. -/
def ofText? (s : Text) : Option Settings := (Toml.read? s).bind ofDocument?

/-! ## 2. Writing -/

/-- The line of a setting, or nothing if it is unset. -/
def settingLine {α : Type} (key : Text) (write : α → Text) : Option α → List Text
  | none => []
  | some a => [key ++ " = ".toList ++ write a]

/-- A truth value as it is written. -/
def boolText (b : Bool) : Text := if b then "true".toList else "false".toList

/-- The lines of the file that holds the settings, all sections included. -/
def lines (s : Settings) : List Text :=
  settingLine "version".toList Text.decimal (some s.version) ++ [[], "[filter]".toList] ++
    settingLine "normalize".toList boolText s.normalize ++
    settingLine "strict".toList boolText s.strict ++ [[], "[page]".toList] ++
    settingLine "size".toList Text.decimal s.size ++ [[], "[output]".toList] ++
    settingLine "color".toList boolText s.color

/-- The file that holds the settings. -/
def toText (s : Settings) : Text := Text.unlines s.lines

/-- The same file, unless the size of a page is beyond the integers of TOML, which have 64 bits
with a sign. This is `to_string_pretty` of the library `toml`, with its refusal. -/
def encode (s : Settings) : Except SettingsError Text :=
  if Text.fitsInt64 (s.size.getD 0) then .ok s.toText else .error .sizeOutOfRange

/-- A line that is a comment. -/
def comment (s : Text) : Text := '#' :: ' ' :: s

/-- The lines of the file that a new user starts from: every setting stands in a comment. -/
def templateLines : List Text :=
  [comment "crq configuration".toList, [],
    comment "Config schema version (do not modify)".toList, "version = 1".toList, [],
    comment "Filter parsing".toList, "[filter]".toList,
    comment "normalize = true   # Accept keywords in any case (and, is not null, ...)".toList,
    comment "strict = false     # Fail on malformed filters instead of using an empty one".toList, [],
    comment "Pagination".toList, "[page]".toList,
    comment "size = 20          # Page size when --size is not given".toList, [],
    comment "Output preferences".toList, "[output]".toList,
    comment "color = true       # Enable colors (respects NO_COLOR env)".toList]

/-- The file that a new user starts from. -/
def template : Text := Text.unlines templateLines

end Settings

end Sieve
