/-
# Settings

Four settings may be kept in a file: whether keywords count in any case, whether a malformed
filter is an error, the size of a page, and whether output is coloured.  Each may be unset.  A
setting is named by its section and its key, and its value is given as text.  Beside them stands
the version that the file was written for.

* `Settings.migrate`: the settings of a file as the current version has them;
* `Settings.assign`: the settings with one of them set from text.
-/
import Sieve.Settings.Error

namespace Sieve

/-- The settings, each of which may be unset, and the version of their file. -/
structure Settings where
  version : Nat
  normalize : Option Bool
  strict : Option Bool
  size : Option Nat
  color : Option Bool
  deriving DecidableEq, Repr

namespace Settings

/-- Nothing set. -/
def unset : Settings := ⟨currentVersion, none, none, none, none⟩

/-- The settings of a file as the current version has them. A file of an earlier version counts
as one of the current version; one of a later version is refused. -/
def migrate (s : Settings) : Except SettingsError Settings :=
  if currentVersion < s.version then .error (.newer s.version)
  else .ok { s with version := currentVersion }

/-- The size of a page if nothing sets one. -/
def defaultSize : Nat := 20

/-! ## 1. Values -/

/-- The usual spellings of a truth value, in any case. No other character has one of these
letters as its small form, so ASCII letters are all that count. -/
def readBool (s : Text) : Except SettingsError Bool :=
  let name := Text.asciiLower s
  if ["true".toList, "yes".toList, "1".toList, "on".toList].contains name then .ok true
  else if ["false".toList, "no".toList, "0".toList, "off".toList].contains name then .ok false
  else .error (.notBoolean s)

/-- The digits of an unsigned number, behind an optional plus. -/
def unsignedDigits : Text → Text
  | '+' :: r => r
  | s => s

/-- A positive integer of 64 bits. -/
def readSize (s : Text) : Except SettingsError Nat :=
  match Text.readNat? (unsignedDigits s) with
  | some n => if 0 < n ∧ n < UInt64.size then .ok n else .error (.notSize s)
  | none => .error (.notSize s)

/-! ## 2. Keys -/

/-- The names of the settings. -/
inductive Key where
  | normalize
  | strict
  | size
  | color
  deriving DecidableEq, Repr

/-- The name of a setting: its section, a point, and its key. -/
def Key.name : Key → Text
  | normalize => "filter.normalize".toList
  | strict => "filter.strict".toList
  | size => "page.size".toList
  | color => "output.color".toList

/-- The setting with this name. -/
def Key.ofName? (s : Text) : Option Key :=
  [Key.normalize, .strict, .size, .color].find? fun k => k.name = s

theorem Key.ofName?_name (k : Key) : Key.ofName? k.name = some k := by
  cases k <;> rfl

/-- What a setting is set to. -/
abbrev Key.Value : Key → Type
  | .size => Nat
  | .normalize | .strict | .color => Bool

/-- The value that a text stands for. -/
def Key.read : (k : Key) → Text → Except SettingsError k.Value
  | .size, s => readSize s
  | .normalize, s | .strict, s | .color, s => readBool s

/-! ## 3. Setting one of them -/

/-- The settings with one of them set. -/
def set (s : Settings) : (k : Key) → k.Value → Settings
  | .normalize, b => { s with normalize := some b }
  | .strict, b => { s with strict := some b }
  | .size, n => { s with size := some n }
  | .color, b => { s with color := some b }

/-- The settings with one of them set from text. -/
def assign (key value : Text) (s : Settings) : Except SettingsError Settings :=
  match Key.ofName? key with
  | some k => (k.read value).map (s.set k)
  | none => .error (.unknownKey key)

/-- A setting is changed exactly if its name is known and its text has a value. -/
theorem assign_eq_ok_iff {s t : Settings} {key value : Text} :
    s.assign key value = .ok t ↔
      ∃ k v, Key.ofName? key = some k ∧ k.read value = .ok v ∧ s.set k v = t := by
  unfold assign
  cases Key.ofName? key with
  | none => simp
  | some k => cases hv : k.read value <;> simp [hv, Except.map]

end Settings

end Sieve
