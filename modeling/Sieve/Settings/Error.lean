/-
# What can go wrong with the settings

The causes for which settings cannot be read, changed or written, and what the user is told.
-/
import Sieve.Text.Basic

namespace Sieve

/-- The version of settings files that this library writes, and the latest it understands. -/
def Settings.currentVersion : Nat := 1

/-- The reasons for which a command about settings fails. -/
inductive SettingsError where
  /-- There is something at the path that cannot be read as text. -/
  | unreadable (reason : Text)
  /-- The file is no TOML, or a setting in it has a value of the wrong type. -/
  | malformed
  /-- The file was written for a later version. -/
  | newer (version : Nat)
  /-- There is a file where a new one should be written. -/
  | present (path : Text)
  /-- The directory of the file cannot be made. -/
  | noDirectory (reason : Text)
  /-- The file cannot be made. -/
  | noFile (reason : Text)
  /-- The changed settings cannot be put into the file. -/
  | notWritten (reason : Text)
  /-- The size of a page is beyond the integers of TOML. -/
  | sizeOutOfRange
  | unknownKey (key : Text)
  | notBoolean (value : Text)
  | notSize (value : Text)
  deriving DecidableEq, Repr

namespace SettingsError

/-- What the operating system says of a directory that should be a file. -/
def isDirectory : Text := "Is a directory (os error 21)".toList

/-- What the operating system says of a directory to be made where a file is. -/
def fileExists : Text := "File exists (os error 17)".toList

/-- What the operating system says of a path that leads through a file. -/
def notDirectory : Text := "Not a directory (os error 20)".toList

/-- What is said of a file that is no UTF-8. -/
def notText : Text := "stream did not contain valid UTF-8".toList

/-- What the user is told. For a malformed file the library `toml` says what it did not expect and
where; `not a settings file` stands in for that, and no result depends on it. -/
def message : SettingsError → Text
  | unreadable reason => "Failed to read config: ".toList ++ reason
  | malformed => "Failed to parse config: not a settings file".toList
  | newer version =>
    "Config version ".toList ++ Text.decimal version ++
      " is newer than supported version ".toList ++ Text.decimal Settings.currentVersion
  | present path =>
    "Config file already exists at ".toList ++ path ++ ". Use --force to overwrite.".toList
  | noDirectory reason => "Failed to create config directory: ".toList ++ reason
  | noFile reason => "Failed to create config file: ".toList ++ reason
  | notWritten reason => "Failed to write config: ".toList ++ reason
  | sizeOutOfRange => "Failed to serialize config: out-of-range value for u64 type".toList
  | unknownKey key =>
    "Unknown config key '".toList ++ key ++
      "'. Valid keys: filter.normalize, filter.strict, page.size, output.color".toList
  | notBoolean value =>
    "Invalid boolean value '".toList ++ value ++
      "'. Use true/false, yes/no, 1/0, or on/off".toList
  | notSize value =>
    "Invalid page.size value '".toList ++ value ++ "'. Use a positive integer".toList

end SettingsError

end Sieve
