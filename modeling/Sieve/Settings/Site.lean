/-
# Where the settings are kept

The state of the path at which the settings file belongs, and what can be done there: looking
whether anything is at it, reading the file, making its directory, and writing the file.  A
single write either puts the whole content there or fails and changes nothing.

* `Site.load`: what reading the file gives;
* `Site.settings`: the settings in force at the site;
* `Site.write`: the site after its file is written.
-/
import Sieve.Settings.File

namespace Sieve

/-- What is at the path of the settings file. -/
inductive Site where
  /-- Nothing, and a file can be made there. -/
  | missing
  /-- A file that is text. -/
  | text (content : Text)
  /-- A file that is no text. -/
  | binary (bytes : List UInt8)
  /-- A directory. -/
  | directory
  /-- Nothing, and the parent is a file. -/
  | blocked
  deriving DecidableEq, Repr

namespace Site

/-- Whether there is anything at the path. -/
def exists? : Site → Bool
  | missing | blocked => false
  | text _ | binary _ | directory => true

/-- What reading the file gives: nothing if there is none, or its settings, with the version it
was written for. -/
def load : Site → Except SettingsError (Option Settings)
  | missing | blocked => .ok none
  | directory => .error (.unreadable SettingsError.isDirectory)
  | binary _ => .error (.unreadable SettingsError.notText)
  | text content =>
    match Settings.ofText? content with
    | some found => .ok (some found)
    | none => .error .malformed

/-- The settings in force at the site. Without a file nothing is set. -/
def settings (site : Site) : Except SettingsError Settings :=
  match site.load with
  | .ok none => .ok .unset
  | .ok (some found) => found.migrate
  | .error e => .error e

/-- Whether a new file may take the place of what is at the path. An existing file is only
replaced if that is asked for. -/
def allowNew (path : Text) (force : Bool) (site : Site) : Except SettingsError Unit :=
  if site.exists? && !force then .error (.present path) else .ok ()

/-- Makes the directory that the file lies in, unless it is there. -/
def makeDirectory : Site → Except SettingsError Unit
  | blocked => .error (.noDirectory SettingsError.fileExists)
  | missing | text _ | binary _ | directory => .ok ()

/-- The site after its file is written, or the error that `refusal` makes of the reason why it
cannot be. -/
def write (refusal : Text → SettingsError) (content : Text) : Site → Except SettingsError Site
  | missing | text _ | binary _ => .ok (text content)
  | directory => .error (refusal SettingsError.isDirectory)
  | blocked => .error (refusal SettingsError.notDirectory)

end Site

end Sieve
