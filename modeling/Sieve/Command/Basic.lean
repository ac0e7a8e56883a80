/-
# Commands

What the tool can be told to do, and the switches that go with it.  The switches apply to every
command, wherever they stand on the line.
-/
import Sieve.Text.Basic

namespace Sieve

/-- The shells that completions can be made for. -/
inductive Shell where
  | bash
  | zsh
  | fish
  | powershell
  deriving DecidableEq, Repr

/-- What the tool is told to do. -/
inductive Command where
  /-- No command: a short notice. -/
  | notice
  | parse (filter : Text)
  | sql (filter : Text)
  | tokens (filter : Text)
  | sort (spec : Text)
  | criteria (filter sort : Text) (offset size : Option Int)
  | showSettings
  | showPath
  | createSettings (force : Bool)
  | assignSetting (key value : Text)
  | completions (shell : Shell)
  deriving DecidableEq, Repr

namespace Command

/-- Whether the command is about the settings themselves. -/
def isAboutSettings : Command → Bool
  | showSettings | showPath | createSettings _ | assignSetting _ _ => true
  | _ => false

end Command

/-- The switches of a command line. -/
structure Switches where
  verbose : Bool := false
  quiet : Bool := false
  json : Bool := false
  noColor : Bool := false
  noNormalize : Bool := false
  strict : Bool := false
  deriving DecidableEq, Repr

/-- A command with its switches. -/
structure Invocation where
  switches : Switches
  command : Command
  deriving DecidableEq, Repr

end Sieve
