/-
# The levels of the command line

The command line is read level by level: the tool itself, a command, and for `config` a command
of its own.  Each level knows switches, options with a value, places for arguments, and the
commands below it.
-/
import Sieve.Command.Basic

namespace Sieve

/-! ## 1. Parts of a level -/

/-- A switch: an argument without a value. -/
inductive Switch where
  | verbose | quiet | json | noColor | noNormalize | strict | force
  /-- Prints the usage and ends. -/
  | help
  /-- Prints the version and ends. -/
  | version
  deriving DecidableEq, Repr

/-- An option: an argument with a value. -/
inductive Opt where
  | filter | sort | offset | size
  deriving DecidableEq, Repr

/-- What an option takes as its value although a hyphen stands in front. -/
inductive Hyphens where
  | none
  | numbers
  | all
  deriving DecidableEq, Repr

/-- A place for an argument. -/
inductive Place where
  | filter | spec | shell | key | value
  deriving DecidableEq, Repr

/-- A level of the command line. -/
inductive Level where
  | root | parse | sql | tokens | sort | criteria | completions
  | config | configShow | configPath | configInit | configSet
  deriving DecidableEq, Repr

namespace Switch

/-- The long name. -/
def name : Switch → Text
  | verbose => "verbose".toList
  | quiet => "quiet".toList
  | json => "json".toList
  | noColor => "no-color".toList
  | noNormalize => "no-normalize".toList
  | strict => "strict".toList
  | force => "force".toList
  | help => "help".toList
  | version => "version".toList

/-- The letter, for those that have one. -/
def letter? : Switch → Option Char
  | verbose => some 'v'
  | quiet => some 'q'
  | help => some 'h'
  | version => some 'V'
  | _ => none

end Switch

namespace Opt

/-- The long name. -/
def name : Opt → Text
  | filter => "filter".toList
  | sort => "sort".toList
  | offset => "offset".toList
  | size => "size".toList

/-- The letter, for those that have one. -/
def letter? : Opt → Option Char
  | filter => some 'f'
  | sort => some 's'
  | offset | size => none

/-- What is taken as the value although a hyphen stands in front. -/
def hyphens : Opt → Hyphens
  | filter => .none
  | sort => .all
  | offset | size => .numbers

/-- Whether the text is a value for the option. -/
def admits : Opt → Text → Bool
  | filter, _ | sort, _ => true
  | offset, s | size, s => (Text.readInt64? s).isSome

end Opt

/-- The shell with this name. -/
def Shell.ofName? (s : Text) : Option Shell :=
  if s = "bash".toList then some .bash
  else if s = "zsh".toList then some .zsh
  else if s = "fish".toList then some .fish
  else if s = "powershell".toList then some .powershell
  else none

namespace Place

/-- Whether an argument with a hyphen in front may stand here. -/
def admitsHyphens : Place → Bool
  | spec => true
  | filter | shell | key | value => false

/-- Whether the text may stand here. -/
def admits : Place → Text → Bool
  | shell, s => (Shell.ofName? s).isSome
  | filter, _ | spec, _ | key, _ | value, _ => true

end Place

/-! ## 2. The levels -/

namespace Level

/-- The switches known at the level. Those of the tool are known everywhere. -/
def switches : Level → List Switch
  | configInit =>
    [.verbose, .quiet, .json, .noColor, .noNormalize, .strict, .help, .version, .force]
  | _ => [.verbose, .quiet, .json, .noColor, .noNormalize, .strict, .help, .version]

/-- The options known at the level. -/
def options : Level → List Opt
  | criteria => [.filter, .sort, .offset, .size]
  | _ => []

/-- The places for arguments, all of which have to be filled. -/
def places : Level → List Place
  | parse | sql | tokens => [.filter]
  | sort => [.spec]
  | completions => [.shell]
  | configSet => [.key, .value]
  | _ => []

/-- The commands below the level, with their names. -/
def commands : Level → List (Text × Level)
  | root =>
    [("parse".toList, parse), ("p".toList, parse), ("sql".toList, sql),
      ("tokens".toList, tokens), ("sort".toList, sort), ("criteria".toList, criteria),
      ("c".toList, criteria), ("config".toList, config), ("completions".toList, completions)]
  | config =>
    [("show".toList, configShow), ("path".toList, configPath), ("init".toList, configInit),
      ("set".toList, configSet)]
  | _ => []

/-- The name under which the level gives its version. -/
def title : Level → Text
  | root => "crq".toList
  | parse => "crq-parse".toList
  | sql => "crq-sql".toList
  | tokens => "crq-tokens".toList
  | sort => "crq-sort".toList
  | criteria => "crq-criteria".toList
  | completions => "crq-completions".toList
  | config => "crq-config".toList
  | configShow => "crq-config-show".toList
  | configPath => "crq-config-path".toList
  | configInit => "crq-config-init".toList
  | configSet => "crq-config-set".toList

/-- The switch with this long name. -/
def switch? (l : Level) (name : Text) : Option Switch := l.switches.find? fun x => x.name = name

/-- The option with this long name. -/
def option? (l : Level) (name : Text) : Option Opt := l.options.find? fun x => x.name = name

/-- The switch with this letter. -/
def switchLetter? (l : Level) (c : Char) : Option Switch :=
  l.switches.find? fun x => x.letter? = some c

/-- The option with this letter. -/
def optionLetter? (l : Level) (c : Char) : Option Opt :=
  l.options.find? fun x => x.letter? = some c

/-- Whether the letter names a switch or an option. -/
def knowsLetter (l : Level) (c : Char) : Bool :=
  (l.switchLetter? c).isSome || (l.optionLetter? c).isSome

end Level

end Sieve
