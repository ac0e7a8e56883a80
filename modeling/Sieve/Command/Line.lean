/-
# Reading the command line

Arguments are read from left to right.  An argument that names a command goes on to its level;
`--` makes all that follows plain arguments; two hyphens start a long name, with a value behind
an equals sign or in the next argument; one hyphen starts letters, the last of which may take the
rest of the argument or the next one as its value.  At one level a switch or an option stands at
most once, and `--verbose` and `--quiet` exclude each other.

`--help` and `--version` end the reading where they stand, so that an error to the left of them
wins and one to the right does not count.

The order in which arguments are taken, what counts as a value and what is refused are those of the
parser that the library `clap`, version 4, derives from the declaration of the commands.  Nothing is
assumed of it: that a line is read with one more switch in front, say, is proved of the reader here.

* `Invocation.read`: the command and its switches, or why the reading ended.
-/
import Sieve.Command.Level

namespace Sieve

/-! ## 1. What was found at a level -/

/-- Why the reading ends without a command to run. -/
inductive Ending where
  /-- The command line is malformed. -/
  | usage
  | help
  /-- The version is asked for at this level. -/
  | version (level : Level)
  deriving DecidableEq, Repr

/-- What was found at one level: switches, options with their values, and plain arguments. -/
structure Found where
  level : Level
  switches : List Switch
  options : List (Opt × Text)
  arguments : List Text
  deriving DecidableEq, Repr

namespace Found

/-- Nothing yet. -/
def start (level : Level) : Found := ⟨level, [], [], []⟩

/-- The place that the next plain argument goes to. -/
def place? (f : Found) : Option Place := f.level.places[f.arguments.length]?

/-- Whether the next plain argument may start with a hyphen. -/
def admitsHyphens (f : Found) : Bool :=
  match f.place? with
  | some p => p.admitsHyphens
  | none => false

/-- With one plain argument more. -/
def addArgument (f : Found) (s : Text) : Except Ending Found :=
  match f.place? with
  | some p => if p.admits s then .ok { f with arguments := f.arguments ++ [s] } else .error .usage
  | none => .error .usage

/-- With one switch more. -/
def addSwitch (f : Found) (x : Switch) : Except Ending Found :=
  match x with
  | .help => .error .help
  | .version => .error (.version f.level)
  | x =>
    if f.switches.contains x then .error .usage
    else .ok { f with switches := f.switches ++ [x] }

/-- With one option more. -/
def addOption (f : Found) (o : Opt) (s : Text) : Except Ending Found :=
  if (f.options.lookup o).isSome || !o.admits s then .error .usage
  else .ok { f with options := f.options ++ [(o, s)] }

/-- Accepts the level if all its places are filled and its switches go together. -/
def close (f : Found) : Except Ending Found :=
  if f.arguments.length < f.level.places.length then .error .usage
  else if f.switches.contains .verbose && f.switches.contains .quiet then .error .usage
  else .ok f

end Found

/-! ## 2. Arguments with hyphens -/

/-- Whether the next argument is taken as the value of an option. -/
def Opt.takes (o : Opt) (s : Text) : Bool :=
  match s with
  | '-' :: c :: r =>
    match o.hyphens with
    | .all => true
    | .numbers => (c :: r).all Char.isDigit
    | .none => false
  | _ => true

/-- What an argument with hyphens turns out to be. -/
inductive Reading where
  /-- Switches and complete options, all taken in. -/
  | done (f : Found)
  /-- The same, and an option whose value is the next argument. -/
  | wants (f : Found) (o : Opt)
  /-- A plain argument after all. -/
  | plain

/-- Reads a long name, with its value if one is attached. -/
def readLong (f : Found) (s : Text) : Except Ending Reading :=
  let (name, attached) := match Text.cut? '=' s with
    | some (name, value) => (name, some value)
    | none => (s, none)
  match f.level.switch? name, f.level.option? name, attached with
  | some x, _, none => (f.addSwitch x).map .done
  | some _, _, some _ => .error .usage
  | none, some o, some value => (f.addOption o value).map .done
  | none, some o, none => .ok (.wants f o)
  | none, none, _ => if f.admitsHyphens then .ok .plain else .error .usage

/-- Reads letters behind one hyphen. -/
def readLetters (f : Found) : Text → Except Ending Reading
  | [] => .ok (.done f)
  | c :: r =>
    match f.level.switchLetter? c, f.level.optionLetter? c with
    | some x, _ =>
      match f.addSwitch x with
      | .ok f => readLetters f r
      | .error e => .error e
    | none, some o =>
      match r with
      | [] => .ok (.wants f o)
      | '=' :: value => (f.addOption o value).map .done
      | value => (f.addOption o value).map .done
    | none, none => .error .usage

/-- Reads an argument that is neither a command nor `--`. -/
def readArgument (f : Found) (s : Text) : Except Ending Reading :=
  match s with
  | '-' :: '-' :: r => readLong f r
  | '-' :: c :: r =>
    if f.admitsHyphens && (c :: r).any fun c => !f.level.knowsLetter c then .ok .plain
    else readLetters f (c :: r)
  | _ => .ok .plain

/-! ## 3. The line -/

/-- Whether every word names a command below the one before it. The word `help` may come last
wherever there are commands. -/
def namesCommands (l : Level) : List Text → Bool
  | [] => true
  | s :: more =>
    match l.commands.lookup s with
    | some below => namesCommands below more
    | none => s == "help".toList && !l.commands.isEmpty && more.isEmpty

/-- Reads all that follows `--` as plain arguments. -/
def readPlain (f : Found) (args : List Text) : Except Ending Found := args.foldlM Found.addArgument f

/-- Reads the rest of a line, of which `f` was found at the current level. The result has one
entry for every level, the outermost first. -/
def readLine (f : Found) : List Text → Except Ending (List Found)
  | [] => do return [← f.close]
  | s :: rest =>
    match f.level.commands.lookup s with
    | some below => do
      let inner ← readLine (.start below) rest
      let outer ← f.close
      return outer :: inner
    | none =>
      if s = "help".toList ∧ !f.level.commands.isEmpty then
        .error (if namesCommands f.level rest then .help else .usage)
      else if s = "--".toList then do
        let f ← readPlain f rest
        return [← f.close]
      else
        match readArgument f s with
        | .error e => .error e
        | .ok (.done f) => readLine f rest
        | .ok .plain =>
          match f.addArgument s with
          | .ok f => readLine f rest
          | .error e => .error e
        | .ok (.wants f o) =>
          match rest with
          | [] => .error .usage
          | value :: rest =>
            if o.takes value then
              match f.addOption o value with
              | .ok f => readLine f rest
              | .error e => .error e
            else .error .usage

/-! ## 4. The command -/

/-- The value given for an option. -/
def Found.option? (f : Found) (o : Opt) : Option Text := f.options.lookup o

/-- The plain argument with this number. -/
def Found.argument (f : Found) (i : Nat) : Text := f.arguments.getD i []

/-- The command that the innermost level stands for. -/
def Found.command (f : Found) : Command :=
  match f.level with
  | .root => .notice
  | .parse => .parse (f.argument 0)
  | .sql => .sql (f.argument 0)
  | .tokens => .tokens (f.argument 0)
  | .sort => .sort (f.argument 0)
  | .criteria =>
    .criteria ((f.option? .filter).getD []) ((f.option? .sort).getD [])
      ((f.option? .offset).bind Text.readInt64?) ((f.option? .size).bind Text.readInt64?)
  | .completions => .completions ((Shell.ofName? (f.argument 0)).getD .bash)
  | .config | .configShow => .showSettings
  | .configPath => .showPath
  | .configInit => .createSettings (f.switches.contains .force)
  | .configSet => .assignSetting (f.argument 0) (f.argument 1)

/-- The switches found at any level. -/
def switchesOf (found : List Found) : Switches :=
  let has (x : Switch) : Bool := found.any fun f => f.switches.contains x
  { verbose := has .verbose, quiet := has .quiet, json := has .json, noColor := has .noColor,
    noNormalize := has .noNormalize, strict := has .strict }

/-- The command and the switches that a command line stands for, as the derived parser finds them. -/
def Invocation.read (args : List Text) : Except Ending Invocation := do
  let found ← readLine (.start .root) args
  return ⟨switchesOf found, (found.getLast?.map Found.command).getD .notice⟩

end Sieve
