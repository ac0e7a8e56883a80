/-
# Running a command

A run takes an invocation and the site of the settings file, and gives the exit status, the
output, what goes beside it, and the site afterwards.  Nothing else of the world is touched.

The settings are loaded first.  A broken file stops every command but those about the settings,
which are there to repair it: they go on with nothing set, and say so.

* `Invocation.action`: the steps of an invocation;
* `run`: what they come to.
-/
import Sieve.Command.Context
import Sieve.Report.Clause
import Sieve.Report.Tokens

namespace Sieve

open Sieve.Action (site note print ofSettings)

/-! ## 1. Loading and saving settings -/

/-- What loading says in the log. -/
def loadLog (path : Text) (site : Site) : List LogEntry :=
  match site.load with
  | .ok none => [.debug "no config file, using defaults".toList ("path=".toList ++ path)]
  | .ok (some s) =>
    [.debug "loaded config".toList
      ("path=".toList ++ path ++ " version=".toList ++ Text.decimal s.version)]
  | .error _ => []

/-- Loads the settings in force. -/
def loadSettings (path : Text) : Action Settings := do
  let here ← site
  note (loadLog path here)
  ofSettings here.settings

/-- Writes settings to their file, after making its directory. -/
def saveSettings (s : Settings) : Action Unit := do
  ofSettings (← site).makeDirectory
  let content ← ofSettings s.encode
  Action.write .notWritten content

/-! ## 2. Commands about settings -/

/-- A switch as it is shown. -/
def showBool (b : Bool) : Text := if b then "true".toList else "false".toList

/-- A setting, or the value in effect marked as a default. -/
def showSetting {α : Type} (write : α → Text) (value : Option α) (effective : α) : Text :=
  match value with
  | some a => write a
  | none => write effective ++ " (default)".toList

/-- Settings as JSON. Those that are unset are left out. -/
def Settings.json (s : Settings) : Json :=
  .object
    [("filter".toList,
        .object (Json.field? "normalize".toList .bool s.normalize ++
          Json.field? "strict".toList .bool s.strict)),
      ("output".toList, .object (Json.field? "color".toList .bool s.color)),
      ("page".toList, .object (Json.field? "size".toList (fun (n : Nat) => .int n) s.size)),
      ("version".toList, .int s.version)]

/-- The settings in effect, section by section. -/
def settingsText (ctx : Context) (site : Site) (s : Settings) : Text :=
  Style.bold.paint ctx.colours (Style.green.paint ctx.colours "Configuration".toList) ++
    "\n\nFile: ".toList ++ ctx.path ++ "\nExists: ".toList ++ showBool site.exists? ++
    "\n\n[filter]\n  normalize: ".toList ++
      showSetting showBool s.normalize ctx.options.normalize ++
    "\n  strict: ".toList ++ showSetting showBool s.strict ctx.strict ++
    "\n\n[page]\n  size: ".toList ++ showSetting Text.decimal s.size Settings.defaultSize ++
    "\n\n[output]\n  color: ".toList ++ showSetting showBool s.color ctx.colours ++ ['\n'] ++
    if site.exists? then []
    else "\n(No config file exists. Run 'crq config init' to create one.)\n".toList

/-- Shows the settings. -/
def showSettings (ctx : Context) : Action Unit := do
  let s ← loadSettings ctx.path
  let here ← site
  let json : Json := .object
    [("config".toList, s.json), ("exists".toList, .bool here.exists?),
      ("path".toList, .string ctx.path)]
  ctx.present json (settingsText ctx here s)

/-- Shows the path of the settings file, even if all but JSON is silenced. -/
def showPath (ctx : Context) : Action Unit := do
  let here ← site
  let json : Json :=
    .object [("exists".toList, .bool here.exists?), ("path".toList, .string ctx.path)]
  print (if ctx.json then json.pretty ++ ['\n'] else ctx.path ++ ['\n'])

/-- Creates the settings file from the template. -/
def createSettings (ctx : Context) (force : Bool) : Action Unit := do
  let here ← site
  ofSettings (here.allowNew ctx.path force)
  ofSettings here.makeDirectory
  Action.write .noFile Settings.template
  let json : Json :=
    .object [("path".toList, .string ctx.path), ("status".toList, .string "success".toList)]
  ctx.present json ("Created default config at: ".toList ++ ctx.path ++ ['\n'])

/-- Changes one setting. -/
def assignSetting (ctx : Context) (key value : Text) : Action Unit := do
  let s ← loadSettings ctx.path
  let changed ← ofSettings (s.assign key value)
  saveSettings changed
  let json : Json := .object
    [("key".toList, .string key), ("path".toList, .string ctx.path),
      ("status".toList, .string "success".toList), ("value".toList, .string value)]
  ctx.present json ("Set ".toList ++ key ++ " = ".toList ++ value ++ ['\n'])

/-! ## 3. Commands about filters -/

/-- Shows the tree of a filter. -/
def showTree (ctx : Context) (f : Filter) : Action Unit :=
  ctx.present f.json (Report.filterTree ctx.colours f)

/-- Shows the clause of a filter. -/
def showClause (ctx : Context) (f : Filter) : Action Unit := do
  note
    [.debug "compiled filter".toList
      ("placeholders=".toList ++ Text.decimal f.arguments.length)]
  ctx.present (Report.clauseJson f.clause f.arguments)
    (Report.clauseText ctx.colours f.clause f.arguments)

/-- Shows the stages of an expression. -/
def showTokens (ctx : Context) (s : Text) : Action Unit :=
  let prepared := Filter.prepare ctx.options s
  let tokens := tokenize prepared
  ctx.present (Report.tokenJson prepared tokens (reorder tokens))
    (Report.tokenTable ctx.colours prepared tokens (reorder tokens))

/-- Shows sort keys. -/
def showSort (ctx : Context) (s : Text) : Action Unit :=
  let keys := SortBy.read s
  ctx.present (Report.sortJson keys) (Report.sortTable ctx.colours keys)

/-- Sets a bound if there is one. -/
def setBound (set : Int → Criteria → Criteria) (n : Option Int) (c : Criteria) : Criteria :=
  match n with
  | some n => set n c
  | none => c

/-- A filter with an order and bounds. -/
def criteriaOf (sort : Text) (offset size : Option Int) (f : Filter) : Criteria :=
  setBound .setSize size (setBound .setOffset offset (.new f (.read sort)))

/-- Shows criteria. -/
def showCriteria (ctx : Context) (c : Criteria) : Action Unit :=
  ctx.present (Report.criteriaJson c ctx.pageSize) (Report.criteriaText ctx.colours c ctx.pageSize)

/-! ## 4. All commands -/

/-- What is said when no command is given. -/
def notice : Text :=
  ("crq - filter expression and query criteria inspector\n" ++
    "Use --help for usage information\n").toList

/-- A script that completes the names of the commands. The scripts of the tool are generated by the
library `clap_complete`; these stand in for them, and no result depends on their wording. -/
def completionScript : Shell → Text
  | .bash => "complete -W 'parse sql tokens sort criteria config completions' crq\n".toList
  | .zsh => "compctl -k '(parse sql tokens sort criteria config completions)' crq\n".toList
  | .fish => "complete -c crq -a 'parse sql tokens sort criteria config completions'\n".toList
  | .powershell =>
    ("Register-ArgumentCompleter -Native -CommandName crq -ScriptBlock \x7b " ++
      "'parse','sql','tokens','sort','criteria','config','completions' \x7d\n").toList

/-- The steps of a command in its context. -/
def Command.action (ctx : Context) : Command → Action Unit
  | .notice => print (if ctx.quiet then [] else Sieve.notice)
  | .parse filter => do showTree ctx (← ctx.readFilter filter)
  | .sql filter => do showClause ctx (← ctx.readFilter filter)
  | .tokens filter => showTokens ctx filter
  | .sort spec => showSort ctx spec
  | .criteria filter order offset size => do
    showCriteria ctx (criteriaOf order offset size (← ctx.readFilter filter))
  | .showSettings => Sieve.showSettings ctx
  | .showPath => Sieve.showPath ctx
  | .createSettings force => Sieve.createSettings ctx force
  | .assignSetting key value => Sieve.assignSetting ctx key value
  | .completions shell => print (completionScript shell)

/-- Loads the settings for an invocation. -/
def Invocation.loadSettings (around : Surroundings) (i : Invocation) : Action Settings :=
  if i.command.isAboutSettings then
    tryCatch (Sieve.loadSettings around.path) fun e => do
      note [.warning (e.message ++ "; using default configuration".toList)]
      return .unset
  else Sieve.loadSettings around.path

/-- The steps of an invocation: the settings are loaded, and then the command runs. -/
def Invocation.action (around : Surroundings) (i : Invocation) : Action Unit := do
  let s ← i.loadSettings around
  i.command.action (.new around i.switches s)

/-! ## 5. The run -/

/-- What a run leaves behind. -/
structure Outcome where
  status : Nat
  output : Text
  diagnostics : Text
  site : Site
  deriving DecidableEq, Repr

/-- The outcome of a run, given its result and the world that it leaves behind. -/
def Outcome.ofResult (switches : Switches) (r : Except Failure Unit × World) : Outcome :=
  let log := LogEntry.shown switches.verbose switches.quiet r.2.log
  match r.1 with
  | .ok () => ⟨0, r.2.output, log, r.2.site⟩
  | .error e => ⟨e.status, r.2.output, log ++ e.report switches.json, r.2.site⟩

/-- Runs an invocation. -/
def run (around : Surroundings) (i : Invocation) (site : Site) : Outcome :=
  .ofResult i.switches ((i.action around).perform (.start site))

end Sieve
