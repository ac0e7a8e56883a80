/-
# What a command works with

Switches win over settings, and settings over the defaults.  The context holds what comes out,
and the ways in which every command reads a filter and shows a result.
-/
import Sieve.Command.Action
import Sieve.Command.Basic
import Sieve.Filter.Read

namespace Sieve

/-- What the tool finds around itself. -/
structure Surroundings where
  /-- The path of the settings file. -/
  path : Text
  /-- Whether nothing forbids colours. -/
  colours : Bool
  deriving DecidableEq, Repr

/-- What a command works with. -/
structure Context where
  path : Text
  json : Bool
  quiet : Bool
  colours : Bool
  options : ReadOptions
  strict : Bool
  pageSize : Nat
  deriving DecidableEq, Repr

namespace Context

/-- Switches over settings over defaults. -/
def new (around : Surroundings) (switches : Switches) (settings : Settings) : Context where
  path := around.path
  json := switches.json
  quiet := switches.quiet
  colours := !switches.noColor && settings.color.getD true && around.colours
  options := ⟨!switches.noNormalize && settings.normalize.getD true⟩
  strict := switches.strict || settings.strict.getD false
  pageSize := settings.size.getD Settings.defaultSize

/-- The filter that an expression stands for. A malformed one is a failure if the context is
strict, and otherwise the empty filter with a warning. -/
def readFilter (ctx : Context) (s : Text) : Action Filter :=
  match Filter.read ctx.options s with
  | .ok f => return f
  | .error e =>
    if ctx.strict then throw (.filter e)
    else do
      Action.note [.warning (e.message ++ "; using an empty filter".toList)]
      return .empty

/-- A result as JSON, or as text unless all but JSON is silenced. -/
def render (ctx : Context) (json : Json) (text : Text) : Text :=
  if ctx.json then json.pretty ++ ['\n'] else if ctx.quiet then [] else text

/-- Prints a result. -/
def present (ctx : Context) (json : Json) (text : Text) : Action Unit :=
  Action.print (ctx.render json text)

end Context

end Sieve
