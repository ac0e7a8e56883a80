/-
# The command line tool

The outer layer: it looks at the environment and at the path of the settings file, calls
`respond`, and carries out what comes back.
-/
import Sieve.Command.Respond
import Sieve.Settings.Path

namespace Sieve

namespace Tool

/-- A variable of the environment. -/
def lookUp? (name : String) : IO (Option Text) := do
  return (← IO.getEnv name).map String.toList

/-- What is at the path of the settings file. -/
def lookAt (path : Text) : IO Site := do
  try
    let bytes ← IO.FS.readBinFile (String.ofList path)
    match String.fromUTF8? bytes with
    | some s => return .text s.toList
    | none => return .binary bytes.toList
  catch
    | .noFileOrDirectory .. => return .missing
    | .inappropriateType _ code _ => return if code == 20 then .blocked else .directory
    | e => throw e

/-- Carries out the change of the settings file, if there is one. -/
def carryOut (path : Text) (before after : Site) : IO Unit := do
  if before = after then return
  if let .text content := after then
    if let some directory := Settings.parent? path then
      IO.FS.createDirAll (String.ofList directory)
    IO.FS.writeFile (String.ofList path) (String.ofList content)

/-- The path of the settings file, if the environment decides one. -/
def findPath : IO (Option Text) :=
  return Settings.path? (← lookUp? "CRQ_CONFIG") (← lookUp? "XDG_CONFIG_HOME") (← lookUp? "HOME")

/-- Answers a command line, with what is at the path of the settings file. -/
def execute (path : Text) (line : List Text) (site : Site) : IO UInt32 := do
  let around : Surroundings := ⟨path, (← IO.getEnv "NO_COLOR").isNone⟩
  let outcome := respond around line site
  carryOut path site outcome.site
  IO.eprint (String.ofList outcome.diagnostics)
  IO.print (String.ofList outcome.output)
  return outcome.status.toUInt32

end Tool

end Sieve

open Sieve in
def main (args : List String) : IO UInt32 := do
  let line := args.map String.toList
  match Invocation.read line, ← Tool.findPath with
  -- A line that names no command is answered without a look at the file.
  | .error _, path => Tool.execute (path.getD []) line .missing
  | .ok _, some path => Tool.execute path line (← Tool.lookAt path)
  | .ok _, none =>
    IO.eprintln "Error: configuration error: Could not determine config directory"
    return 5
