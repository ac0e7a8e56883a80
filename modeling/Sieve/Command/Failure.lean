/-
# Failures

The reasons for which a command fails, and how a failure is shown.

Two more kinds of failure have a name in the tool and none here, because no step raises them.  One
is that the output cannot be written, with the status 3: standard output is assumed to take all that
is printed.  The other is that a result cannot be turned into JSON, with the status 1: `Json.pretty`
gives a text for every value.
-/
import Sieve.Filter.Error
import Sieve.Json.Printer
import Sieve.Settings.Error

namespace Sieve

/-- The reasons for which a command fails. -/
inductive Failure where
  | filter (e : FilterError)
  | settings (e : SettingsError)
  deriving DecidableEq, Repr

namespace Failure

/-- What the user is told. -/
def message : Failure → Text
  | filter e => "filter error: ".toList ++ e.message
  | settings e => "configuration error: ".toList ++ e.message

/-- The name of the kind of failure, for programs. -/
def code : Failure → Text
  | filter _ => "FILTER_ERROR".toList
  | settings _ => "CONFIG_ERROR".toList

/-- The exit status. -/
def status : Failure → Nat
  | filter _ => 1
  | settings _ => 5

/-- A failure is never taken for a success. -/
theorem status_ne_zero (e : Failure) : e.status ≠ 0 := by
  cases e <;> simp [status]

/-- The failure as it is shown, as text or as JSON. -/
def report (json : Bool) (e : Failure) : Text :=
  if json then
    let body : Json :=
      .object [("code".toList, .string e.code), ("message".toList, .string e.message)]
    (Json.object [("error".toList, body)]).pretty ++ ['\n']
  else "Error: ".toList ++ e.message ++ ['\n']

end Failure

end Sieve
