/-
# From a command line to an outcome

A command line either ends in its reading, with a usage text and nothing done, or names an
invocation to run.

* `respond`: the outcome of a command line.
-/
import Sieve.Command.Run
import Sieve.Command.Usage

namespace Sieve

/-- The outcome of a command line at the site of the settings file. -/
def respond (around : Surroundings) (line : List Text) (site : Site) : Outcome :=
  match Invocation.read line with
  | .ok i => run around i site
  | .error ending =>
    let (status, output, diagnostics) := ending.answer
    ⟨status, output, diagnostics, site⟩

end Sieve
