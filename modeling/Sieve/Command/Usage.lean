/-
# Usage

What the tool says of itself: its version, its usage, and that it could not make sense of a
command line.  The usage and the error are worded by the library `clap`.  The two texts here stand
in for its wording, and no result depends on them: what counts is the status, and whether a text is
output or goes beside it.
-/
import Sieve.Command.Line

namespace Sieve

/-- The version of the tool at a level. -/
def versionText (l : Level) : Text := l.title ++ " 0.1.0\n".toList

/-- How the tool is used, in words that stand in for those of the library. -/
def usageText : Text :=
  ("Usage: crq [OPTIONS] [COMMAND]\n\nCommands:\n" ++
    "  parse <FILTER>            Parse a filter expression and print its tree\n" ++
    "  sql <FILTER>              Compile a filter expression to a WHERE clause\n" ++
    "  tokens <FILTER>           Show the tokens and postfix order of an expression\n" ++
    "  sort <SPEC>               Parse a sort specification\n" ++
    "  criteria                  Build criteria: -f FILTER, -s SORT, --offset N, --size N\n" ++
    "  config [show|path|init|set]  Manage configuration\n" ++
    "  completions <SHELL>       Generate shell completions: bash, zsh, fish, powershell\n" ++
    "\nOptions:\n" ++
    "  -v, --verbose  -q, --quiet  --json  --no-color  --no-normalize  --strict\n" ++
    "  -h, --help  -V, --version\n").toList

/-- What is said about a malformed command line, whatever is wrong with it. The library would say
that too. -/
def usageError : Text := "error: malformed command line\n\nFor more, try '--help'.\n".toList

/-- The exit status, the output and the diagnostics of a command line that runs no command. -/
def Ending.answer : Ending → Nat × Text × Text
  | usage => (2, [], usageError)
  | help => (0, usageText, [])
  | version l => (0, versionText l, [])

end Sieve
