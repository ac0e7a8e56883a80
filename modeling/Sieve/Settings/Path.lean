/-
# The path of the settings file

A variable of its own names the file; without it, the file has a fixed name in the directory for
configuration, or in the one below the home directory.
-/
import Sieve.Text.Basic

namespace Sieve

namespace Settings

/-- A name below a directory. -/
def below (directory name : Text) : Text :=
  if directory.isEmpty || directory.getLast? == some '/' then directory ++ name
  else directory ++ '/' :: name

/-- The path of the settings file, given the variables that decide it. -/
def path? (file directory home : Option Text) : Option Text :=
  match file, directory, home with
  | some p, _, _ => some p
  | none, some d, _ => some (below d "crq/config.toml".toList)
  | none, none, some h => some (below h ".config/crq/config.toml".toList)
  | none, none, none => none

/-- The directory that a path lies in, if it names one. -/
def parent? (path : Text) : Option Text :=
  let directory := ((path.reverse.dropWhile (· != '/')).drop 1).reverse
  if directory.isEmpty then none else some directory

end Settings

end Sieve
