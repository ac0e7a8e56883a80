/-
# Actions

A command is carried out step by step.  Each step may look at the site of the settings file,
write to it, print, add to the log, or fail; what the steps before a failure have done stays
done.  Printing itself does not fail: standard output is assumed to take all that is printed.

* `World`: what the steps work on;
* `Action`: a step, or several one after the other;
* `Action.perform`: the result of an action, and the world it leaves behind.
-/
import Sieve.Command.Failure
import Sieve.Report.Log
import Sieve.Settings.Site

namespace Sieve

/-- What a run works on: the site of the settings file, what it has printed, and its log. -/
structure World where
  site : Site
  output : Text
  log : List LogEntry
  deriving DecidableEq, Repr

/-- The world before anything is printed. -/
def World.start (site : Site) : World := ⟨site, [], []⟩

/-- A step of a run, or several one after the other. A failure ends them but undoes nothing. -/
abbrev Action (α : Type) := ExceptT Failure (StateM World) α

namespace Action

variable {α β : Type}

/-- The result of the action, and the world it leaves behind. -/
def perform (a : Action α) (w : World) : Except Failure α × World := StateT.run (ExceptT.run a) w

/-! ## 1. Steps -/

/-- The site of the settings file. -/
def site : Action Site := do return (← get).site

/-- Adds to the log. -/
def note (entries : List LogEntry) : Action Unit :=
  modify fun w => { w with log := w.log ++ entries }

/-- Adds to the output, which is assumed to have room and a reader. -/
def print (s : Text) : Action Unit := modify fun w => { w with output := w.output ++ s }

/-- A value, or the failure of what should have given it. -/
def ofSettings : Except SettingsError α → Action α
  | .ok a => pure a
  | .error e => throw (.settings e)

/-- Writes the settings file, whose directory has to be there. -/
def write (refusal : Text → SettingsError) (content : Text) : Action Unit := do
  let written ← ofSettings ((← site).write refusal content)
  modify fun w => { w with site := written }

/-! ## 2. What they do -/

variable (w : World)

@[simp] theorem perform_pure (a : α) : (pure a : Action α).perform w = (.ok a, w) := rfl

@[simp] theorem perform_throw (e : Failure) : (throw e : Action α).perform w = (.error e, w) := rfl

/-- One action after the other. -/
theorem perform_bind (a : Action α) (f : α → Action β) :
    (a >>= f).perform w =
      match a.perform w with
      | (.ok x, w') => (f x).perform w'
      | (.error e, w') => (.error e, w') := by
  simp only [perform, bind, ExceptT.bind, ExceptT.run, ExceptT.mk, StateT.run, StateT.bind]
  rcases a w with ⟨x | e, w'⟩ <;> rfl

/-- An action with another to fall back on. -/
theorem perform_tryCatch (a : Action α) (f : Failure → Action α) :
    (tryCatch a f).perform w =
      match a.perform w with
      | (.ok x, w') => (.ok x, w')
      | (.error e, w') => (f e).perform w' := by
  simp only [perform, tryCatch, tryCatchThe, MonadExceptOf.tryCatch, ExceptT.tryCatch,
    ExceptT.run, ExceptT.mk, StateT.run, bind, StateT.bind]
  rcases a w with ⟨x | e, w'⟩ <;> rfl

@[simp] theorem perform_site : site.perform w = (.ok w.site, w) := rfl

@[simp] theorem perform_note (entries : List LogEntry) :
    (note entries).perform w = (.ok (), { w with log := w.log ++ entries }) := rfl

@[simp] theorem perform_print (s : Text) :
    (print s).perform w = (.ok (), { w with output := w.output ++ s }) := rfl

@[simp] theorem perform_ofSettings_ok (x : α) :
    (ofSettings (.ok x)).perform w = (.ok x, w) := rfl

@[simp] theorem perform_ofSettings_error (e : SettingsError) :
    (ofSettings (.error e : Except SettingsError α)).perform w = (.error (.settings e), w) := rfl

/-- Writing puts the file at the site, or fails and changes nothing. -/
theorem perform_write (refusal : Text → SettingsError) (content : Text) :
    (write refusal content).perform w =
      match w.site.write refusal content with
      | .ok written => (.ok (), { w with site := written })
      | .error e => (.error (.settings e), w) := by
  simp only [write, perform_bind, perform_site]
  cases w.site.write refusal content <;> rfl

end Action

end Sieve
