/-
# Commands about a filter

Three commands show what an expression stands for: its tree, its clause, or whole criteria with
it.  They read the expression in one way, and all that they print comes at the end and depends
only on the filter that was read.

* `FilterCommand`, `FilterCommand.shown`: the three commands, and what they print for a filter;
* `FilterCommand.perform_action`: what such a command does, in one equation;
* `run_of_settings`, `run_of_settings_error`: the run, for settings that can be read or not.
-/
import Sieve.Proofs.Actions

namespace Sieve

open Sieve.Action

/-! ## 1. What they do -/

/-- How a filter is read: a malformed one is a failure or, with a warning, the empty one. -/
theorem Context.perform_readFilter (ctx : Context) (s : Text) (w : World) :
    (ctx.readFilter s).perform w =
      match Filter.read ctx.options s with
      | .ok f => (.ok f, w)
      | .error e =>
        if ctx.strict then (.error (.filter e), w)
        else (.ok .empty, { w with
          log := w.log ++ [.warning (e.message ++ "; using an empty filter".toList)] }) := by
  unfold Context.readFilter
  cases Filter.read ctx.options s with
  | ok f => rfl
  | error e => cases ctx.strict <;> rfl

/-- The commands that show what an expression stands for. -/
inductive FilterCommand where
  | parse
  | sql
  | criteria (sort : Text) (offset size : Option Int)
  deriving DecidableEq, Repr

namespace FilterCommand

/-- The command for an expression. -/
def on (s : Text) : FilterCommand → Command
  | parse => .parse s
  | sql => .sql s
  | criteria sort offset size => .criteria s sort offset size

/-- What the command prints for a filter. -/
def shown (ctx : Context) (f : Filter) : FilterCommand → Text
  | parse => ctx.render f.json (Report.filterTree ctx.colours f)
  | sql =>
    ctx.render (Report.clauseJson f.clause f.arguments)
      (Report.clauseText ctx.colours f.clause f.arguments)
  | criteria sort offset size =>
    ctx.render (Report.criteriaJson (criteriaOf sort offset size f) ctx.pageSize)
      (Report.criteriaText ctx.colours (criteriaOf sort offset size f) ctx.pageSize)

/-- What the command adds to the log for a filter. -/
def logged (f : Filter) : FilterCommand → List LogEntry
  | sql =>
    [.debug "compiled filter".toList
      ("placeholders=".toList ++ Text.decimal f.arguments.length)]
  | parse | criteria _ _ _ => []

/-- The last steps of the command, once the filter is read. -/
def present (ctx : Context) (f : Filter) : FilterCommand → Action Unit
  | parse => showTree ctx f
  | sql => showClause ctx f
  | criteria sort offset size => showCriteria ctx (criteriaOf sort offset size f)

theorem action_on (ctx : Context) (c : FilterCommand) (s : Text) :
    (c.on s).action ctx = ctx.readFilter s >>= fun f => c.present ctx f := by
  cases c <;> rfl

theorem perform_present (ctx : Context) (c : FilterCommand) (f : Filter) (w : World) :
    (c.present ctx f).perform w =
      (.ok (), { w with output := w.output ++ c.shown ctx f, log := w.log ++ c.logged f }) := by
  cases c <;>
    simp [present, showTree, showClause, showCriteria, Context.present, perform_bind, shown,
      logged]

/-- **What the command does.** A malformed expression is a failure if the context is strict; if it
is not, the command goes on with the empty filter, behind a warning. -/
theorem perform_action (ctx : Context) (c : FilterCommand) (s : Text) (w : World) :
    ((c.on s).action ctx).perform w =
      match Filter.read ctx.options s with
      | .ok f =>
        (.ok (), { w with output := w.output ++ c.shown ctx f, log := w.log ++ c.logged f })
      | .error e =>
        if ctx.strict then (.error (.filter e), w)
        else (.ok (), { w with
          output := w.output ++ c.shown ctx .empty
          log := w.log ++ [.warning (e.message ++ "; using an empty filter".toList)] ++
            c.logged .empty }) := by
  rw [action_on, perform_bind, Context.perform_readFilter]
  cases Filter.read ctx.options s with
  | ok f => exact perform_present ctx c f w
  | error e =>
    cases ctx.strict with
    | true => rfl
    | false => exact perform_present ctx c .empty _

end FilterCommand

/-! ## 2. Their runs -/

section Run

variable (around : Surroundings) (switches : Switches) (c : FilterCommand) (s : Text) {site : Site}

/-- Settings that cannot be read end the run. -/
theorem run_of_settings_error {e : SettingsError} (hsite : site.settings = .error e) :
    run around ⟨switches, c.on s⟩ site =
      .ofResult switches (.error (.settings e), ⟨site, [], loadLog around.path site⟩) := by
  have direct : (c.on s).isAboutSettings = false := by cases c <;> rfl
  simp [run, Invocation.action, Invocation.loadSettings, direct, loadSettings, perform_bind,
    World.start, hsite]

/-- Settings that can be read make the context in which the command runs. -/
theorem run_of_settings {t : Settings} (hsite : site.settings = .ok t) :
    run around ⟨switches, c.on s⟩ site =
      .ofResult switches (((c.on s).action (.new around switches t)).perform
        ⟨site, [], loadLog around.path site⟩) := by
  rw [run, Invocation.action, perform_bind, Invocation.perform_loadSettings_of_ok _ _ hsite]

/-- A run that succeeds shows some filter, and prints nothing else. -/
theorem exists_output_eq_shown {t : Settings} (hsite : site.settings = .ok t)
    (hstatus : (run around ⟨switches, c.on s⟩ site).status = 0) :
    ∃ f, (run around ⟨switches, c.on s⟩ site).output = c.shown (.new around switches t) f := by
  rw [run_of_settings _ _ _ _ hsite, FilterCommand.perform_action] at hstatus ⊢
  cases hread : Filter.read (Context.new around switches t).options s with
  | ok f => exact ⟨f, rfl⟩
  | error e =>
    cases hstrict : (Context.new around switches t).strict with
    | true => simp [hread, hstrict, Outcome.ofResult, Failure.status] at hstatus
    | false => exact ⟨.empty, rfl⟩

end Run

end Sieve
