/-
# What strictness changes

A strict run and a lenient one read the same settings and the same expression.  They part only
where the expression is malformed: the strict run ends there, before anything is printed, and the
lenient one goes on with the empty filter.  So strictness never changes an answer, it only takes
away those that were given for another filter than the one asked for.

* `run_strictly`: the two runs of an invocation;
* `respond_strictly`: the two runs of a command line, with the switch anywhere on it.
-/
import Sieve.Proofs.FilterCommands
import Sieve.Proofs.StrictSwitch
import Sieve.Proofs.WellFormed

namespace Sieve

/-! ## 1. What does not depend on the switch -/

/-- No text is the empty filter. -/
theorem Filter.read_nil (options : ReadOptions) : Filter.read options [] = .ok .empty := by
  have blank : Filter.prepare options [] = [] := Filter.prepare_eq_nil_iff.mpr (by simp)
  rw [Filter.read, blank]
  rfl

theorem FilterCommand.shown_strictly (ctx : Context) (c : FilterCommand) (f : Filter) :
    c.shown { ctx with strict := true } f = c.shown ctx f := by
  cases c <;> rfl

section Runs

variable (around : Surroundings) (switches : Switches) (c : FilterCommand) (s : Text) {site : Site}

/-- Without settings that can be read, the run ends before the switch matters. -/
theorem run_strictly_of_settings_error {e : SettingsError} (hsite : site.settings = .error e) :
    run around (Invocation.strictly ⟨switches, c.on s⟩) site =
      run around ⟨switches, c.on s⟩ site := by
  rw [Invocation.strictly, run_of_settings_error _ _ _ _ hsite,
    run_of_settings_error _ _ _ _ hsite]
  rfl

/-- Nor does it matter if the settings are strict. -/
theorem run_strictly_of_settings_strict {t : Settings} (hsite : site.settings = .ok t)
    (h : t.strict = some true) :
    run around (Invocation.strictly ⟨switches, c.on s⟩) site =
      run around ⟨switches, c.on s⟩ site := by
  have same : Context.new around { switches with strict := true } t =
      Context.new around switches t := by
    simp [Context.new, h]
  rw [Invocation.strictly, run_of_settings _ _ _ _ hsite, run_of_settings _ _ _ _ hsite, same]
  rfl

/-- Nor does it matter for an expression that can be read. -/
theorem run_strictly_of_read {t : Settings} {f : Filter} (hsite : site.settings = .ok t)
    (hread : Filter.read (Context.new around switches t).options s = .ok f) :
    run around (Invocation.strictly ⟨switches, c.on s⟩) site =
      run around ⟨switches, c.on s⟩ site := by
  have hread' : Filter.read (Context.new around { switches with strict := true } t).options s =
      .ok f := hread
  rw [Invocation.strictly, run_of_settings _ _ _ _ hsite, run_of_settings _ _ _ _ hsite,
    FilterCommand.perform_action, FilterCommand.perform_action, hread, hread']
  have shown : c.shown (Context.new around { switches with strict := true } t) f =
      c.shown (Context.new around switches t) f :=
    FilterCommand.shown_strictly (Context.new around switches t) c f
  simp only [shown]
  rfl

/-! ## 2. A malformed expression -/

/-- The strict run fails with nothing printed. -/
theorem run_strictly_of_malformed {t : Settings} {e : FilterError} (hsite : site.settings = .ok t)
    (hread : Filter.read (Context.new around switches t).options s = .error e) :
    (run around (Invocation.strictly ⟨switches, c.on s⟩) site).status = 1 ∧
      (run around (Invocation.strictly ⟨switches, c.on s⟩) site).output = [] := by
  have hread' : Filter.read (Context.new around { switches with strict := true } t).options s =
      .error e := hread
  rw [Invocation.strictly, run_of_settings _ _ _ _ hsite, FilterCommand.perform_action, hread']
  exact ⟨rfl, rfl⟩

/-- The lenient run answers as it does for no text at all. -/
theorem run_leniently_of_malformed {t : Settings} {e : FilterError}
    (hsite : site.settings = .ok t)
    (hread : Filter.read (Context.new around switches t).options s = .error e)
    (hstrict : (Context.new around switches t).strict = false) :
    (run around ⟨switches, c.on s⟩ site).status = 0 ∧
      (run around ⟨switches, c.on s⟩ site).output =
        (run around ⟨switches, c.on []⟩ site).output := by
  rw [run_of_settings _ _ _ _ hsite, run_of_settings _ _ _ _ hsite, FilterCommand.perform_action,
    FilterCommand.perform_action, hread, Filter.read_nil, hstrict]
  exact ⟨rfl, rfl⟩

/-! ## 3. The two runs -/

/-- The strict run of an invocation is the lenient one, or it fails with nothing printed where the
lenient one would have answered for no text at all. -/
theorem run_strictly (hswitch : switches.strict = false) :
    let lenient := run around ⟨switches, c.on s⟩ site
    let strict := run around (Invocation.strictly ⟨switches, c.on s⟩) site
    (strict.status ≠ 1 → lenient = strict) ∧
    (strict.status = 1 → strict.output = [] ∧
      ((lenient = strict ∧ ∃ t, site.settings = .ok t ∧ t.strict = some true) ∨
        (lenient.status = 0 ∧
          lenient.output = (run around ⟨switches, c.on []⟩ site).output))) := by
  intro lenient strict
  cases hsite : site.settings with
  | error e =>
    have same : strict = lenient := run_strictly_of_settings_error around switches c s hsite
    have status : strict.status = 5 := by
      rw [same]
      unfold lenient
      rw [run_of_settings_error _ _ _ _ hsite]
      rfl
    exact ⟨fun _ => same.symm, fun h => absurd (status.symm.trans h) (by decide)⟩
  | ok t =>
    cases hread : Filter.read (Context.new around switches t).options s with
    | ok f =>
      have same : strict = lenient := run_strictly_of_read around switches c s hsite hread
      have status : strict.status = 0 := by
        rw [same]
        unfold lenient
        rw [run_of_settings _ _ _ _ hsite, FilterCommand.perform_action, hread]
        rfl
      exact ⟨fun _ => same.symm, fun h => absurd (status.symm.trans h) (by decide)⟩
    | error e =>
      obtain ⟨status, output⟩ := run_strictly_of_malformed around switches c s hsite hread
      refine ⟨fun h => absurd status h, fun _ => ⟨output, ?_⟩⟩
      by_cases settings : t.strict = some true
      · exact .inl ⟨(run_strictly_of_settings_strict around switches c s hsite settings).symm, t,
          rfl, settings⟩
      · have hstrict : (Context.new around switches t).strict = false := by
          rcases hb : t.strict with _ | _ | _ <;> simp_all [Context.new]
        exact .inr (run_leniently_of_malformed around switches c s hsite hread hstrict)

end Runs

/-- **Strictness only turns degraded answers into errors.**  Of a line that shows what an
expression stands for, and the same line with the switch, put in front or standing anywhere: if the
strict run ends in anything but the failure of malformed filters, the lenient one ends in exactly
the same; and if it ends in that failure, it has printed nothing, and the lenient run fails in the
same way because the settings are strict, or succeeds and prints what the line prints for no text
at all. -/
theorem respond_strictly (around : Surroundings) (site : Site)
    {line strictLine emptyLine : List Text} {switches : Switches} {c : FilterCommand} {s : Text}
    (hline : Invocation.read line = .ok ⟨switches, c.on s⟩)
    (hswitch : switches.strict = false)
    (hstrict : Invocation.read strictLine = .ok ⟨{ switches with strict := true }, c.on s⟩)
    (hempty : Invocation.read emptyLine = .ok ⟨switches, c.on []⟩) :
    Invocation.read ("--strict".toList :: line) =
      .ok ⟨{ switches with strict := true }, c.on s⟩ ∧
    let lenient := respond around line site
    let strict := respond around strictLine site
    (strict.status ≠ 1 → lenient = strict) ∧
    (strict.status = 1 → strict.output = [] ∧
      ((lenient = strict ∧ ∃ t, site.settings = .ok t ∧ t.strict = some true) ∨
        (lenient.status = 0 ∧ lenient.output = (respond around emptyLine site).output))) := by
  refine ⟨Invocation.read_strict_cons hline hswitch, ?_⟩
  simp only [respond, hline, hstrict, hempty]
  exact run_strictly around switches c s hswitch

/-- A condition without its value, with the switch behind the command: lenient settings and strict
ones. -/
theorem respond_strictly_incomplete :
    let around : Surroundings := ⟨"crq.toml".toList, false⟩
    let line := ["--json".toList, "criteria".toList, "-f".toList, "a = ".toList]
    let strictLine := line ++ ["--strict".toList]
    let emptyLine := ["--json".toList, "criteria".toList]
    let strictly := Site.text "[filter]\nstrict = true\n".toList
    ((respond around strictLine .missing).status = 1 ∧
      (respond around strictLine .missing).output = [] ∧
      (respond around line .missing).status = 0 ∧
      (respond around line .missing).output = (respond around emptyLine .missing).output) ∧
    (respond around line strictly = respond around strictLine strictly ∧
      (respond around line strictly).status = 1) := by
  intro around line strictLine emptyLine strictly
  let criteria := FilterCommand.criteria [] none none
  have hline : Invocation.read line = .ok ⟨{ json := true }, criteria.on "a = ".toList⟩ := rfl
  have hstrict : Invocation.read strictLine =
      .ok ⟨{ json := true, strict := true }, criteria.on "a = ".toList⟩ := rfl
  have hempty : Invocation.read emptyLine = .ok ⟨{ json := true }, criteria.on []⟩ := rfl
  obtain ⟨-, -, missing⟩ := respond_strictly around .missing hline rfl hstrict hempty
  obtain ⟨-, -, settings⟩ := respond_strictly around strictly hline rfl hstrict hempty
  have status : (respond around strictLine .missing).status = 1 := by decide +kernel
  have strictStatus : (respond around line strictly).status = 1 := by decide +kernel
  constructor
  · obtain ⟨output, ⟨-, t, ht, hstrict⟩ | degraded⟩ := missing status
    · cases ht
      cases hstrict
    · exact ⟨status, output, degraded⟩
  · obtain ⟨-, ⟨same, -⟩ | ⟨zero, -⟩⟩ := settings (by decide +kernel)
    · exact ⟨same, strictStatus⟩
    · exact absurd (zero.symm.trans strictStatus) (by decide)

end Sieve
