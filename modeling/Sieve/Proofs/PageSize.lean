/-
# The size of a page

Criteria report one size of a page: that of the command line if there is one, else that of the
settings, else the default.  A size below 1 on the command line becomes 1, and changing the
setting refuses one, so neither ever brings in a page of no rows.  A size that stands in the file
is taken as it is, and there alone a zero gets through.

* `sizeInEffect`: the size that counts, and `one_le_sizeInEffect_iff`, when it is positive;
* `respond_criteria_size`: what a run reports;
* `session_size_ne_zero`: no session writes a zero into the file.
-/
import Sieve.Proofs.FilterCommands
import Sieve.Proofs.Session

namespace Sieve

/-! ## 1. The size in effect -/

/-- The size of a page, from the command line and the settings. -/
def sizeInEffect (size : Option Int) (t : Settings) : Nat :=
  match size with
  | some n => max n.toNat 1
  | none => t.size.getD Settings.defaultSize

theorem size_criteriaOf (sort : Text) (offset size : Option Int) (f : Filter) (t : Settings) :
    (criteriaOf sort offset size f).size (t.size.getD Settings.defaultSize) =
      sizeInEffect size t := by
  cases size <;> cases offset <;> rfl

/-- The only size that is not positive is a zero of the settings with nothing to replace it. -/
theorem one_le_sizeInEffect_iff (size : Option Int) (t : Settings) :
    1 ≤ sizeInEffect size t ↔ ¬(size = none ∧ t.size = some 0) := by
  cases size with
  | some n => simp [sizeInEffect]
  | none =>
    cases hsize : t.size with
    | none => simp [sizeInEffect, hsize, Settings.defaultSize]
    | some n => simp [sizeInEffect, hsize, Nat.one_le_iff_ne_zero]

/-! ## 2. The report -/

/-- The output reports pages of `n` rows.  As text it is the whole report: the filter as a tree, a
line each for clause, order, offset and size, and the bound values.  So a label does not count that
stands in a text which the filter quotes.  As JSON it is an object with an entry that is named for
the size. -/
inductive ReportsSize (n : Nat) : Text → Prop where
  | text (colours : Bool) (f : Filter) (order : SortBy) (offset : Nat) :
    ReportsSize n (Style.bold.paint colours "Filter:".toList ++ '\n' ::
      Report.filterTree colours f ++ '\n' ::
      Text.unlines
        [Report.labelled colours "WHERE:".toList (Report.orNone f.clause),
          Report.labelled colours "ORDER BY:".toList (Report.orNone order.text),
          Report.labelled colours "OFFSET:".toList (Text.decimal offset),
          Report.labelled colours "LIMIT:".toList (Text.decimal n)] ++
      Report.argumentList colours f.arguments)
  | json (entries : List (Text × Json)) (h : entries.lookup "size".toList = some (.int n)) :
    ReportsSize n ((Json.object entries).pretty ++ ['\n'])

theorem reportsSize_criteriaText (colours : Bool) (c : Criteria) (fallback : Nat) :
    ReportsSize (c.size fallback) (Report.criteriaText colours c fallback) :=
  .text colours c.filter c.sortBy c.offset

theorem reportsSize_criteriaJson (c : Criteria) (fallback : Nat) :
    ReportsSize (c.size fallback) ((Report.criteriaJson c fallback).pretty ++ ['\n']) :=
  .json _ rfl

/-- What is printed of criteria reports their size. -/
theorem reportsSize_render (ctx : Context) (c : Criteria)
    (h : ctx.render (Report.criteriaJson c ctx.pageSize)
      (Report.criteriaText ctx.colours c ctx.pageSize) ≠ []) :
    ReportsSize (c.size ctx.pageSize)
      (ctx.render (Report.criteriaJson c ctx.pageSize)
        (Report.criteriaText ctx.colours c ctx.pageSize)) := by
  unfold Context.render at h ⊢
  split
  · exact reportsSize_criteriaJson c ctx.pageSize
  · split
    · next quiet => simp_all
    · exact reportsSize_criteriaText ctx.colours c ctx.pageSize

/-! ## 3. Runs -/

/-- **A run that shows criteria reports the size in effect, which is positive unless the settings
file itself has a zero and the command line has no size.** -/
theorem respond_criteria_size (around : Surroundings) {site : Site} {t : Settings}
    {line : List Text} {switches : Switches} {filter sort : Text} {offset size : Option Int}
    (hsite : site.settings = .ok t)
    (hline : Invocation.read line = .ok ⟨switches, .criteria filter sort offset size⟩)
    (hstatus : (respond around line site).status = 0)
    (hprint : (respond around line site).output ≠ []) :
    ReportsSize (sizeInEffect size t) (respond around line site).output ∧
      (1 ≤ sizeInEffect size t ↔ ¬(size = none ∧ t.size = some 0)) := by
  refine ⟨?_, one_le_sizeInEffect_iff size t⟩
  simp only [respond, hline] at hstatus hprint ⊢
  obtain ⟨f, shown⟩ := exists_output_eq_shown around switches (.criteria sort offset size) filter
    hsite hstatus
  have output : (run around ⟨switches, .criteria filter sort offset size⟩ site).output =
      FilterCommand.shown (.new around switches t) f (.criteria sort offset size) := shown
  rw [output] at hprint ⊢
  have report := reportsSize_render (.new around switches t) (criteriaOf sort offset size f) hprint
  rwa [show (Context.new around switches t).pageSize = t.size.getD Settings.defaultSize from rfl,
    size_criteriaOf] at report

/-- A size below 1 on the command line wins over the settings, and becomes 1. -/
theorem respond_criteria_size_clamped :
    let around : Surroundings := ⟨"crq.toml".toList, false⟩
    let line := ["criteria".toList, "--size".toList, "-3".toList]
    let site := Site.text "[page]\nsize = 0\n".toList
    (respond around line site).status = 0 ∧ (respond around line site).output ≠ [] ∧
      ReportsSize 1 (respond around line site).output := by
  intro around line site
  have hsite : site.settings = .ok ⟨1, none, none, some 0, none⟩ := by decide +kernel
  have hline : Invocation.read line = .ok ⟨{}, .criteria [] [] none (some (-3))⟩ := by
    decide +kernel
  obtain ⟨status, prints⟩ :
      (respond around line site).status = 0 ∧ (respond around line site).output ≠ [] := by
    decide +kernel
  exact ⟨status, prints, (respond_criteria_size around hsite hline status prints).1⟩

/-- A zero in the file is accepted, and reported as it is. -/
theorem respond_criteria_size_zero :
    let site := Site.text "[page]\nsize = 0\n".toList
    site.settings = .ok ⟨1, none, none, some 0, none⟩ ∧
      respond ⟨"crq.toml".toList, false⟩ ["criteria".toList] site =
        ⟨0, ("Filter:\n(empty filter: matches every row)\n\nWHERE:    (none)\n" ++
          "ORDER BY: (none)\nOFFSET:   0\nLIMIT:    0\nArgs: (none)\n").toList, [], site⟩ := by
  constructor
  · decide +kernel
  · decide +kernel

/-! ## 4. Sessions -/

/-- No command puts a zero into the map. -/
theorem Command.effect_size_ne_zero {c : Command} {m m' : SettingMap} (h : c.effect m = some m')
    (hm : m .size ≠ some 0) : m' .size ≠ some 0 := by
  cases c with
  | createSettings force =>
    cases h
    simp
  | assignSetting name value =>
    obtain ⟨k, v, hassigns, rfl⟩ := Command.effect_assignSetting_iff.mp h
    cases hassigns with
    | size hsize =>
      obtain ⟨hpos, -⟩ := hsize.1
      rw [Function.update_self, ne_eq, Option.some.injEq]
      exact hpos.ne'
    | _ => rwa [Function.update_of_ne (by decide)]
  | _ =>
    cases h
    exact hm

/-- Nor does a session. -/
theorem effects_size_ne_zero {calls : List (Call × Nat)} {m m' : SettingMap}
    (h : effects m calls = some m') (hm : m .size ≠ some 0) : m' .size ≠ some 0 := by
  induction calls generalizing m with
  | nil =>
    cases h
    exact hm
  | cons e calls ih =>
    obtain ⟨m₁, first, rest⟩ := Option.bind_eq_some_iff.mp h
    refine ih rest ?_
    simp only [Call.effect] at first
    split at first
    · split at first
      · exact Command.effect_size_ne_zero first hm
      · cases first
        exact hm
    · cases first
      exact hm

/-- **A session never writes a zero into the file.** -/
theorem session_size_ne_zero {site : Site} {s : Settings} (hs : site.Holds s)
    (hsize : s.size ≠ some 0) (calls : List Call) :
    ∃ t, (session site calls).2.settings = .ok t ∧ t.size ≠ some 0 := by
  obtain ⟨t, ht, effects⟩ := session_effects hs calls
  exact ⟨t, ht.settings, effects_size_ne_zero effects hsize⟩

end Sieve
