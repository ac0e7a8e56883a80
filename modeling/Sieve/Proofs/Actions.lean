/-
# What a run does to the settings file

A failure undoes nothing: the steps before it stay done.  So a run that fails leaves the settings
file alone only because of the order of its steps, and this module proves that the order is
right.  Every command looks, computes and fails first; the one write comes last, and behind it
there is only printing, which does not fail.

* `Action.KeepsSite`, `Action.KeepsSiteOnFailure`, `Action.Total`: an action leaves the site as it
  is in every case, or when it fails, or does not fail at all; `bind_of_keepsSite` and
  `bind_of_total` put actions together.
* `Action.Leaves`: an action succeeds and leaves a certain site behind, with a lemma for each step.
* `run_keeps_site`, `run_keeps_site_of_failure`: the two halves, for an invocation.
* `respond_keeps_site`: both, for every command line and every state of the path.
-/
import Sieve.Command.Respond

namespace Sieve

/-! ## 1. Three properties of actions -/

namespace Action

variable {α β : Type} {a : Action α} {f : α → Action β}

/-- The action leaves the site as it is, whether it fails or not. -/
def KeepsSite (a : Action α) : Prop := ∀ w, (a.perform w).2.site = w.site

/-- The action leaves the site as it is if it fails. -/
def KeepsSiteOnFailure (a : Action α) : Prop :=
  ∀ w e w', a.perform w = (.error e, w') → w'.site = w.site

/-- The action does not fail. -/
def Total (a : Action α) : Prop := ∀ w e w', a.perform w ≠ (.error e, w')

theorem KeepsSite.onFailure (h : a.KeepsSite) : a.KeepsSiteOnFailure := by
  intro w e w' hw
  have := h w
  rwa [hw] at this

theorem KeepsSite.bind (ha : a.KeepsSite) (hf : ∀ x, (f x).KeepsSite) : (a >>= f).KeepsSite := by
  intro w
  have hw := ha w
  rw [perform_bind]
  rcases hp : a.perform w with ⟨e | x, w'⟩ <;> rw [hp] at hw
  · exact hw
  · exact (hf x w').trans hw

/-- What only looks may stand in front. -/
theorem KeepsSiteOnFailure.bind_of_keepsSite (ha : a.KeepsSite)
    (hf : ∀ x, (f x).KeepsSiteOnFailure) : (a >>= f).KeepsSiteOnFailure := by
  intro w e w'' h
  have hw := ha w
  rw [perform_bind] at h
  rcases hp : a.perform w with ⟨e' | x, w'⟩ <;> rw [hp] at h hw
  · cases h
    exact hw
  · exact (hf x w' e w'' h).trans hw

/-- What does not fail may stand behind. -/
theorem KeepsSiteOnFailure.bind_of_total (ha : a.KeepsSiteOnFailure) (hf : ∀ x, (f x).Total) :
    (a >>= f).KeepsSiteOnFailure := by
  intro w e w'' h
  rw [perform_bind] at h
  rcases hp : a.perform w with ⟨e' | x, w'⟩ <;> rw [hp] at h
  · cases h
    exact ha w e w'' hp
  · exact absurd h (hf x w' e w'')

/-! ## 2. The steps -/

theorem keepsSite_pure (x : α) : (pure x : Action α).KeepsSite := fun _ => rfl

theorem keepsSite_throw (e : Failure) : (throw e : Action α).KeepsSite := fun _ => rfl

theorem keepsSite_site : site.KeepsSite := fun _ => rfl

theorem keepsSite_note (entries : List LogEntry) : (note entries).KeepsSite := fun _ => rfl

theorem keepsSite_print (s : Text) : (print s).KeepsSite := fun _ => rfl

theorem keepsSite_ofSettings (r : Except SettingsError α) : (ofSettings r).KeepsSite := by
  intro w
  cases r <;> rfl

theorem total_print (s : Text) : (print s).Total := by
  intro w e w' h
  cases h

/-- A write that fails changes nothing. -/
theorem keepsSiteOnFailure_write (refusal : Text → SettingsError) (content : Text) :
    (write refusal content).KeepsSiteOnFailure := by
  intro w e w' h
  rw [perform_write] at h
  cases hw : w.site.write refusal content with
  | error _ => rw [hw] at h; cases h; rfl
  | ok _ => rw [hw] at h; cases h

/-! ## 3. What success leaves behind -/

section Leaves

variable {f : α → Action Unit} {w : World} {after : Site}

/-- The action succeeds and leaves this site behind. -/
def Leaves (a : Action Unit) (w : World) (after : Site) : Prop :=
  ∃ w', a.perform w = (.ok (), w') ∧ w'.site = after

/-- Behind a first step that succeeds, the rest goes on. -/
theorem leaves_bind {a : Action α} {x : α} {w' : World} (h : a.perform w = (.ok x, w')) :
    (a >>= f).Leaves w after ↔ (f x).Leaves w' after := by
  unfold Leaves
  rw [perform_bind, h]

theorem leaves_site {f : Site → Action Unit} :
    (site >>= f).Leaves w after ↔ (f w.site).Leaves w after :=
  leaves_bind rfl

theorem leaves_note {entries : List LogEntry} {f : Unit → Action Unit} :
    (note entries >>= f).Leaves w after ↔
      (f ()).Leaves { w with log := w.log ++ entries } after :=
  leaves_bind rfl

theorem leaves_ofSettings {r : Except SettingsError α} :
    (ofSettings r >>= f).Leaves w after ↔ ∃ x, r = .ok x ∧ (f x).Leaves w after := by
  cases r with
  | error e => simp [Leaves, perform_bind]
  | ok x => simp [ofSettings]

theorem leaves_write {refusal : Text → SettingsError} {content : Text} {f : Unit → Action Unit} :
    (write refusal content >>= f).Leaves w after ↔
      ∃ written, w.site.write refusal content = .ok written ∧
        (f ()).Leaves { w with site := written } after := by
  cases hw : w.site.write refusal content with
  | error e => simp [Leaves, perform_bind, perform_write, hw]
  | ok written =>
    have : (write refusal content).perform w = (.ok (), { w with site := written }) := by
      rw [perform_write, hw]
    simp [leaves_bind this]

theorem leaves_print {s : Text} : (print s).Leaves w after ↔ w.site = after := by
  simp [Leaves]

end Leaves

end Action

open Sieve.Action

/-! ## 4. The commands -/

theorem keepsSite_loadSettings (path : Text) : (loadSettings path).KeepsSite :=
  keepsSite_site.bind fun _ => (keepsSite_note _).bind fun _ => keepsSite_ofSettings _

theorem keepsSite_readFilter (ctx : Context) (s : Text) : (ctx.readFilter s).KeepsSite := by
  unfold Context.readFilter
  split
  · exact keepsSite_pure _
  · split
    · exact keepsSite_throw _
    · exact (keepsSite_note _).bind fun _ => keepsSite_pure _

/-- Whether the command is there to write the settings file. -/
def Command.writesSettings : Command → Bool
  | createSettings _ | assignSetting _ _ => true
  | _ => false

/-- **Every command but the two that are there to write only looks at the site.** -/
theorem Command.keepsSite_action (ctx : Context) {c : Command} (h : c.writesSettings = false) :
    (c.action ctx).KeepsSite := by
  cases c with
  | notice => exact keepsSite_print _
  | parse _ => exact (keepsSite_readFilter ctx _).bind fun _ => keepsSite_print _
  | sql _ =>
    exact (keepsSite_readFilter ctx _).bind fun _ =>
      (keepsSite_note _).bind fun _ => keepsSite_print _
  | tokens _ => exact keepsSite_print _
  | sort _ => exact keepsSite_print _
  | criteria _ _ _ _ => exact (keepsSite_readFilter ctx _).bind fun _ => keepsSite_print _
  | showSettings =>
    exact (keepsSite_loadSettings _).bind fun _ =>
      keepsSite_site.bind fun _ => keepsSite_print _
  | showPath => exact keepsSite_site.bind fun _ => keepsSite_print _
  | createSettings _ => cases h
  | assignSetting _ _ => cases h
  | completions _ => exact keepsSite_print _

/-- Creating the file writes when nothing but printing is left to do. -/
theorem keepsSiteOnFailure_createSettings (ctx : Context) (force : Bool) :
    (createSettings ctx force).KeepsSiteOnFailure := by
  refine .bind_of_keepsSite keepsSite_site fun here => ?_
  refine .bind_of_keepsSite (keepsSite_ofSettings (here.allowNew ctx.path force)) fun _ => ?_
  refine .bind_of_keepsSite (keepsSite_ofSettings here.makeDirectory) fun _ => ?_
  exact .bind_of_total (keepsSiteOnFailure_write _ _) fun _ => total_print _

theorem keepsSiteOnFailure_saveSettings (s : Settings) :
    (saveSettings s).KeepsSiteOnFailure := by
  refine .bind_of_keepsSite keepsSite_site fun here => ?_
  refine .bind_of_keepsSite (keepsSite_ofSettings here.makeDirectory) fun _ => ?_
  exact .bind_of_keepsSite (keepsSite_ofSettings s.encode) fun _ => keepsSiteOnFailure_write _ _

/-- Changing a setting writes when the file is read, the key is known, the value is understood
and the new file is put together. -/
theorem keepsSiteOnFailure_assignSetting (ctx : Context) (key value : Text) :
    (assignSetting ctx key value).KeepsSiteOnFailure := by
  refine .bind_of_keepsSite (keepsSite_loadSettings ctx.path) fun s => ?_
  refine .bind_of_keepsSite (keepsSite_ofSettings (s.assign key value)) fun changed => ?_
  exact .bind_of_total (keepsSiteOnFailure_saveSettings changed) fun _ => total_print _

theorem Command.keepsSiteOnFailure_action (ctx : Context) (c : Command) :
    (c.action ctx).KeepsSiteOnFailure := by
  cases hc : c.writesSettings with
  | false => exact (c.keepsSite_action ctx hc).onFailure
  | true =>
    cases c with
    | createSettings force => exact keepsSiteOnFailure_createSettings ctx force
    | assignSetting key value => exact keepsSiteOnFailure_assignSetting ctx key value
    | _ => cases hc

/-! ## 5. Invocations and command lines -/

namespace Invocation

/-- Loading keeps the site, also where a broken file is let pass. -/
theorem keepsSite_loadSettings (around : Surroundings) (i : Invocation) :
    (i.loadSettings around).KeepsSite := by
  unfold Invocation.loadSettings
  split
  · intro w
    have hw := Sieve.keepsSite_loadSettings around.path w
    rw [perform_tryCatch]
    rcases hp : (Sieve.loadSettings around.path).perform w with ⟨e | s, w'⟩ <;> rw [hp] at hw
    · exact hw
    · exact hw
  · exact Sieve.keepsSite_loadSettings _

theorem keepsSite_action (around : Surroundings) {i : Invocation}
    (h : i.command.writesSettings = false) : (i.action around).KeepsSite :=
  (i.keepsSite_loadSettings around).bind fun _ => Command.keepsSite_action _ h

theorem keepsSiteOnFailure_action (around : Surroundings) (i : Invocation) :
    (i.action around).KeepsSiteOnFailure :=
  .bind_of_keepsSite (i.keepsSite_loadSettings around) fun _ =>
    Command.keepsSiteOnFailure_action _ _

/-- Settings that can be read are loaded, whatever the command. -/
theorem perform_loadSettings_of_ok (around : Surroundings) (i : Invocation) {site : Site}
    {s : Settings} (hs : site.settings = .ok s) :
    (i.loadSettings around).perform (.start site) =
      (.ok s, ⟨site, [], loadLog around.path site⟩) := by
  have load : (Sieve.loadSettings around.path).perform (.start site) =
      (.ok s, ⟨site, [], loadLog around.path site⟩) := by
    simp [Sieve.loadSettings, perform_bind, World.start, hs]
  unfold Invocation.loadSettings
  split
  · rw [perform_tryCatch, load]
  · exact load

end Invocation

/-- The site of an outcome is that of the world left behind. -/
@[simp] theorem Outcome.site_ofResult (switches : Switches) (r : Except Failure Unit × World) :
    (Outcome.ofResult switches r).site = r.2.site := by
  rcases r with ⟨e | _, w⟩ <;> rfl

/-- A run exits with 0 exactly if it does not fail. -/
theorem Outcome.status_ofResult_eq_zero_iff (switches : Switches)
    (r : Except Failure Unit × World) :
    (Outcome.ofResult switches r).status = 0 ↔ r.1 = .ok () := by
  rcases r with ⟨e | _, w⟩
  · simpa [Outcome.ofResult] using e.status_ne_zero
  · simp [Outcome.ofResult]

/-- A run exits with 0 and leaves a site behind exactly if its steps do. -/
theorem run_leaves_iff {around : Surroundings} {i : Invocation} {site after : Site} :
    (run around i site).status = 0 ∧ (run around i site).site = after ↔
      (i.action around).Leaves (.start site) after := by
  rw [run, Outcome.status_ofResult_eq_zero_iff, Outcome.site_ofResult, Leaves]
  rcases (i.action around).perform (.start site) with ⟨e | u, w⟩ <;> simp

theorem run_keeps_site (around : Surroundings) {i : Invocation} (site : Site)
    (h : i.command.writesSettings = false) : (run around i site).site = site := by
  rw [run, Outcome.site_ofResult]
  exact Invocation.keepsSite_action around h (.start site)

theorem run_keeps_site_of_failure {around : Surroundings} {i : Invocation} {site : Site}
    (h : (run around i site).status ≠ 0) : (run around i site).site = site := by
  rw [run, ne_eq, Outcome.status_ofResult_eq_zero_iff] at h
  rw [run, Outcome.site_ofResult]
  rcases hr : (i.action around).perform (.start site) with ⟨e | u, w⟩
  · exact i.keepsSiteOnFailure_action around _ e w hr
  · exact absurd (by rw [hr]) h

/-- **A command line that fails leaves the settings file alone, and so does every one but those
that are there to write it.**  This holds for every state of the path and every command line,
also one that cannot be read. -/
theorem respond_keeps_site (around : Surroundings) (line : List Text) (site : Site) :
    ((respond around line site).status ≠ 0 → (respond around line site).site = site) ∧
    ((∀ i, Invocation.read line = .ok i → i.command.writesSettings = false) →
      (respond around line site).site = site) := by
  unfold respond
  cases hr : Invocation.read line with
  | error ending => exact ⟨fun _ => rfl, fun _ => rfl⟩
  | ok i => exact ⟨run_keeps_site_of_failure, fun h => run_keeps_site around site (h i rfl)⟩

/-- A broken file is let pass at the start and refused by the command itself, and it stays as it
is; showing its path succeeds, and it stays as it is. -/
theorem respond_keeps_site_broken :
    let around : Surroundings := ⟨"crq.toml".toList, false⟩
    let set := ["config".toList, "set".toList, "page.size".toList, "5".toList]
    let path := ["config".toList, "path".toList]
    let broken := Site.text "size = \n".toList
    ((respond around set broken).status ≠ 0 ∧ (respond around set broken).site = broken) ∧
    ((respond around path broken).status = 0 ∧ (respond around path broken).site = broken) := by
  intro around set path broken
  have reads : ∀ i, Invocation.read path = .ok i → i.command.writesSettings = false := by
    intro i hi
    have : Invocation.read path = .ok ⟨{}, .showPath⟩ := rfl
    cases this.symm.trans hi
    rfl
  refine ⟨⟨by decide, (respond_keeps_site around set broken).1 (by decide)⟩, by decide, ?_⟩
  exact (respond_keeps_site around path broken).2 reads

end Sieve
