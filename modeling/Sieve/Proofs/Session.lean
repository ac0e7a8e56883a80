/-
# Sessions

A session is any number of calls of the tool, one after the other, with whatever command lines.
All that it does to the settings can be told without files: there is a map of four settings, each
of which may be unset; changing a setting overwrites it there, creating the file empties the map,
and nothing else touches it.

* `SettingMap`, `Command.effect`: the map, and what a command that succeeds does to it;
* `Command.effect_assignSetting_iff`: the same for a change, by the list of names and values;
* `Call.step`: one call, at a site whose settings can be read;
* `session_refines_map`: a whole session.
-/
import Sieve.Proofs.Actions
import Sieve.Proofs.SettingNames
import Sieve.Proofs.SettingsFile
import Mathlib.Logic.Function.Basic

namespace Sieve

open Settings (Key)
open Sieve.Action

/-! ## 1. The map -/

/-- For each setting its value, or nothing if it is unset. -/
abbrev SettingMap := (k : Key) → Option k.Value

namespace Settings

/-- The settings without their version. -/
def toMap (s : Settings) : SettingMap
  | .normalize => s.normalize
  | .strict => s.strict
  | .size => s.size
  | .color => s.color

@[simp] theorem version_set (s : Settings) (k : Key) (v : k.Value) :
    (s.set k v).version = s.version := by
  cases k <;> rfl

/-- Setting one leaves the other three as they are. -/
@[simp] theorem toMap_set (s : Settings) (k : Key) (v : k.Value) :
    (s.set k v).toMap = Function.update s.toMap k (some v) := by
  funext j
  cases k <;> cases j <;> rfl

@[simp] theorem toMap_unset : unset.toMap = fun _ => none := by
  funext k
  cases k <;> rfl

end Settings

/-! ## 2. Calls -/

/-- What a command does to the map if it succeeds. None if it cannot succeed. -/
def Command.effect (m : SettingMap) : Command → Option SettingMap
  | .createSettings _ => some fun _ => none
  | .assignSetting name value => do
    let k ← Key.ofName? name
    let v ← (k.read value).toOption
    return Function.update m k (some v)
  | _ => some m

/-- **What a change does to the map**, told by the list of names and values. -/
theorem Command.effect_assignSetting_iff {m m' : SettingMap} {name value : Text} :
    (Command.assignSetting name value).effect m = some m' ↔
      ∃ k v, Settings.Assigns name value k v ∧ Function.update m k (some v) = m' := by
  have hread (k : Key) (v : k.Value) :
      (k.read value).toOption = some v ↔ k.read value = .ok v := by
    cases k.read value <;> simp [Except.toOption]
  simp only [effect, Option.bind_eq_bind, Option.bind_eq_some_iff, hread, Option.pure_def,
    Option.some.injEq, Settings.assigns_iff]
  constructor
  · rintro ⟨k, hk, v, hv, h⟩
    exact ⟨k, v, ⟨hk, hv⟩, h⟩
  · rintro ⟨k, v, ⟨hk, hv⟩, h⟩
    exact ⟨k, hk, v, hv, h⟩

/-- One call of the tool. -/
structure Call where
  around : Surroundings
  line : List Text
  deriving DecidableEq, Repr

namespace Call

/-- What the call leaves behind. -/
def outcome (c : Call) (site : Site) : Outcome := respond c.around c.line site

/-- What the call does to the map, given the status that it exits with. -/
def effect (m : SettingMap) (c : Call) (status : Nat) : Option SettingMap :=
  match Invocation.read c.line with
  | .ok i => if status = 0 then i.command.effect m else some m
  | .error _ => some m

end Call

/-- The calls of a session with the statuses that they exit with, and the site that the last one
leaves behind. -/
def session (site : Site) : List Call → List (Call × Nat) × Site
  | [] => ([], site)
  | c :: more =>
    let (later, last) := session (c.outcome site).site more
    ((c, (c.outcome site).status) :: later, last)

/-- What a session does to the map, told from its calls and their statuses. -/
def effects (m : SettingMap) (calls : List (Call × Nat)) : Option SettingMap :=
  calls.foldlM (fun m e => e.1.effect m e.2) m

/-! ## 3. What the commands write -/

/-- Whether a file can be written at the site. -/
def Site.takesFile : Site → Bool
  | missing | text _ | binary _ => true
  | directory | blocked => false

/-- Making the directory and writing the file succeed together, or not at all. -/
theorem Site.makeDirectory_write_iff {site after : Site} {refusal : Text → SettingsError}
    {content : Text} :
    ((∃ u, site.makeDirectory = .ok u) ∧
        ∃ written, site.write refusal content = .ok written ∧ written = after) ↔
      site.takesFile = true ∧ .text content = after := by
  cases site <;> simp [makeDirectory, write, takesFile]

theorem Site.allowNew_iff {site : Site} {path : Text} {force : Bool} :
    (∃ u, site.allowNew path force = .ok u) ↔ (site.exists? = true → force = true) := by
  unfold allowNew
  cases site.exists? <;> cases force <;> simp

theorem Settings.encode_eq_ok_iff {s : Settings} {content : Text} :
    s.encode = .ok content ↔ Text.fitsInt64 (s.size.getD 0) = true ∧ s.toText = content := by
  unfold encode
  split <;> simp [*]

/-- Creating the file succeeds where a file can be written, unless there is one and nothing forces
it. The file is the one for a new user. -/
theorem createSettings_leaves_iff {ctx : Context} {force : Bool} {w : World} {after : Site} :
    (createSettings ctx force).Leaves w after ↔
      w.site.takesFile = true ∧ (w.site.exists? = true → force = true) ∧
        .text Settings.template = after := by
  simp only [createSettings, leaves_site, leaves_ofSettings, leaves_write, Context.present,
    leaves_print, exists_and_right, Site.makeDirectory_write_iff, Site.allowNew_iff]
  exact and_left_comm

/-- Changing a setting succeeds where a file can be written, if the settings can be read, the
change makes sense and its result has room in the file. -/
theorem assignSetting_leaves_iff {ctx : Context} {name value : Text} {w : World} {after : Site} :
    (assignSetting ctx name value).Leaves w after ↔
      w.site.takesFile = true ∧ ∃ s t, w.site.settings = .ok s ∧ s.assign name value = .ok t ∧
        Text.fitsInt64 (t.size.getD 0) = true ∧ .text t.toText = after := by
  simp only [assignSetting, loadSettings, saveSettings, bind_assoc, leaves_site, leaves_note,
    leaves_ofSettings, leaves_write, Context.present, leaves_print, Settings.encode_eq_ok_iff]
  constructor
  · rintro ⟨s, hs, t, ht, _, hdir, _, ⟨hfits, rfl⟩, hwrite⟩
    obtain ⟨htakes, rfl⟩ := Site.makeDirectory_write_iff.mp ⟨⟨_, hdir⟩, hwrite⟩
    exact ⟨htakes, s, t, hs, ht, hfits, rfl⟩
  · rintro ⟨htakes, s, t, hs, ht, hfits, rfl⟩
    obtain ⟨⟨u, hdir⟩, hwrite⟩ := Site.makeDirectory_write_iff.mpr ⟨htakes, rfl⟩
    exact ⟨s, hs, t, ht, u, hdir, _, ⟨hfits, rfl⟩, hwrite⟩

/-! ## 4. One call -/

/-- The site takes a file, and these settings are in force there. -/
structure Site.Holds (site : Site) (s : Settings) : Prop where
  takesFile : site.takesFile = true
  settings : site.settings = .ok s

theorem Command.effect_of_writesSettings {c : Command} (m : SettingMap)
    (h : c.writesSettings = false) : c.effect m = some m := by
  cases c <;> first | rfl | cases h

/-- What a command that succeeds does to the settings is what it does to the map. -/
theorem Command.effect_of_leaves {ctx : Context} {c : Command} {w : World} {after : Site}
    {s : Settings} (hs : w.site.Holds s) (h : (c.action ctx).Leaves w after) :
    ∃ t, after.Holds t ∧ c.effect s.toMap = some t.toMap := by
  cases hc : c.writesSettings with
  | false =>
    obtain ⟨w', hw, rfl⟩ := h
    have keeps := c.keepsSite_action ctx hc w
    rw [hw] at keeps
    exact ⟨s, by rwa [keeps], c.effect_of_writesSettings _ hc⟩
  | true =>
    cases c with
    | createSettings force =>
      obtain ⟨-, -, rfl⟩ := createSettings_leaves_iff.mp h
      exact ⟨.unset, ⟨rfl, Site.settings_template⟩, by rw [Settings.toMap_unset]; rfl⟩
    | assignSetting name value =>
      obtain ⟨-, s', t, hs', ht, hfits, rfl⟩ := assignSetting_leaves_iff.mp h
      cases hs.settings.symm.trans hs'
      obtain ⟨k, v, hassigns, rfl⟩ := Settings.assign_eq_ok_iff_exists_assigns.mp ht
      have version : (s.set k v).version = Settings.currentVersion := by
        rw [Settings.version_set, Site.version_of_settings hs.settings]
      exact ⟨s.set k v, ⟨rfl, Site.settings_toText version hfits⟩,
        Command.effect_assignSetting_iff.mpr ⟨k, v, hassigns, (s.toMap_set k v).symm⟩⟩
    | _ => cases hc

/-- Where settings can be read, an invocation comes to its command. -/
theorem run_leaves_iff_of_settings (around : Surroundings) (i : Invocation) {site after : Site}
    {s : Settings} (hs : site.settings = .ok s) :
    (run around i site).status = 0 ∧ (run around i site).site = after ↔
      (i.command.action (.new around i.switches s)).Leaves
        ⟨site, [], loadLog around.path site⟩ after := by
  rw [run_leaves_iff, Invocation.action,
    leaves_bind (i.perform_loadSettings_of_ok around hs)]

/-- **One call does to the settings what it does to the map.** -/
theorem Call.step (c : Call) {site : Site} {s : Settings} (hs : site.Holds s) :
    ∃ t, (c.outcome site).site.Holds t ∧
      c.effect s.toMap (c.outcome site).status = some t.toMap := by
  unfold Call.outcome Call.effect respond
  cases Invocation.read c.line with
  | error ending => exact ⟨s, hs, rfl⟩
  | ok i =>
    by_cases zero : (run c.around i site).status = 0
    · have leaves := (run_leaves_iff_of_settings c.around i hs.settings).mp ⟨zero, rfl⟩
      obtain ⟨t, ht, effect⟩ := Command.effect_of_leaves hs leaves
      exact ⟨t, ht, by simpa [zero] using effect⟩
    · exact ⟨s, by rwa [run_keeps_site_of_failure zero], by simp [zero]⟩

/-- A change of a setting is made exactly if it makes sense and its result has room in the file. -/
theorem status_assignSetting_eq_zero_iff (around : Surroundings) (switches : Switches)
    {site : Site} {s : Settings} (hs : site.Holds s) (name value : Text) :
    (run around ⟨switches, .assignSetting name value⟩ site).status = 0 ↔
      ∃ t, s.assign name value = .ok t ∧ Text.fitsInt64 (t.size.getD 0) = true := by
  let i : Invocation := ⟨switches, .assignSetting name value⟩
  have leaves (after : Site) :
      (run around i site).status = 0 ∧ (run around i site).site = after ↔ _ :=
    (run_leaves_iff_of_settings around i hs.settings).trans assignSetting_leaves_iff
  constructor
  · intro zero
    obtain ⟨-, s', t, hs', ht, hfits, -⟩ := (leaves _).mp ⟨zero, rfl⟩
    cases hs.settings.symm.trans hs'
    exact ⟨t, ht, hfits⟩
  · rintro ⟨t, ht, hfits⟩
    exact ((leaves _).mpr ⟨hs.takesFile, s, t, hs.settings, ht, hfits, rfl⟩).1

/-! ## 5. Sessions -/

/-- The steps one after the other. -/
theorem session_effects {site : Site} {s : Settings} (hs : site.Holds s) (calls : List Call) :
    ∃ t, (session site calls).2.Holds t ∧
      effects s.toMap (session site calls).1 = some t.toMap := by
  induction calls generalizing site s with
  | nil => exact ⟨s, hs, rfl⟩
  | cons c more ih =>
    obtain ⟨t, ht, step⟩ := c.step hs
    obtain ⟨last, hlast, rest⟩ := ih ht
    refine ⟨last, hlast, ?_⟩
    simp only [session, effects, List.foldlM_cons, step, Option.bind_eq_bind, Option.bind_some]
    exact rest

/-- **Files do not show: a session does to the settings what its successful calls do to a map.**
It may start without a file or with any file that can be read.  At every later point the settings
can be read; they are of the current version, and each of them is what the map has for it, unset
ones included.  A change of a setting is made exactly if its name is known, its text has a value,
and TOML has room for the result. -/
theorem session_refines_map {site : Site} {s : Settings} (hs : site.Holds s)
    (calls : List Call) :
    ∃ t, (session site calls).2.Holds t ∧ t.version = 1 ∧
      effects s.toMap (session site calls).1 = some t.toMap ∧
      ∀ around switches name value,
        (run around ⟨switches, .assignSetting name value⟩ (session site calls).2).status = 0 ↔
          ∃ u, t.assign name value = .ok u ∧ Text.fitsInt64 (u.size.getD 0) = true := by
  obtain ⟨t, ht, effects⟩ := session_effects hs calls
  refine ⟨t, ht, Site.version_of_settings ht.settings, effects, ?_⟩
  intro around switches name value
  exact status_assignSetting_eq_zero_iff around switches ht name value

/-- Two settings are changed, the file is not created again, a size is beyond TOML and another is
no size, a command fails; then the file is created anew and other settings are changed. -/
theorem session_refines_map_mixed :
    let calls : List Call :=
      [["config", "set", "filter.strict", "Yes"], ["config", "set", "page.size", "50"],
        ["config", "init"], ["config", "set", "page.size", "9223372036854775808"],
        ["config", "set", "page.size", "0"], ["parse", "a ="], ["config", "init", "--force"],
        ["--json", "config", "set", "output.color", "off"],
        ["config", "set", "page.size", "+7"]].map
        fun line => ⟨⟨"crq.toml".toList, true⟩, line.map String.toList⟩
    let last : Settings := ⟨1, none, none, some 7, some false⟩
    Site.missing.Holds .unset ∧
      session .missing calls = (calls.zip [0, 0, 5, 5, 5, 1, 0, 0, 0], .text last.toText) ∧
      (session .missing calls).2.Holds last ∧
      effects Settings.unset.toMap (session .missing calls).1 = some last.toMap := by
  intro calls last
  have start : Site.missing.Holds .unset := ⟨rfl, rfl⟩
  have run : session .missing calls =
      (calls.zip [0, 0, 5, 5, 5, 1, 0, 0, 0], .text last.toText) := by decide +kernel
  obtain ⟨t, ht, -, effects, -⟩ := session_refines_map start calls
  have settings : (session .missing calls).2.settings = .ok last := by
    rw [run]
    exact Site.settings_toText rfl rfl
  cases ht.settings.symm.trans settings
  exact ⟨start, run, ht, effects⟩

end Sieve
