/-
# The switch that makes a run strict

Where it stands on a command line does not matter; in front of the line it can always be put.
Every step of the reading only looks for the switch when it comes upon it again, so a line that
is read without it is read with it to the same command, and all other switches stay.

* `Found.strictly`, `Invocation.strictly`: with the switch;
* `readLine_strictly`: the rest of a line, read with the switch already found;
* `Invocation.read_strict_cons`: the line with the switch in front.
-/
import Sieve.Command.Respond
import Sieve.Proofs.Provenance

namespace Sieve

/-! ## 1. Adding to what was found -/

namespace Found

variable {f g : Found}

theorem addArgument_eq_ok_iff {s : Text} :
    f.addArgument s = .ok g ↔
      (∃ p, f.place? = some p ∧ p.admits s = true) ∧
        { f with arguments := f.arguments ++ [s] } = g := by
  unfold addArgument
  cases f.place? with
  | none => simp
  | some p => by_cases hp : p.admits s = true <;> simp [hp]

theorem addSwitch_eq_ok_iff {x : Switch} :
    f.addSwitch x = .ok g ↔
      (x ≠ .help ∧ x ≠ .version ∧ x ∉ f.switches) ∧
        { f with switches := f.switches ++ [x] } = g := by
  by_cases hx : x ∈ f.switches <;> cases x <;> simp [addSwitch, hx]

theorem addOption_eq_ok_iff {o : Opt} {s : Text} :
    f.addOption o s = .ok g ↔
      (f.options.lookup o = none ∧ o.admits s = true) ∧
        { f with options := f.options ++ [(o, s)] } = g := by
  unfold addOption
  cases f.options.lookup o <;> cases o.admits s <;> simp

theorem close_eq_ok_iff :
    f.close = .ok g ↔
      (f.level.places.length ≤ f.arguments.length ∧
        ¬(.verbose ∈ f.switches ∧ .quiet ∈ f.switches)) ∧ f = g := by
  unfold close
  split
  · simp; omega
  · split <;> simp_all

/-! ## 2. The switch in front -/

/-- The same, with the switch found before all else. -/
def strictly (f : Found) : Found := { f with switches := .strict :: f.switches }

/-- The switch was not found. -/
def IsLenient (f : Found) : Prop := Switch.strict ∉ f.switches

@[simp] theorem level_strictly : f.strictly.level = f.level := rfl

@[simp] theorem arguments_strictly : f.strictly.arguments = f.arguments := rfl

@[simp] theorem mem_switches_strictly {x : Switch} :
    x ∈ f.strictly.switches ↔ x = .strict ∨ x ∈ f.switches := List.mem_cons

theorem addArgument_strictly {s : Text} (h : f.addArgument s = .ok g) (hg : g.IsLenient) :
    f.IsLenient ∧ f.strictly.addArgument s = .ok g.strictly := by
  obtain ⟨place, rfl⟩ := addArgument_eq_ok_iff.mp h
  exact ⟨hg, addArgument_eq_ok_iff.mpr ⟨place, rfl⟩⟩

theorem addOption_strictly {o : Opt} {s : Text} (h : f.addOption o s = .ok g) (hg : g.IsLenient) :
    f.IsLenient ∧ f.strictly.addOption o s = .ok g.strictly := by
  obtain ⟨new, rfl⟩ := addOption_eq_ok_iff.mp h
  exact ⟨hg, addOption_eq_ok_iff.mpr ⟨new, rfl⟩⟩

theorem addSwitch_strictly {x : Switch} (h : f.addSwitch x = .ok g) (hg : g.IsLenient) :
    f.IsLenient ∧ f.strictly.addSwitch x = .ok g.strictly := by
  obtain ⟨⟨help, version, new⟩, rfl⟩ := addSwitch_eq_ok_iff.mp h
  have lenient : f.IsLenient := fun hf => hg (List.mem_append_left _ hf)
  have other : x ≠ .strict := fun hx => hg (List.mem_append_right _ (by simp [hx]))
  exact ⟨lenient, addSwitch_eq_ok_iff.mpr ⟨⟨help, version, by simp [other, new]⟩, rfl⟩⟩

theorem close_strictly (h : f.close = .ok g) : f = g ∧ f.strictly.close = .ok g.strictly := by
  obtain ⟨complete, rfl⟩ := close_eq_ok_iff.mp h
  exact ⟨rfl, close_eq_ok_iff.mpr ⟨by simpa using complete, rfl⟩⟩

end Found

/-! ## 3. Reading with the switch found -/

namespace Reading

/-- The same reading, with the switch found before it. -/
def strictly : Reading → Reading
  | done g => done g.strictly
  | wants g o => wants g.strictly o
  | plain => plain

/-- The switch was found neither before the reading nor in it. -/
def IsLenient (f : Found) : Reading → Prop
  | done g | wants g _ => g.IsLenient
  | plain => f.IsLenient

end Reading

variable {f g : Found}

theorem readPlain_strictly {args : List Text} (h : readPlain f args = .ok g) (hg : g.IsLenient) :
    f.IsLenient ∧ readPlain f.strictly args = .ok g.strictly := by
  induction args generalizing f with
  | nil =>
    cases h
    exact ⟨hg, rfl⟩
  | cons s more ih =>
    obtain ⟨f', ha, h⟩ := bind_eq_ok_iff.mp h
    obtain ⟨hf', rest⟩ := ih h
    obtain ⟨hf, first⟩ := Found.addArgument_strictly ha hf'
    exact ⟨hf, bind_eq_ok_iff.mpr ⟨f'.strictly, first, rest⟩⟩

/-- What is added is a complete reading, with the switch as without it. -/
theorem map_done_strictly {a b : Except Ending Found} {r : Reading}
    (hab : ∀ {g}, a = .ok g → g.IsLenient → f.IsLenient ∧ b = .ok g.strictly)
    (h : a.map .done = .ok r) (hr : r.IsLenient f) :
    f.IsLenient ∧ b.map .done = .ok r.strictly := by
  cases a with
  | error e => cases h
  | ok g =>
    cases h
    obtain ⟨hf, rfl⟩ := hab rfl hr
    exact ⟨hf, rfl⟩

theorem readLong_strictly {s : Text} {r : Reading} (h : readLong f s = .ok r)
    (hr : r.IsLenient f) : f.IsLenient ∧ readLong f.strictly s = .ok r.strictly := by
  unfold readLong at h ⊢
  rw [Found.level_strictly]
  split at h
  next name attached _ =>
    split at h
    · exact map_done_strictly Found.addSwitch_strictly h hr
    · cases h
    · exact map_done_strictly Found.addOption_strictly h hr
    · cases h
      exact ⟨hr, rfl⟩
    · split at h
      · next hyphens =>
        cases h
        exact ⟨hr, if_pos hyphens⟩
      · cases h

/-- Letters are never a plain argument. -/
theorem readLetters_ne_plain (f : Found) (s : Text) : readLetters f s ≠ .ok .plain := by
  fun_induction readLetters f s with
  | case2 f c s x hx g hg ih => exact ih
  | case5 f c o ho hx value => cases f.addOption o value <;> simp [Except.map]
  | case6 f c o ho hx value => cases f.addOption o value <;> simp [Except.map]
  | _ => simp

theorem readLetters_strictly {s : Text} {r : Reading} (h : readLetters f s = .ok r)
    (hr : r.IsLenient f) : f.IsLenient ∧ readLetters f.strictly s = .ok r.strictly := by
  fun_induction readLetters f s with
  | case1 f =>
    cases h
    exact ⟨hr, rfl⟩
  | case2 f c s x hx g hg ih =>
    have hr' : r.IsLenient g := by
      cases r with
      | plain => exact absurd h (readLetters_ne_plain g s)
      | _ => exact hr
    obtain ⟨hg', rest⟩ := ih h hr'
    obtain ⟨hf, add⟩ := Found.addSwitch_strictly hg hg'
    exact ⟨hf, by simp [readLetters, hx, add, rest]⟩
  | case3 f c s x hx e hg => cases h
  | case4 f c o ho hx =>
    cases h
    exact ⟨hr, by simp [readLetters, ho, hx, Reading.strictly]⟩
  | case5 f c o ho hx value =>
    obtain ⟨hf, add⟩ := map_done_strictly Found.addOption_strictly h hr
    exact ⟨hf, by simp [readLetters, ho, hx, add]⟩
  | case6 f c o ho hx value nonempty unequal =>
    obtain ⟨hf, add⟩ := map_done_strictly Found.addOption_strictly h hr
    exact ⟨hf, by simp [readLetters, ho, hx, add]⟩
  | case7 f c s ho hx => cases h

theorem readArgument_strictly {s : Text} {r : Reading} (h : readArgument f s = .ok r)
    (hr : r.IsLenient f) : f.IsLenient ∧ readArgument f.strictly s = .ok r.strictly := by
  unfold readArgument at h ⊢
  split at h
  · exact readLong_strictly h hr
  · next c s =>
    split at h
    · next plain =>
      cases h
      exact ⟨hr, if_pos plain⟩
    · next letters =>
      obtain ⟨hf, read⟩ := readLetters_strictly h hr
      exact ⟨hf, (if_neg letters).trans read⟩
  · cases h
    exact ⟨hr, rfl⟩

/-! ## 4. The line -/

/-- The rest of a line, read with the switch already found. -/
theorem readLine_strictly {args : List Text} {found : List Found}
    (h : readLine f args = .ok found) (hfound : ∀ g ∈ found, g.IsLenient) :
    f.IsLenient ∧
      ∃ g inner, found = g :: inner ∧ readLine f.strictly args = .ok (g.strictly :: inner) := by
  -- The switch is absent from what is found at the end, and nothing that was found is dropped.  So
  -- each case first takes that back to the step at hand, which then cannot be about the switch.
  fun_induction readLine f args generalizing found with
  | case1 f =>
    obtain ⟨g, hg, hlast⟩ := bind_eq_ok_iff.mp h
    cases hlast
    obtain ⟨rfl, close⟩ := Found.close_strictly hg
    exact ⟨hfound f (by simp), f, [], rfl, by simp only [readLine, close]; rfl⟩
  | case2 f s more below hbelow ih =>
    obtain ⟨inner, hinner, h⟩ := bind_eq_ok_iff.mp h
    obtain ⟨g, hg, hlast⟩ := bind_eq_ok_iff.mp h
    cases hlast
    obtain ⟨rfl, close⟩ := Found.close_strictly hg
    exact ⟨hfound f (by simp), f, inner, rfl, by
      simp only [readLine, Found.level_strictly, hbelow, hinner, close]
      rfl⟩
  | case3 f s more hs help => cases h
  | case4 f more hs help =>
    obtain ⟨f', hplain, h⟩ := bind_eq_ok_iff.mp h
    obtain ⟨g, hg, hlast⟩ := bind_eq_ok_iff.mp h
    cases hlast
    obtain ⟨rfl, close⟩ := Found.close_strictly hg
    obtain ⟨hf, plain⟩ := readPlain_strictly hplain (hfound f' (by simp))
    exact ⟨hf, f', [], rfl, by
      simp only [readLine, Found.level_strictly, hs, help, plain, ↓reduceIte]
      exact bind_eq_ok_iff.mpr ⟨_, rfl, bind_eq_ok_iff.mpr ⟨_, close, rfl⟩⟩⟩
  | case5 f s more hs help plain e hread => cases h
  | case6 f s more hs help plain f' hread ih =>
    obtain ⟨hf', g, inner, rfl, rest⟩ := ih h hfound
    obtain ⟨hf, read⟩ := readArgument_strictly hread hf'
    exact ⟨hf, g, inner, rfl, by
      simp only [readLine, Found.level_strictly, hs, help, plain, read, Reading.strictly, rest,
        ↓reduceIte]⟩
  | case7 f s more hs help plain hread f' hadd ih =>
    obtain ⟨hf', g, inner, rfl, rest⟩ := ih h hfound
    obtain ⟨hf, add⟩ := Found.addArgument_strictly hadd hf'
    obtain ⟨-, read⟩ := readArgument_strictly hread hf
    exact ⟨hf, g, inner, rfl, by
      simp only [readLine, Found.level_strictly, hs, help, plain, read, Reading.strictly, add, rest,
        ↓reduceIte]⟩
  | case8 f s more hs help plain hread e hadd => cases h
  | case9 f s hs help plain f' o hread => cases h
  | case10 f s hs help plain f' o hread value more takes f'' hadd ih =>
    obtain ⟨hf'', g, inner, rfl, rest⟩ := ih h hfound
    obtain ⟨hf', add⟩ := Found.addOption_strictly hadd hf''
    obtain ⟨hf, read⟩ := readArgument_strictly hread hf'
    exact ⟨hf, g, inner, rfl, by
      simp only [readLine, Found.level_strictly, hs, help, plain, read, Reading.strictly, takes,
        add, rest, ↓reduceIte]⟩
  | case11 f s hs help plain f' o hread value more takes e hadd => cases h
  | case12 f s hs help plain f' o hread value more takes => cases h

/-! ## 5. The command -/

theorem Found.command_strictly (f : Found) : f.strictly.command = f.command := by
  obtain ⟨level, switches, options, arguments⟩ := f
  cases level <;> rfl

theorem getLast?_map_command_strictly (g : Found) (inner : List Found) :
    (g.strictly :: inner).getLast?.map Found.command =
      (g :: inner).getLast?.map Found.command := by
  cases inner with
  | nil => simp [Found.command_strictly]
  | cons g' inner => rw [List.getLast?_cons_cons, List.getLast?_cons_cons]

theorem switchesOf_strictly (g : Found) (inner : List Found) :
    switchesOf (g.strictly :: inner) = { switchesOf (g :: inner) with strict := true } := by
  simp [switchesOf, Found.strictly]

/-- The invocation with the switch. -/
def Invocation.strictly (i : Invocation) : Invocation :=
  { i with switches := { i.switches with strict := true } }

/-- **A line that is read without the switch is read with the switch in front of it, and nothing
else changes.** -/
theorem Invocation.read_strict_cons {line : List Text} {i : Invocation}
    (h : Invocation.read line = .ok i) (hi : i.switches.strict = false) :
    Invocation.read ("--strict".toList :: line) = .ok i.strictly := by
  obtain ⟨found, hfound, hlast⟩ := bind_eq_ok_iff.mp h
  cases hlast
  have lenient : ∀ g ∈ found, g.IsLenient := by
    simpa [switchesOf, Found.IsLenient] using hi
  obtain ⟨-, g, inner, rfl, strictly⟩ := readLine_strictly hfound lenient
  have front : readLine (.start .root) ("--strict".toList :: line) =
      readLine (Found.start .root).strictly line := rfl
  refine bind_eq_ok_iff.mpr ⟨_, front.trans strictly, ?_⟩
  rw [switchesOf_strictly, getLast?_map_command_strictly]
  rfl

end Sieve
