/-
# The names and values of settings

A setting is changed by its name and a text for its value.  Which these are is listed here, apart
from the functions that read them: there are four names, letter by letter; a truth value has four
words, any letter of which may be a capital; and a size is a positive number of 64 bits, with any
zeros in front and a plus in front of these if one likes.

* `Settings.Assigns`: the list;
* `Settings.readBool_eq_ok_iff`, `Settings.readSize_eq_ok_iff`: the texts that have a value;
* `Settings.assigns_iff`: what is listed is what is read;
* `Settings.assign_eq_ok_iff_exists_assigns`: a change succeeds for what is listed.
-/
import Sieve.Proofs.Decimal
import Sieve.Proofs.Spelling
import Sieve.Settings.Basic

namespace Sieve

namespace Settings

/-! ## 1. Letters in either case -/

theorem toNat_toLower (c : Char) : c.toLower.toNat =
    if 65 ≤ c.toNat ∧ c.toNat ≤ 90 then c.toNat + 32 else c.toNat := by
  have hiff : ('A'.val ≤ c.val ∧ c.val ≤ 'Z'.val) ↔ (65 ≤ c.toNat ∧ c.toNat ≤ 90) := Iff.rfl
  unfold Char.toLower
  by_cases h : 65 ≤ c.toNat ∧ c.toNat ≤ 90
  · rw [dif_pos (hiff.mpr h), if_pos h]
    have hadd : ('a'.val - 'A'.val).toNat = 32 := by decide
    simp only [Char.toNat_mk, UInt32.toNat_add, hadd, Char.toNat_val]
    omega
  · rw [dif_neg (fun h' => h (hiff.mp h')), if_neg h]

/-- The characters with a given small form, which is no capital. -/
theorem toLower_eq_iff {c d : Char} (hd : ¬ Keyword.IsCapital d) :
    c.toLower = d ↔ c = d ∨ c = d.toUpper := by
  have hlow := toNat_toLower c
  have hup := Keyword.toNat_toUpper d
  unfold Keyword.IsCapital at hd
  rw [← Char.toNat_inj, ← Char.toNat_inj, ← Char.toNat_inj, hlow, hup]
  split <;> split <;> omega

/-- A text with a given small form, letter by letter. -/
theorem asciiLower_eq_iff {s w : Text} (hw : ∀ d ∈ w, ¬ Keyword.IsCapital d) :
    Text.asciiLower s = w ↔ List.Forall₂ (fun c d => c = d ∨ c = d.toUpper) s w := by
  induction w generalizing s with
  | nil => simp [Text.asciiLower]
  | cons d w ih =>
    obtain ⟨hd, hw⟩ := List.forall_mem_cons.mp hw
    cases s with
    | nil => simp [Text.asciiLower]
    | cons c s =>
      rw [List.forall₂_cons, ← toLower_eq_iff hd, ← ih hw]
      exact List.cons_eq_cons

/-! ## 2. Values -/

/-- The words for a truth value. -/
def truthWords : Bool → List Text
  | true => ["true".toList, "yes".toList, "1".toList, "on".toList]
  | false => ["false".toList, "no".toList, "0".toList, "off".toList]

/-- The text is one of the words, each letter small or a capital. -/
def IsTruth (b : Bool) (s : Text) : Prop :=
  ∃ w ∈ truthWords b, List.Forall₂ (fun c d => c = d ∨ c = d.toUpper) s w

theorem isTruth_iff {b : Bool} {s : Text} : IsTruth b s ↔ Text.asciiLower s ∈ truthWords b := by
  have small : ∀ w ∈ truthWords b, ∀ d ∈ w, ¬ Keyword.IsCapital d := by
    cases b <;> simp [truthWords, Keyword.IsCapital]
  constructor
  · rintro ⟨w, hw, hs⟩
    rwa [(asciiLower_eq_iff (small w hw)).mpr hs]
  · intro h
    exact ⟨_, h, (asciiLower_eq_iff (small _ h)).mp rfl⟩

theorem readBool_eq_ok_iff {s : Text} {b : Bool} : readBool s = .ok b ↔ IsTruth b s := by
  have equation : readBool s =
      if (truthWords true).contains (Text.asciiLower s) then .ok true
      else if (truthWords false).contains (Text.asciiLower s) then .ok false
      else .error (.notBoolean s) := rfl
  -- no word stands for both
  have disjoint : ∀ w ∈ truthWords true, w ∉ truthWords false := by decide
  simp only [List.contains_iff_mem] at equation
  rw [equation, isTruth_iff]
  by_cases htrue : Text.asciiLower s ∈ truthWords true
  · have hfalse := disjoint _ htrue
    cases b <;> simp [htrue, hfalse]
  · by_cases hfalse : Text.asciiLower s ∈ truthWords false <;> cases b <;> simp [htrue, hfalse]

/-- The text is the decimal text of a positive number of 64 bits, behind any zeros and perhaps a
plus. -/
def IsSize (n : Nat) (s : Text) : Prop :=
  (0 < n ∧ n ≤ 18446744073709551615) ∧
    ∃ k, s = List.replicate k '0' ++ Text.decimal n ∨
      s = '+' :: (List.replicate k '0' ++ Text.decimal n)

/-- Digits are all of a text, or all behind its plus. -/
theorem unsignedDigits_eq_iff {s ds : Text} (hds : ∀ c ∈ ds, c.isDigit = true) :
    unsignedDigits s = ds ↔ s = ds ∨ s = '+' :: ds := by
  constructor
  · intro h
    unfold unsignedDigits at h
    split at h
    · exact Or.inr (by rw [h])
    · exact Or.inl h
  · rintro (rfl | rfl)
    · cases s with
      | nil => rfl
      | cons c r =>
        have hplus : c ≠ '+' := Text.ne_of_isDigit (hds c (by simp)) rfl
        simp [unsignedDigits, hplus]
    · rfl

theorem readSize_eq_ok_iff {s : Text} {n : Nat} : readSize s = .ok n ↔ IsSize n s := by
  have hdigits : Text.readNat? (unsignedDigits s) = some n ↔
      ∃ k, s = List.replicate k '0' ++ Text.decimal n ∨
        s = '+' :: (List.replicate k '0' ++ Text.decimal n) := by
    rw [Text.readNat?_eq_some_iff]
    exact exists_congr fun k => unsignedDigits_eq_iff fun _ hc =>
      (List.mem_append.mp hc).elim Text.isDigit_of_mem_zeros Text.isDigit_of_mem_decimal
  have range (m : Nat) : m < UInt64.size ↔ m ≤ 18446744073709551615 := Nat.lt_succ_iff
  rw [IsSize, ← hdigits, ← range, readSize]
  cases Text.readNat? (unsignedDigits s) with
  | none => simp
  | some m =>
    by_cases hm : 0 < m ∧ m < UInt64.size
    · simp only [if_pos hm, Except.ok.injEq, Option.some.injEq]
      constructor
      · rintro rfl
        exact ⟨hm, rfl⟩
      · exact And.right
    · simp only [if_neg hm, reduceCtorEq, Option.some.injEq, false_iff]
      rintro ⟨hn, rfl⟩
      exact hm hn

/-! ## 3. The list -/

/-- The settings that a name and a text change, with the values they get. -/
inductive Assigns : Text → Text → (k : Key) → k.Value → Prop where
  | normalize {s : Text} {b : Bool} (h : IsTruth b s) :
    Assigns "filter.normalize".toList s .normalize b
  | strict {s : Text} {b : Bool} (h : IsTruth b s) : Assigns "filter.strict".toList s .strict b
  | size {s : Text} {n : Nat} (h : IsSize n s) : Assigns "page.size".toList s .size n
  | color {s : Text} {b : Bool} (h : IsTruth b s) : Assigns "output.color".toList s .color b

/-- **What is listed is what is read.** -/
theorem assigns_iff {name value : Text} {k : Key} {v : k.Value} :
    Assigns name value k v ↔ Key.ofName? name = some k ∧ k.read value = .ok v := by
  constructor
  · intro h
    cases h with
    | normalize h => exact ⟨Key.ofName?_name .normalize, readBool_eq_ok_iff.mpr h⟩
    | strict h => exact ⟨Key.ofName?_name .strict, readBool_eq_ok_iff.mpr h⟩
    | size h => exact ⟨Key.ofName?_name .size, readSize_eq_ok_iff.mpr h⟩
    | color h => exact ⟨Key.ofName?_name .color, readBool_eq_ok_iff.mpr h⟩
  · rintro ⟨hname, hvalue⟩
    obtain rfl : k.name = name := by simpa using List.find?_some hname
    cases k with
    | normalize => exact .normalize (readBool_eq_ok_iff.mp hvalue)
    | strict => exact .strict (readBool_eq_ok_iff.mp hvalue)
    | size => exact .size (readSize_eq_ok_iff.mp hvalue)
    | color => exact .color (readBool_eq_ok_iff.mp hvalue)

/-- A change succeeds for what is listed, and for nothing else. -/
theorem assign_eq_ok_iff_exists_assigns {s t : Settings} {name value : Text} :
    s.assign name value = .ok t ↔ ∃ k v, Assigns name value k v ∧ s.set k v = t := by
  simp only [assign_eq_ok_iff, assigns_iff, and_assoc]

end Settings

end Sieve
