/-
# Where a list is cut

The cut of a list at its commas loses nothing: with commas between, the pieces are the text again,
whatever characters it holds, and whether its quotes and backslashes come in pairs or not.  Going
through the text from the left, a comma is a cut just where it is met outside quotes, so there is
one piece more than there are such commas, and never none.

* `IsCut`: the places between pieces, counted in the joined text;
* `Quoting.commas`: the commas that are met outside quotes;
* `isCut_cutFrom_iff`, `length_cutFrom`: these are the cuts, from any place of a text on;
* `splitList_cuts`: so they are for a list.
-/
import Sieve.Proofs.ListQuotes

namespace Sieve

/-! ## 1. The places between pieces -/

/-- At place `i` of the joined text stands the comma between two of the pieces. -/
def IsCut (pieces : List Text) (i : Nat) : Prop :=
  ∃ front back, pieces = front ++ back ∧ front ≠ [] ∧ back ≠ [] ∧
    i = ([','].intercalate front).length

section

variable {pieces : List Text} {i : Nat}

/-- The first cut is behind the first piece, and all others are cuts of the other pieces. -/
theorem isCut_cons_iff {p : Text} : IsCut (p :: pieces) i ↔
    pieces ≠ [] ∧ (i = p.length ∨ ∃ j, IsCut pieces j ∧ i = p.length + (j + 1)) := by
  constructor
  · rintro ⟨front, back, hpieces, hfront, hback, rfl⟩
    obtain ⟨q, front, rfl⟩ := List.exists_cons_of_ne_nil hfront
    obtain ⟨rfl, rfl⟩ := List.cons.inj hpieces
    refine ⟨by simp [hback], ?_⟩
    cases front with
    | nil => exact Or.inl (by simp)
    | cons r front =>
      refine Or.inr ⟨_, ⟨r :: front, back, rfl, by simp, hback, rfl⟩, ?_⟩
      rw [List.intercalate_cons_cons]
      simp
  · rintro ⟨hne, rfl | ⟨j, ⟨front, back, rfl, hfront, hback, rfl⟩, rfl⟩⟩
    · exact ⟨[p], pieces, rfl, by simp, hne, by simp⟩
    · obtain ⟨q, front, rfl⟩ := List.exists_cons_of_ne_nil hfront
      refine ⟨p :: q :: front, back, rfl, by simp, hback, ?_⟩
      rw [List.intercalate_cons_cons]
      simp

/-- An empty first piece puts a cut at the beginning. -/
theorem isCut_nil_cons_zero (hne : pieces ≠ []) : IsCut ([] :: pieces) 0 :=
  isCut_cons_iff.mpr ⟨hne, Or.inl rfl⟩

theorem isCut_nil_cons_succ (hne : pieces ≠ []) : IsCut ([] :: pieces) (i + 1) ↔ IsCut pieces i := by
  rw [isCut_cons_iff]
  simp [hne]

/-- A character in front of the first piece moves the cuts by one. -/
theorem not_isCut_pushFront_zero (c : Char) (hne : pieces ≠ []) : ¬ IsCut (pushFront c pieces) 0 := by
  obtain ⟨p, more, rfl⟩ := List.exists_cons_of_ne_nil hne
  rw [pushFront, isCut_cons_iff]
  simp

theorem isCut_pushFront_succ (c : Char) (hne : pieces ≠ []) :
    IsCut (pushFront c pieces) (i + 1) ↔ IsCut pieces i := by
  obtain ⟨p, more, rfl⟩ := List.exists_cons_of_ne_nil hne
  rw [pushFront, isCut_cons_iff, isCut_cons_iff, List.length_cons]
  grind

end

/-! ## 2. The commas outside quotes -/

/-- The places of the commas that are met outside quotes, where `k` is met at the beginning. -/
def Quoting.commas (k : Quoting) (s : Text) : List Nat :=
  (List.range s.length).filter fun i => s[i]? = some ',' ∧ (s.take i).foldl next k = .outside

theorem Quoting.commas_cons (k : Quoting) (c : Char) (s : Text) :
    k.commas (c :: s) =
      (if k = .outside ∧ c = ',' then [0] else []) ++ ((k.next c).commas s).map (· + 1) := by
  have hbehind : (List.range s.length).filter ((fun i => decide ((c :: s)[i]? = some ',' ∧
      ((c :: s).take i).foldl next k = .outside)) ∘ Nat.succ) = (k.next c).commas s := rfl
  rw [commas, List.length_cons, List.range_succ_eq_map, List.filter_cons, List.filter_map, hbehind]
  by_cases h : k = .outside ∧ c = ','
  · simp [h]
  · simp [h, and_comm]

/-- The cut goes on behind a comma as it does behind any other character. -/
theorem cutFrom_cons (k : Quoting) (c : Char) (s : Text) : cutFrom k (c :: s) =
    if k = .outside ∧ c = ',' then [] :: cutFrom (k.next c) s
    else pushFront c (cutFrom (k.next c) s) := by
  rw [cutFrom]
  split
  · next h =>
    obtain ⟨rfl, rfl⟩ := h
    rfl
  · rfl

/-- **The cuts are the commas outside quotes.** -/
theorem isCut_cutFrom_iff (k : Quoting) (s : Text) (i : Nat) : IsCut (cutFrom k s) i ↔
    s[i]? = some ',' ∧ (s.take i).foldl Quoting.next k = .outside := by
  induction s generalizing k i with
  | nil => simp [cutFrom, isCut_cons_iff]
  | cons c s ih =>
    have hne := cutFrom_ne_nil (k.next c) s
    rw [cutFrom_cons]
    split
    · next h =>
      cases i with
      | zero => exact iff_of_true (isCut_nil_cons_zero hne) ⟨congrArg some h.2, h.1⟩
      | succ i => exact (isCut_nil_cons_succ hne).trans (ih (k.next c) i)
    · next h =>
      cases i with
      | zero =>
        refine iff_of_false (not_isCut_pushFront_zero c hne) fun hcomma => h ?_
        exact ⟨hcomma.2, Option.some.inj hcomma.1⟩
      | succ i => exact (isCut_pushFront_succ c hne).trans (ih (k.next c) i)

/-- **One piece more than there are such commas.** -/
theorem length_cutFrom (k : Quoting) (s : Text) :
    (cutFrom k s).length = (k.commas s).length + 1 := by
  induction s generalizing k with
  | nil => rfl
  | cons c s ih =>
    rw [cutFrom_cons, Quoting.commas_cons, List.length_append, List.length_map]
    split
    · rw [List.length_cons, ih, List.length_singleton]
      omega
    · rw [length_pushFront c (cutFrom_ne_nil _ s), ih, List.length_nil]
      omega

/-- **Where a list is cut.**  With commas between, the pieces are the list.  The commas between
pieces are those of the list that are met outside quotes, so there is one piece more than there are
of them. -/
theorem splitList_cuts (s : Text) :
    [','].intercalate (splitList s) = s ∧
      (∀ i, IsCut (splitList s) i ↔ s[i]? = some ',' ∧ Quoting.behind (s.take i) = .outside) ∧
      (splitList s).length = (Quoting.outside.commas s).length + 1 ∧ splitList s ≠ [] := by
  have hcut : splitList s = cutFrom .outside s := splitListFrom_eq_cutFrom none s
  refine ⟨intercalate_splitList s, fun i => ?_, ?_, splitListFrom_ne_nil none s⟩
  · rw [hcut]
    exact isCut_cutFrom_iff .outside s i
  · rw [hcut, length_cutFrom]

/-- A protected quote does not close its span, and a span that is never closed hides the commas
behind it. -/
example : splitList "'a\\',é',b,\"c,d\\".toList =
    ["'a\\',é'".toList, ['b'], "\"c,d\\".toList] := by decide

end Sieve
