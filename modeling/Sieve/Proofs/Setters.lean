/-
# Setting criteria piece by piece

Criteria are set by any number of calls, in any order, each of which sets one of the four pieces.
A piece is what the last call for it made of its value, or what it was at the start; calls for
other pieces do not count.  So only the order among the calls for one piece matters.

Bounds are integers when they are set and natural numbers when they are asked for.  No call is
refused: what lies below the least value of a bound is replaced by it.

* `Criteria.Start`, `Criteria.Call`: where criteria come from, and what can be called;
* `Criteria.lastFor`: the value of the last call of a setter;
* `Criteria.get_callAll`: what a piece is after any calls, from what one call does to it;
* `Criteria.last_call_wins`: all pieces after any calls.
-/
import Sieve.Criteria

namespace Sieve

namespace Criteria

/-! ## 1. Starting and calling -/

/-- The ways to get criteria without bounds. -/
inductive Start where
  | unrestricted
  | new (f : Filter) (s : SortBy)
  | read (filter sort : Text)
  | readWith (options : ReadOptions) (filter sort : Text)

/-- The criteria at the start. -/
def Start.criteria : Start → Criteria
  | unrestricted => Criteria.unrestricted
  | new f s => Criteria.new f s
  | read filter sort => Criteria.read {} filter sort
  | readWith options filter sort => Criteria.read options filter sort

theorem Start.offset?_criteria (start : Start) : start.criteria.offset? = none := by
  cases start <;> rfl

theorem Start.size?_criteria (start : Start) : start.criteria.size? = none := by
  cases start <;> rfl

/-- The setters. -/
inductive Setter where
  | filter
  | sortBy
  | offset
  | size
  deriving DecidableEq

/-- What a setter takes. -/
abbrev Setter.Value : Setter → Type
  | filter => Filter
  | sortBy => SortBy
  | offset | size => Int

/-- A call of a setter. -/
structure Call where
  setter : Setter
  value : setter.Value

/-- The criteria after a call. -/
def call (c : Criteria) : Call → Criteria
  | ⟨.filter, f⟩ => c.setFilter f
  | ⟨.sortBy, s⟩ => c.setSortBy s
  | ⟨.offset, n⟩ => c.setOffset n
  | ⟨.size, n⟩ => c.setSize n

/-- The criteria after calls in their order. -/
def callAll (c : Criteria) (calls : List Call) : Criteria := calls.foldl call c

/-! ## 2. The last call -/

/-- The value of a call, if it is one of the given setter. -/
def Call.valueFor? (s : Setter) (k : Call) : Option s.Value :=
  if h : k.setter = s then some (h ▸ k.value) else none

/-- The value of the last call of a setter. -/
def lastFor (s : Setter) (calls : List Call) : Option s.Value :=
  (calls.filterMap (Call.valueFor? s)).getLast?

/-- The calls of a setter. -/
def callsFor (s : Setter) (calls : List Call) : List Call := calls.filter fun k => k.setter = s

/-- The last call of a setter is found among its calls. -/
theorem lastFor_callsFor (s : Setter) (calls : List Call) :
    lastFor s (callsFor s calls) = lastFor s calls := by
  have hvalue : (fun k : Call => if decide (k.setter = s) = true then k.valueFor? s else none) =
      Call.valueFor? s := by
    funext k
    by_cases hk : k.setter = s
    · simp [hk]
    · simp [hk, Call.valueFor?]
  rw [lastFor, callsFor, List.filterMap_filter, hvalue, lastFor]

/-- There is a last call of a setter as soon as there is one at all. -/
theorem isSome_lastFor_iff {s : Setter} {calls : List Call} :
    (lastFor s calls).isSome = true ↔ ∃ v, ⟨s, v⟩ ∈ calls := by
  rw [lastFor, List.getLast?_isSome]
  constructor
  · intro hne
    obtain ⟨v, hv⟩ := List.exists_mem_of_ne_nil _ hne
    obtain ⟨⟨s', v'⟩, hk, hvalue⟩ := List.mem_filterMap.mp hv
    unfold Call.valueFor? at hvalue
    split at hvalue
    · next h =>
      obtain rfl : s' = s := h
      exact ⟨v', hk⟩
    · cases hvalue
  · rintro ⟨v, hv⟩
    have hvalue : Call.valueFor? s ⟨s, v⟩ = some v := by simp [Call.valueFor?]
    exact List.ne_nil_of_mem (List.mem_filterMap.mpr ⟨⟨s, v⟩, hv, hvalue⟩)

/-- **A piece after any calls.**  If a call of `s` sets it and no other call touches it, it is what
the last call of `s` has made it. -/
theorem get_callAll {α : Type} (get : Criteria → α) {s : Setter} (store : s.Value → α)
    (hcall : ∀ c k, get (call c k) = (k.valueFor? s).elim (get c) store) (c : Criteria)
    (calls : List Call) : get (c.callAll calls) = (lastFor s calls).elim (get c) store := by
  induction calls generalizing c with
  | nil => rfl
  | cons k calls ih =>
    have hrest : get (c.callAll (k :: calls)) = _ := ih (c.call k)
    rw [hrest, hcall, lastFor, lastFor]
    cases hk : k.valueFor? s with
    | none => rw [List.filterMap_cons_none hk, Option.elim_none]
    | some v =>
      rw [List.filterMap_cons_some hk, List.getLast?_cons]
      cases (calls.filterMap (Call.valueFor? s)).getLast? <;> rfl

/-! ## 3. The four pieces -/

section

variable (c : Criteria) (calls : List Call)

theorem filter_callAll : (c.callAll calls).filter = (lastFor .filter calls).getD c.filter := by
  rw [get_callAll Criteria.filter (s := .filter) id (fun c ⟨s, v⟩ => by cases s <;> rfl)]
  cases lastFor .filter calls <;> rfl

theorem sortBy_callAll : (c.callAll calls).sortBy = (lastFor .sortBy calls).getD c.sortBy := by
  rw [get_callAll Criteria.sortBy (s := .sortBy) id (fun c ⟨s, v⟩ => by cases s <;> rfl)]
  cases lastFor .sortBy calls <;> rfl

theorem offset?_callAll : (c.callAll calls).offset? =
    (lastFor .offset calls).elim c.offset? fun n : Int => some n.toNat :=
  get_callAll Criteria.offset? (s := .offset) _ (fun c ⟨s, v⟩ => by cases s <;> rfl) c calls

theorem size?_callAll : (c.callAll calls).size? =
    (lastFor .size calls).elim c.size? fun n : Int => some (max n.toNat 1) :=
  get_callAll Criteria.size? (s := .size) _ (fun c ⟨s, v⟩ => by cases s <;> rfl) c calls

/-- The order among calls of different setters does not count. -/
theorem callAll_congr {calls calls' : List Call}
    (h : ∀ s, callsFor s calls' = callsFor s calls) : c.callAll calls' = c.callAll calls := by
  have hlast (s : Setter) : lastFor s calls' = lastFor s calls := by
    rw [← lastFor_callsFor, h, lastFor_callsFor]
  refine Criteria.ext ?_ ?_ ?_ ?_
  · rw [filter_callAll, filter_callAll, hlast]
  · rw [sortBy_callAll, sortBy_callAll, hlast]
  · rw [offset?_callAll, offset?_callAll, hlast]
  · rw [size?_callAll, size?_callAll, hlast]

end

/-- **The last call wins.**  After any calls the filter and the order are the ones set last, or
those of the start.  A bound is there exactly when a call has set it, and is then the number set
last, or its least value if that number is smaller.  Calls of different setters may change
places. -/
theorem last_call_wins (start : Start) (calls : List Call) :
    let c := start.criteria.callAll calls
    c.filter = (lastFor .filter calls).getD start.criteria.filter ∧
    c.sortBy = (lastFor .sortBy calls).getD start.criteria.sortBy ∧
    (c.hasOffset = true ↔ ∃ n, ⟨.offset, n⟩ ∈ calls) ∧
    (c.hasSize = true ↔ ∃ n, ⟨.size, n⟩ ∈ calls) ∧
    (c.offset : Int) = (lastFor .offset calls).elim 0 (fun n : Int => max n 0) ∧
    (∀ d : Nat, (c.size d : Int) = (lastFor .size calls).elim (d : Int) (fun n : Int => max n 1)) ∧
    ∀ calls', (∀ s, callsFor s calls' = callsFor s calls) → start.criteria.callAll calls' = c := by
  intro c
  have hoffset := offset?_callAll start.criteria calls
  have hsize := size?_callAll start.criteria calls
  rw [start.offset?_criteria] at hoffset
  rw [start.size?_criteria] at hsize
  refine ⟨filter_callAll _ _, sortBy_callAll _ _, ?_, ?_, ?_, fun d => ?_, fun _ => callAll_congr _⟩
  · rw [← isSome_lastFor_iff, hasOffset, hoffset]
    cases lastFor .offset calls <;> rfl
  · rw [← isSome_lastFor_iff, hasSize, hsize]
    cases lastFor .size calls <;> rfl
  · rw [offset, hoffset]
    cases lastFor .offset calls with
    | none => rfl
    | some n => exact Int.toNat_eq_max n
  · rw [size, hsize]
    cases lastFor .size calls with
    | none => rfl
    | some n =>
      simp only [Option.elim_some, Option.getD_some]
      omega

/-- The calls for the size may come before both of those for the offset. -/
theorem last_call_wins_moved :
    let start : Start := .read "a = 1".toList "-b".toList
    let calls : List Call := [⟨.offset, -9223372036854775808⟩, ⟨.size, 50⟩, ⟨.filter, .empty⟩,
      ⟨.size, 0⟩, ⟨.offset, 9223372036854775807⟩]
    let moved : List Call := [⟨.filter, .empty⟩, ⟨.size, 50⟩, ⟨.size, 0⟩,
      ⟨.offset, -9223372036854775808⟩, ⟨.offset, 9223372036854775807⟩]
    let c := start.criteria.callAll calls
    (∀ s, callsFor s moved = callsFor s calls) ∧ start.criteria.callAll moved = c ∧
      c.filter = .empty ∧ c.sortBy = ⟨[⟨['b'], .descending⟩]⟩ ∧ c.hasOffset = true ∧
      c.offset = 9223372036854775807 ∧ c.size 20 = 1 := by
  intro start calls moved c
  have h : ∀ s, callsFor s moved = callsFor s calls := by
    intro s
    cases s <;> rfl
  obtain ⟨hfilter, hsort, hoffset, -, hskip, hsize, hmoved⟩ := last_call_wins start calls
  refine ⟨h, hmoved moved h, hfilter, hsort.trans (by decide +kernel), ?_, ?_, ?_⟩
  · exact hoffset.mpr ⟨_, List.mem_cons_self⟩
  · exact Int.ofNat.inj hskip
  · exact Int.ofNat.inj (hsize 20)

end Criteria

end Sieve
