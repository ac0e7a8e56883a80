/-
# Parentheses without a partner

A `(` and a `)` are partners when the parentheses between them match.  Reordering reports the
parentheses that have no partner: each `)` when it comes to it, each `(` at the end of the input.
At the end the latest `(` lies on top of the stack, so those are reported from the back.  The one
that is reported for an expression is the first complaint.  No `)` without a partner comes behind
a `(` without one, so it is the first in the text if it is a `)`, and the last one if all are `(`.

* `Token.Partners`: the `(` and the `)` that belong together, each with at most one partner;
* `Token.IsStray`, `Token.IsUnclosed`: the `)` and the `(` without a partner;
* `pick`: the elements of a list at some of its places;
* `reorder_errors`: all complaints, in their order;
* `Filter.read_unmatched`: the one that is reported.
-/
import Sieve.Filter.Read
import Sieve.Proofs.Reordering
import Sieve.Proofs.Lexeme
import Mathlib.Order.Bounds.Defs

namespace Sieve

namespace Token

/-! ## 1. Partners -/

instance decidableBalanced : ∀ (depth : Nat) (ts : List Token), Decidable (Balanced depth ts)
  | depth, [] => inferInstanceAs (Decidable (depth = 0))
  | depth, .openParen :: ts => decidableBalanced (depth + 1) ts
  | depth, .closeParen :: ts =>
    have := decidableBalanced (depth - 1) ts
    inferInstanceAs (Decidable (0 < depth ∧ Balanced (depth - 1) ts))
  | depth, .and :: ts | depth, .or :: ts | depth, .compare _ :: ts | depth, .membership _ :: ts
  | depth, .nullTest _ :: ts | depth, .word _ :: ts => decidableBalanced depth ts

/-- The `(` at place `i` and the `)` at place `j` belong together: between them parentheses
match. -/
structure Partners (ts : List Token) (i j : Nat) : Prop where
  lt : i < j
  opens : ts[i]? = some .openParen
  closes : ts[j]? = some .closeParen
  between : Balanced 0 ((ts.drop (i + 1)).take (j - (i + 1)))

/-- At place `i` stands a `)` that closes nothing. -/
def IsStray (ts : List Token) (i : Nat) : Prop :=
  ts[i]? = some .closeParen ∧ ∀ j, ¬ Partners ts j i

/-- At place `i` stands a `(` that is never closed. -/
def IsUnclosed (ts : List Token) (i : Nat) : Prop :=
  ts[i]? = some .openParen ∧ ∀ j, ¬ Partners ts i j

/-- At place `i` stands a parenthesis without a partner. -/
def IsUnmatched (ts : List Token) (i : Nat) : Prop := IsStray ts i ∨ IsUnclosed ts i

theorem partners_iff {ts : List Token} {i j : Nat} : Partners ts i j ↔
    i < j ∧ ts[i]? = some .openParen ∧ ts[j]? = some .closeParen ∧
      Balanced 0 ((ts.drop (i + 1)).take (j - (i + 1))) :=
  ⟨fun h => ⟨h.lt, h.opens, h.closes, h.between⟩, fun ⟨hlt, ho, hc, hb⟩ => ⟨hlt, ho, hc, hb⟩⟩

instance (ts : List Token) (i j : Nat) : Decidable (Partners ts i j) :=
  decidable_of_iff _ partners_iff.symm

instance (ts : List Token) (i : Nat) : Decidable (IsStray ts i) :=
  decidable_of_iff (ts[i]? = some .closeParen ∧ ∀ j < i, ¬ Partners ts j i) <|
    and_congr_right fun _ => ⟨fun h j hj => h j hj.lt hj, fun h j _ => h j⟩

instance (ts : List Token) (i : Nat) : Decidable (IsUnclosed ts i) :=
  decidable_of_iff (ts[i]? = some .openParen ∧ ∀ j < ts.length, ¬ Partners ts i j) <|
    and_congr_right fun _ =>
      ⟨fun h j hj => h j (List.getElem?_eq_some_iff.mp hj.closes).1 hj, fun h j _ => h j⟩

instance (ts : List Token) (i : Nat) : Decidable (IsUnmatched ts i) :=
  inferInstanceAs (Decidable (_ ∨ _))

variable {t : Token} {ts : List Token} {d i j : Nat}

theorem partners_succ : Partners (t :: ts) (i + 1) (j + 1) ↔ Partners ts i j := by
  simp [partners_iff]

theorem partners_zero : Partners (t :: ts) 0 (j + 1) ↔
    t = .openParen ∧ ts[j]? = some .closeParen ∧ Balanced 0 (ts.take j) := by
  simp [partners_iff]

theorem not_partners_zero : ¬ Partners ts i 0 := fun h => absurd h.lt (Nat.not_lt_zero i)

/-- Behind tokens that close `d` parentheses, the others are still open. -/
theorem Balanced.append_iff {us : List Token} (h : Balanced d us) (e : Nat) :
    Balanced (d + e) (us ++ ts) ↔ Balanced e ts := by
  induction us generalizing d with
  | nil =>
    obtain rfl : d = 0 := h
    rw [Nat.zero_add, List.nil_append]
  | cons t us ih =>
    cases t with
    | openParen =>
      rw [← ih (d := d + 1) h, Nat.add_right_comm]
      rfl
    | closeParen =>
      obtain ⟨hd, h⟩ := h
      rw [← ih h, ← Nat.sub_add_comm hd]
      exact and_iff_right (Nat.add_pos_left hd e)
    | _ => exact ih h

theorem Balanced.of_append {us : List Token} (h : Balanced d (us ++ ts)) :
    ∃ e, Balanced e ts := by
  induction us generalizing d with
  | nil => exact ⟨d, h⟩
  | cons t us ih =>
    cases t with
    | openParen => exact ih (d := d + 1) h
    | closeParen => exact ih h.2
    | _ => exact ih h

/-- What stands between two places, cut at a place between them. -/
theorem between_eq {k : Nat} (hik : i < k) (hkj : k < j) (hk : ts[k]? = some t) :
    (ts.drop (i + 1)).take (j - (i + 1)) =
      (ts.drop (i + 1)).take (k - (i + 1)) ++ t :: (ts.drop (k + 1)).take (j - (k + 1)) := by
  have hdrop : (ts.drop (i + 1)).drop (k - (i + 1)) = t :: ts.drop (k + 1) := by
    obtain ⟨hlt, rfl⟩ := List.getElem?_eq_some_iff.mp hk
    rw [List.drop_drop, show i + 1 + (k - (i + 1)) = k by omega, List.drop_eq_getElem_cons]
  rw [show j - (i + 1) = k - (i + 1) + (j - (k + 1) + 1) by omega, List.take_add, hdrop,
    List.take_succ_cons]

/-- **A `(` has at most one partner**: behind the first, more is closed than was opened. -/
theorem Partners.right_unique {k : Nat} (h : Partners ts i j) (h' : Partners ts i k) : j = k := by
  have hnot {j k : Nat} (h : Partners ts i j) (h' : Partners ts i k) : ¬ k < j := by
    intro hlt
    have hb := h.between
    rw [between_eq h'.lt hlt h'.closes] at hb
    exact absurd ((h'.between.append_iff 0).mp hb).1 (Nat.lt_irrefl 0)
  exact Nat.le_antisymm (Nat.le_of_not_lt (hnot h h')) (Nat.le_of_not_lt (hnot h' h))

/-! ## 2. Parentheses that are open -/

/-- Behind more than `d` open parentheses, the one below the `d` latest is closed. -/
def Closed (d : Nat) (ts : List Token) : Prop :=
  ∃ m, ts[m]? = some .closeParen ∧ Balanced d (ts.take m)

/-- Behind `d` open parentheses, the `)` at place `i` closes nothing. -/
def StrayBehind (d : Nat) (ts : List Token) (i : Nat) : Prop :=
  IsStray ts i ∧ ∀ e < d, ¬ Balanced e (ts.take i)

theorem strayBehind_none {ts : List Token} {i : Nat} : StrayBehind 0 ts i ↔ IsStray ts i :=
  and_iff_left fun e he => absurd he (Nat.not_lt_zero e)

/-- The number of parentheses that are open behind one more token. -/
def behind (d : Nat) : Token → Nat
  | openParen => d + 1
  | closeParen => d - 1
  | _ => d

theorem not_closed_nil (d : Nat) : ¬ Closed d [] := by
  rintro ⟨m, hm, -⟩
  simp at hm

theorem closed_close_zero (ts : List Token) : Closed 0 (.closeParen :: ts) := ⟨0, rfl, rfl⟩

theorem closed_cons {e : Nat} (hfirst : t = .closeParen → d ≠ 0)
    (hb : ∀ us, Balanced d (t :: us) ↔ Balanced e us) : Closed d (t :: ts) ↔ Closed e ts := by
  constructor
  · rintro ⟨m, hm, h⟩
    cases m with
    | zero => exact absurd h (hfirst (by simpa using hm))
    | succ m => exact ⟨m, by simpa using hm, (hb _).mp h⟩
  · rintro ⟨m, hm, h⟩
    exact ⟨m + 1, by simpa using hm, (hb _).mpr h⟩

theorem closed_open : Closed d (.openParen :: ts) ↔ Closed (d + 1) ts :=
  closed_cons nofun fun _ => Iff.rfl

theorem closed_close : Closed (d + 1) (.closeParen :: ts) ↔ Closed d ts :=
  closed_cons (fun _ => Nat.succ_ne_zero d) fun _ => and_iff_right (Nat.succ_pos d)

theorem closed_cons_of_not_isParen (h : t.isParen = false) :
    Closed d (t :: ts) ↔ Closed d ts := by
  refine closed_cons (fun ht => ?_) fun _ => balanced_cons_of_not_isParen h
  rw [ht] at h
  cases h

theorem isUnclosed_zero : IsUnclosed (t :: ts) 0 ↔ t = .openParen ∧ ¬ Closed 0 ts := by
  constructor
  · rintro ⟨ho, hnot⟩
    obtain rfl : t = .openParen := by simpa using ho
    exact ⟨rfl, fun ⟨m, hm, hb⟩ => hnot (m + 1) (partners_zero.mpr ⟨rfl, hm, hb⟩)⟩
  · rintro ⟨rfl, hnot⟩
    refine ⟨rfl, fun j hj => ?_⟩
    cases j with
    | zero => exact not_partners_zero hj
    | succ j => exact hnot ⟨j, (partners_zero.mp hj).2⟩

theorem isUnclosed_succ : IsUnclosed (t :: ts) (i + 1) ↔ IsUnclosed ts i := by
  refine and_congr (by simp) ⟨fun h j hj => h (j + 1) (partners_succ.mpr hj), fun h j hj => ?_⟩
  cases j with
  | zero => exact not_partners_zero hj
  | succ j => exact h j (partners_succ.mp hj)

theorem strayBehind_zero : StrayBehind d (t :: ts) 0 ↔ t = .closeParen ∧ d = 0 := by
  constructor
  · rintro ⟨⟨hc, -⟩, hnot⟩
    refine ⟨by simpa using hc, ?_⟩
    by_contra hd
    exact hnot 0 (Nat.pos_of_ne_zero hd) rfl
  · rintro ⟨rfl, rfl⟩
    exact ⟨⟨rfl, fun j => not_partners_zero⟩, fun e he => absurd he (Nat.not_lt_zero e)⟩

theorem isStray_succ : IsStray (t :: ts) (i + 1) ↔
    IsStray ts i ∧ ¬ (t = .openParen ∧ Balanced 0 (ts.take i)) := by
  rw [IsStray, IsStray, List.getElem?_cons_succ, and_assoc]
  refine and_congr_right fun hc => ⟨fun h => ⟨fun j hj => h (j + 1) (partners_succ.mpr hj), ?_⟩, ?_⟩
  · rintro ⟨rfl, hb⟩
    exact h 0 (partners_zero.mpr ⟨rfl, hc, hb⟩)
  · rintro ⟨h, hfirst⟩ j hj
    cases j with
    | zero => exact hfirst ⟨(partners_zero.mp hj).1, (partners_zero.mp hj).2.2⟩
    | succ j => exact h j (partners_succ.mp hj)

/-- **One token on**, the same `)` closes nothing. -/
theorem strayBehind_succ : StrayBehind d (t :: ts) (i + 1) ↔ StrayBehind (behind d t) ts i := by
  rw [StrayBehind, StrayBehind, isStray_succ, and_assoc, List.take_succ_cons]
  refine and_congr_right fun _ => ?_
  cases t with
  | openParen =>
    simp only [Balanced, behind, Nat.forall_lt_succ_left, true_and]
  | closeParen =>
    cases d with
    | zero => simp [behind]
    | succ d =>
      simp only [Balanced, behind, Nat.forall_lt_succ_left, Nat.lt_irrefl, Nat.succ_pos,
        Nat.add_sub_cancel, false_and, not_false_eq_true, true_and]
      simp
  | _ => simp [Balanced, behind]

/-- In front of a `)` that closes nothing, all that was open is closed. -/
theorem StrayBehind.closed : ∀ {ts : List Token} {d i : Nat}, StrayBehind d ts i →
    ∀ e < d, Closed e ts
  | [], _, _, h, _, _ => by simpa using h.1.1
  | t :: ts, d, 0, h, e, he => by
    rw [(strayBehind_zero.mp h).2] at he
    exact absurd he (Nat.not_lt_zero e)
  | t :: ts, d, i + 1, h, e, he => by
    have ih := (strayBehind_succ.mp h).closed
    cases t with
    | openParen => exact closed_open.mpr (ih (e + 1) (Nat.succ_lt_succ he))
    | closeParen =>
      cases e with
      | zero => exact closed_close_zero ts
      | succ e => exact closed_close.mpr (ih e (Nat.lt_sub_of_add_lt he))
    | _ => exact (closed_cons_of_not_isParen rfl).mpr (ih e he)

/-- **A `)` without a partner comes before every `(` without one.** -/
theorem IsStray.lt_of_isUnclosed (h : IsStray ts i) (h' : IsUnclosed ts j) : i < j := by
  have hbehind := strayBehind_none.mpr h
  clear h
  -- the parentheses in front may be open, so the number of them has to vary
  generalize 0 = d at hbehind
  induction ts generalizing d i j with
  | nil => simpa using h'.1
  | cons t ts ih =>
    cases i with
    | zero =>
      cases j with
      | zero =>
        rw [(strayBehind_zero.mp hbehind).1] at h'
        simpa using h'.1
      | succ j => exact Nat.succ_pos j
    | succ i =>
      have hbehind := strayBehind_succ.mp hbehind
      cases j with
      | zero =>
        obtain ⟨rfl, hopen⟩ := isUnclosed_zero.mp h'
        exact absurd (hbehind.closed 0 (Nat.succ_pos d)) hopen
      | succ j => exact Nat.succ_lt_succ (ih (isUnclosed_succ.mp h') _ hbehind)

end Token

/-! ## 3. All complaints -/

/-- The elements of a list at the places with a property. -/
def pick {α : Type} (p : Nat → Prop) [DecidablePred p] : List α → List α
  | [] => []
  | x :: xs => (if p 0 then [x] else []) ++ pick (fun i => p (i + 1)) xs

section

variable {α : Type} {p q : Nat → Prop} [DecidablePred p] [DecidablePred q]

theorem pick_congr (h : ∀ i, p i ↔ q i) (xs : List α) : pick p xs = pick q xs := by
  induction xs generalizing p q with
  | nil => rfl
  | cons x xs ih => simp only [pick, h 0, ih fun i => h (i + 1)]

/-- The first place, and the others. -/
theorem pick_cons (h : ∀ i, p (i + 1) ↔ q i) (x : α) (xs : List α) :
    pick p (x :: xs) = (if p 0 then [x] else []) ++ pick q xs := by
  rw [pick, pick_congr h]

theorem mem_pick {x : α} {xs : List α} : x ∈ pick p xs ↔ ∃ i, xs[i]? = some x ∧ p i := by
  induction xs generalizing p with
  | nil => simp [pick]
  | cons y xs ih =>
    rw [pick, List.mem_append, ih]
    constructor
    · rintro (hx | ⟨i, hi, hp⟩)
      · split at hx
        · next hp => exact ⟨0, by rw [List.mem_singleton.mp hx]; rfl, hp⟩
        · cases hx
      · exact ⟨i + 1, by simpa using hi, hp⟩
    · rintro ⟨i, hi, hp⟩
      cases i with
      | zero =>
        obtain rfl : y = x := by simpa using hi
        simp [hp]
      | succ i => exact Or.inr ⟨i, by simpa using hi, hp⟩

theorem pick_sublist (xs : List α) : (pick p xs).Sublist xs := by
  induction xs generalizing p with
  | nil => exact List.Sublist.refl _
  | cons x xs ih =>
    rw [pick]
    split
    · exact ih.cons_cons x
    · exact ih.cons x

theorem pick_eq_self (h : ∀ i, p i) (xs : List α) : pick p xs = xs := by
  induction xs generalizing p with
  | nil => rfl
  | cons x xs ih => simp [pick, h 0, ih fun i => h (i + 1)]

end

namespace Postfix

open Token

/-- The parentheses without a partner behind the open ones, the latest of them first. -/
def strays (opens : List Placed) : List Placed → List Placed
  | [] => opens
  | t :: input =>
    match t.token with
    | .openParen => strays (t :: opens) input
    | .closeParen =>
      match opens with
      | [] => t :: strays [] input
      | _ :: outer => strays outer input
    | .and | .or | .compare _ | .membership _ | .nullTest _ | .word _ => strays opens input

/-- The parentheses that wait. -/
def opens (waiting : List Placed) : List Placed := waiting.filter fun q => !isNotOpen q

/-- What is said of a parenthesis without a partner. -/
def complaint (t : Placed) : FilterError := .unbalancedParenthesis t.position

section

variable {t : Placed} (input : List Placed)

theorem strays_open (h : t.token = .openParen) (opens : List Placed) :
    strays opens (t :: input) = strays (t :: opens) input := by
  rw [strays.eq_def]
  simp [h]

theorem strays_close_nil (h : t.token = .closeParen) :
    strays [] (t :: input) = t :: strays [] input := by
  rw [strays.eq_def]
  simp [h]

theorem strays_close_cons (h : t.token = .closeParen) (o : Placed) (opens : List Placed) :
    strays (o :: opens) (t :: input) = strays opens input := by
  rw [strays.eq_def]
  simp [h]

theorem strays_cons_of_not_isParen (h : t.token.isParen = false) (opens : List Placed) :
    strays opens (t :: input) = strays opens input := by
  rw [strays.eq_def]
  cases ht : t.token <;> simp_all [isParen]

end

theorem opens_dropWhile {p : Placed → Bool} (hp : ∀ q, p q = true → isNotOpen q = true)
    (waiting : List Placed) : opens (waiting.dropWhile p) = opens waiting := by
  induction waiting with
  | nil => rfl
  | cons top rest ih =>
    cases h : p top with
    | false => simp [h]
    | true =>
      rw [List.dropWhile_cons_of_pos h, ih]
      simp [opens, hp top h]

theorem errors_finish (waiting : List Placed) :
    (finish waiting).errors = (opens waiting).map complaint := by
  induction waiting with
  | nil => rfl
  | cons top rest ih =>
    by_cases h : top.token = .openParen
    · simpa [finish, h, opens, isNotOpen, complaint] using ih
    · simpa [finish, h, opens, isNotOpen] using ih

/-- Operators that wait do not matter to the complaints. -/
theorem errors_reorderFrom (input : List Placed) : ∀ waiting : List Placed,
    (reorderFrom waiting input).errors = (strays (opens waiting) input).map complaint := by
  induction input with
  | nil => exact errors_finish
  | cons t input ih =>
    intro waiting
    rcases t.token.kinds with ht | ht | ⟨w, ht⟩ | ⟨tier, ht⟩
    · have hopens : opens (t :: waiting) = t :: opens waiting := by
        simp [opens, isNotOpen_eq_false ht]
      rw [reorderFrom_openParen ht, ih, hopens, strays_open input ht]
    · rw [← opens_dropWhile (fun _ h => h) waiting]
      rcases reorderFrom_closing ht waiting input with ⟨o, outer, hdrop, ho, hread⟩ | ⟨hall, hread⟩
      · have hopens : opens (o :: outer) = o :: opens outer := by simp [opens, ho]
        rw [hread, errors_emit, ih, hdrop, hopens, strays_close_cons input ht]
      · have hopens : opens (waiting.dropWhile isNotOpen) = [] := by
          rw [List.dropWhile_eq_nil_iff.mpr hall]
          rfl
        rw [hread, errors_emit, errors_complain, ih, hopens, strays_close_nil input ht]
        rfl
    · rw [reorderFrom_word ht, errors_emit, ih, strays_cons_of_not_isParen _ (by rw [ht]; rfl)]
    · have hopens : opens (t :: waiting.dropWhile (yields tier)) = opens waiting := by
        rw [← opens_dropWhile (p := yields tier) (fun _ h => isNotOpen_of_yields h) waiting]
        simp [opens, isNotOpen_of_precedence ht]
      rw [reorderFrom_precedence ht, errors_emit, ih, hopens,
        strays_cons_of_not_isParen _ (isParen_of_precedence ht)]

open Classical in
/-- **The order of the complaints**: every `)` that closes nothing, then every `(` of the input
that is never closed from the back, then those that were open before. -/
theorem strays_eq (input : List Placed) : ∀ opens : List Placed, strays opens input =
    pick (StrayBehind opens.length (input.map Placed.token)) input ++
      (pick (IsUnclosed (input.map Placed.token)) input).reverse ++
        pick (fun e => ¬ Closed e (input.map Placed.token)) opens := by
  induction input with
  | nil =>
    intro opens
    exact (pick_eq_self (fun e => not_closed_nil e) opens).symm
  | cons t input ih =>
    intro opens
    rw [List.map_cons, pick_cons (fun i => strayBehind_succ), pick_cons (fun i => isUnclosed_succ)]
    simp only [strayBehind_zero, isUnclosed_zero]
    -- each kind of token moves what is open as `behind` says
    by_cases ho : t.token = .openParen
    · -- it is open for the rest of the input, where it may or may not be closed
      rw [strays_open input ho, ih, pick_cons fun e => not_congr closed_open.symm]
      by_cases hclosed : Closed 0 (input.map Placed.token) <;> simp [ho, behind, hclosed]
    by_cases hc : t.token = .closeParen
    · cases opens with
      | nil =>
        rw [strays_close_nil input hc, ih]
        simp [hc, behind, pick]
      | cons o opens =>
        rw [strays_close_cons input hc, ih, hc, pick_cons fun e => not_congr closed_close]
        simp only [List.length_cons, behind, Nat.add_sub_cancel, closed_close_zero]
        simp
    · have hparen : t.token.isParen = false := by
        cases ht : t.token <;> simp_all [isParen]
      have hbehind : behind opens.length t.token = opens.length := by
        cases ht : t.token <;> simp_all [behind]
      rw [strays_cons_of_not_isParen input hparen, ih, hbehind,
        pick_congr fun e => not_congr (closed_cons_of_not_isParen hparen).symm]
      simp [ho, hc]

end Postfix

open Token Postfix

/-- **All complaints**: every `)` that closes nothing, from the front, then every `(` that is never
closed, from the back. -/
theorem reorder_errors (ts : List Placed) : (reorder ts).errors =
    (pick (IsStray (ts.map Placed.token)) ts ++
      (pick (IsUnclosed (ts.map Placed.token)) ts).reverse).map complaint := by
  rw [reorder, errors_reorderFrom, opens, List.filter_nil, strays_eq, List.length_nil]
  classical
  rw [pick_congr fun i => strayBehind_none]
  simp [pick]

/-! ## 4. The complaint that is reported -/

/-- The bytes at which parentheses without a partner stand. -/
def unmatchedPositions (ts : List Placed) : Set Nat :=
  {b | ∃ i t, ts[i]? = some ⟨t, b⟩ ∧ IsUnmatched (ts.map Placed.token) i}

section

variable {ts : List Placed} (hts : ts.Pairwise fun t u => t.position < u.position)

theorem mem_unmatchedPositions_iff {b : Nat} : b ∈ unmatchedPositions ts ↔
    ∃ t, (t ∈ pick (IsStray (ts.map Placed.token)) ts ∨
      t ∈ pick (IsUnclosed (ts.map Placed.token)) ts) ∧ t.position = b := by
  simp only [mem_pick]
  constructor
  · rintro ⟨i, t, hi, h | h⟩
    · exact ⟨_, Or.inl ⟨i, hi, h⟩, rfl⟩
    · exact ⟨_, Or.inr ⟨i, hi, h⟩, rfl⟩
  · rintro ⟨t, ⟨i, hi, h⟩ | ⟨i, hi, h⟩, rfl⟩
    · exact ⟨i, t.token, hi, Or.inl h⟩
    · exact ⟨i, t.token, hi, Or.inr h⟩

theorem exists_placed {i : Nat} (h : IsUnmatched (ts.map Placed.token) i) :
    ∃ t, ts[i]? = some t := by
  rcases h with h | h <;> obtain ⟨t, ht, -⟩ := Option.map_eq_some_iff.mp (List.getElem?_map ▸ h.1)
  exacts [⟨t, ht⟩, ⟨t, ht⟩]

include hts

theorem position_lt {i j : Nat} {t u : Placed} (hij : i < j) (ht : ts[i]? = some t)
    (hu : ts[j]? = some u) : t.position < u.position := by
  obtain ⟨hi, rfl⟩ := List.getElem?_eq_some_iff.mp ht
  obtain ⟨hj, rfl⟩ := List.getElem?_eq_some_iff.mp hu
  exact List.pairwise_iff_getElem.mp hts i j hi hj hij

/-- The first `)` without a partner is the first parenthesis without one. -/
theorem isLeast_of_pick_isStray {t : Placed} {more : List Placed}
    (h : pick (IsStray (ts.map Placed.token)) ts = t :: more) :
    IsLeast (unmatchedPositions ts) t.position := by
  have ht : t ∈ pick (IsStray (ts.map Placed.token)) ts := h ▸ List.mem_cons_self
  refine ⟨mem_unmatchedPositions_iff.mpr ⟨t, Or.inl ht, rfl⟩, fun b hb => ?_⟩
  obtain ⟨u, hu | hu, rfl⟩ := mem_unmatchedPositions_iff.mp hb
  · have hsorted := hts.sublist (pick_sublist (p := IsStray (ts.map Placed.token)) ts)
    rw [h] at hu hsorted
    rcases List.mem_cons.mp hu with rfl | hu
    · exact Nat.le_refl _
    · exact Nat.le_of_lt (List.rel_of_pairwise_cons hsorted hu)
  · obtain ⟨i, hi, hstray⟩ := mem_pick.mp ht
    obtain ⟨j, hj, hunclosed⟩ := mem_pick.mp hu
    exact Nat.le_of_lt (position_lt hts (hstray.lt_of_isUnclosed hunclosed) hi hj)

/-- Where every `)` has a partner, the last `(` without one is the last parenthesis without one. -/
theorem isGreatest_of_pick_isUnclosed {t : Placed} {more : List Placed}
    (hnone : pick (IsStray (ts.map Placed.token)) ts = [])
    (h : (pick (IsUnclosed (ts.map Placed.token)) ts).reverse = t :: more) :
    IsGreatest (unmatchedPositions ts) t.position := by
  have ht : t ∈ pick (IsUnclosed (ts.map Placed.token)) ts :=
    List.mem_reverse.mp (h ▸ List.mem_cons_self)
  refine ⟨mem_unmatchedPositions_iff.mpr ⟨t, Or.inr ht, rfl⟩, fun b hb => ?_⟩
  obtain ⟨u, hu | hu, rfl⟩ := mem_unmatchedPositions_iff.mp hb
  · rw [hnone] at hu
    cases hu
  · have hsorted := (hts.sublist (pick_sublist (p := IsUnclosed (ts.map Placed.token)) ts))
    rw [← List.pairwise_reverse, h] at hsorted
    rw [← List.mem_reverse, h] at hu
    rcases List.mem_cons.mp hu with rfl | hu
    · exact Nat.le_refl _
    · exact Nat.le_of_lt (List.rel_of_pairwise_cons hsorted hu)

/-- At one byte stands at most one token. -/
theorem eq_of_position_eq {i j : Nat} {t u : Placed} (ht : ts[i]? = some t) (hu : ts[j]? = some u)
    (h : t.position = u.position) : i = j := by
  rcases Nat.lt_trichotomy i j with hij | hij | hij
  · exact absurd h (Nat.ne_of_lt (position_lt hts hij ht hu))
  · exact hij
  · exact absurd h.symm (Nat.ne_of_lt (position_lt hts hij hu ht))

/-- **The first complaint.**  It is about the first parenthesis without a partner if some `)` has
none, or if only one parenthesis has none; and about the last one if every `)` has a partner. -/
theorem exists_errors_reorder (h : ∃ i, IsUnmatched (ts.map Placed.token) i) :
    ∃ b more, (reorder ts).errors = .unbalancedParenthesis b :: more ∧
      (IsLeast (unmatchedPositions ts) b ↔
        (∃ i, IsStray (ts.map Placed.token) i) ∨ ∃! i, IsUnmatched (ts.map Placed.token) i) ∧
      ((¬ ∃ i, IsStray (ts.map Placed.token) i) → IsGreatest (unmatchedPositions ts) b) := by
  cases hstray : pick (IsStray (ts.map Placed.token)) ts with
  | cons t more =>
    have hexists : ∃ i, IsStray (ts.map Placed.token) i := by
      obtain ⟨i, -, hi⟩ := mem_pick.mp (hstray ▸ List.mem_cons_self)
      exact ⟨i, hi⟩
    refine ⟨t.position, _, by rw [reorder_errors, hstray]; rfl, ?_, (absurd hexists ·)⟩
    exact iff_of_true (isLeast_of_pick_isStray hts hstray) (Or.inl hexists)
  | nil =>
    have hnone : ¬ ∃ i, IsStray (ts.map Placed.token) i := by
      rintro ⟨i, hi⟩
      obtain ⟨t, ht⟩ := exists_placed (Or.inl hi)
      have hmem : t ∈ pick (IsStray (ts.map Placed.token)) ts := mem_pick.mpr ⟨i, ht, hi⟩
      rw [hstray] at hmem
      cases hmem
    obtain ⟨i, hi⟩ := h
    obtain ⟨u, hu⟩ := exists_placed hi
    have hmem : u ∈ (pick (IsUnclosed (ts.map Placed.token)) ts).reverse :=
      List.mem_reverse.mpr (mem_pick.mpr ⟨i, hu, hi.resolve_left fun h => hnone ⟨i, h⟩⟩)
    obtain ⟨t, more, hunclosed⟩ := List.exists_cons_of_ne_nil (List.ne_nil_of_mem hmem)
    have hgreatest := isGreatest_of_pick_isUnclosed hts hstray hunclosed
    refine ⟨t.position, _, by rw [reorder_errors, hstray, hunclosed]; rfl, ⟨fun hleast => ?_, ?_⟩,
      fun _ => hgreatest⟩
    · -- the first is the last, so there is one
      refine Or.inr ⟨i, hi, fun j hj => ?_⟩
      obtain ⟨v, hv⟩ := exists_placed hj
      have hsame {w : Placed} {k : Nat} (hw : ts[k]? = some w)
          (hk : IsUnmatched (ts.map Placed.token) k) : w.position = t.position :=
        Nat.le_antisymm (hgreatest.2 ⟨k, w.token, hw, hk⟩) (hleast.2 ⟨k, w.token, hw, hk⟩)
      exact eq_of_position_eq hts hv hu ((hsame hv hj).trans (hsame hu hi).symm)
    · rintro (hexists | ⟨k, -, honly⟩)
      · exact absurd hexists hnone
      · refine ⟨hgreatest.1, ?_⟩
        rintro b ⟨j, v, hv, hj⟩
        obtain ⟨l, w, hw, hl⟩ := hgreatest.1
        rw [honly j hj, ← honly l hl, hw] at hv
        cases hv
        exact Nat.le_refl _

end

namespace Filter

/-- A complaint about parentheses is the reason that is given. -/
theorem read_eq_error {options : ReadOptions} {s : Text} {e : FilterError} {more : List FilterError}
    (h : (reorder (tokenize (prepare options s))).errors = e :: more) :
    read options s = .error e := by
  simp only [read]
  split
  · next hempty =>
    have hnil : (reorder (tokenize [])).errors = [] := by decide +kernel
    rw [List.isEmpty_iff.mp hempty, hnil] at h
    cases h
  · rw [ofTokens]
    simp only [h]

/-- **An expression with a parenthesis without a partner** is refused for one of them.  It is the
first of them in the text exactly if one is a `)` or there is only one; if all are `(` it is the
last. -/
theorem read_unmatched (options : ReadOptions) (s : Text) :
    let ts := tokenize (prepare options s)
    (∃ i, IsUnmatched (ts.map Placed.token) i) →
      ∃ b, read options s = .error (.unbalancedParenthesis b) ∧
        (IsLeast (unmatchedPositions ts) b ↔
          (∃ i, IsStray (ts.map Placed.token) i) ∨ ∃! i, IsUnmatched (ts.map Placed.token) i) ∧
        ((¬ ∃ i, IsStray (ts.map Placed.token) i) → IsGreatest (unmatchedPositions ts) b) := by
  intro ts h
  obtain ⟨b, more, herrors, hfirst⟩ := exists_errors_reorder (pairwise_tokenize _) h
  exact ⟨b, read_eq_error herrors, hfirst⟩

/-- A `)` too many is reported, whatever is open behind it. -/
theorem read_unmatched_close :
    let s := "(a = 1)) AND (b = 2".toList
    let ts := tokenize (prepare {} s)
    (∃ i, IsUnmatched (ts.map Placed.token) i) ∧
      read {} s = .error (.unbalancedParenthesis 7) ∧ IsLeast (unmatchedPositions ts) 7 := by
  intro s ts
  have hstray : IsStray (ts.map Placed.token) 5 := by decide +kernel
  obtain ⟨b, hread, hleast, -⟩ := read_unmatched {} s ⟨5, Or.inl hstray⟩
  have herrors : (reorder ts).errors = [.unbalancedParenthesis 7, .unbalancedParenthesis 13] := by
    decide +kernel
  obtain rfl : b = 7 := by
    cases hread.symm.trans (read_eq_error herrors)
    rfl
  exact ⟨⟨5, Or.inl hstray⟩, hread, hleast.mpr (Or.inl ⟨5, hstray⟩)⟩

/-- Of two `(` too many the second is reported. -/
theorem read_unmatched_open :
    let s := "((a = 1".toList
    let ts := tokenize (prepare {} s)
    read {} s = .error (.unbalancedParenthesis 1) ∧ 0 ∈ unmatchedPositions ts ∧
      ¬ IsLeast (unmatchedPositions ts) 1 := by
  intro s ts
  have hzero : 0 ∈ unmatchedPositions ts :=
    ⟨0, .openParen, by decide +kernel, Or.inr (by decide +kernel)⟩
  have herrors : (reorder ts).errors = [.unbalancedParenthesis 1, .unbalancedParenthesis 0] := by
    decide +kernel
  exact ⟨read_eq_error herrors, hzero, fun h => absurd (h.2 hzero) (by decide)⟩

end Filter

end Sieve
