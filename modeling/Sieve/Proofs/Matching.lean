/-
# What reordering keeps and what it reports

Matched from the left, every `)` closes the nearest `(` in front of it that no `)` has closed yet.
That is the pairing of parentheses with matching parentheses between them.  Reordering complains
of every parenthesis that is left over, once each and of nothing else; all other tokens come out,
the words among them in their order.

* `Token.partners_iff_isGreatest`: partners, said by the nearest open parenthesis;
* `pick_or_perm`: the elements at places of two kinds;
* `reorder_conserves`: what comes out of a reordering, and what is said of the rest.
-/
import Sieve.Proofs.Partners
import Mathlib.Order.Bounds.Basic

namespace Sieve

namespace Token

/-! ## 1. The nearest open parenthesis -/

variable {ts : List Token} {d e i j n : Nat}

/-- Where all is closed, each of the open parentheses is. -/
theorem Balanced.closed : ∀ {ts : List Token} {d : Nat}, Balanced d ts → ∀ e < d, Closed e ts
  | [], d, h, e, he => by
    obtain rfl : d = 0 := h
    exact absurd he (Nat.not_lt_zero e)
  | t :: ts, d, h, e, he => by
    cases t with
    | openParen =>
      have hrest : Balanced (d + 1) ts := h
      exact closed_open.mpr (hrest.closed _ (Nat.succ_lt_succ he))
    | closeParen =>
      cases e with
      | zero => exact closed_close_zero ts
      | succ e => exact closed_close.mpr (h.2.closed e (Nat.lt_sub_of_add_lt he))
    | _ =>
      have hrest : Balanced d ts := h
      exact (closed_cons_of_not_isParen rfl).mpr (hrest.closed e he)

/-- A `(` between partners has a partner between them. -/
theorem Partners.exists_between {o : Nat} (h : Partners ts i j) (hio : i < o) (hoj : o < j)
    (ho : ts[o]? = some .openParen) : ∃ k < j, Partners ts o k := by
  have hb := h.between
  rw [between_eq hio hoj ho] at hb
  obtain ⟨e, he⟩ := hb.of_append
  obtain ⟨m, hm, hclosed⟩ := Balanced.closed (d := e + 1) he 0 (Nat.succ_pos e)
  have hlt : m < j - (o + 1) := by
    have := (List.getElem?_eq_some_iff.mp hm).1
    rw [List.length_take] at this
    omega
  rw [List.getElem?_take_of_lt hlt, List.getElem?_drop] at hm
  refine ⟨o + 1 + m, by omega, ⟨by omega, ho, hm, ?_⟩⟩
  rw [List.take_take, Nat.min_eq_left (Nat.le_of_lt hlt)] at hclosed
  rwa [Nat.add_sub_cancel_left]

/-- Partners in the beginning of a list. -/
theorem partners_take : Partners (ts.take n) i j ↔ Partners ts i j ∧ j < n := by
  by_cases hj : j < n
  · have hbetween : ((ts.take n).drop (i + 1)).take (j - (i + 1)) =
        (ts.drop (i + 1)).take (j - (i + 1)) := by
      rw [List.drop_take, List.take_take, Nat.min_eq_left (by omega)]
    rw [and_iff_left hj, partners_iff, partners_iff, hbetween, List.getElem?_take_of_lt hj]
    refine and_congr_right fun hij => ?_
    rw [List.getElem?_take_of_lt (Nat.lt_trans hij hj)]
  · refine iff_of_false (fun h => hj ?_) fun h => hj h.2
    have hlt := (List.getElem?_eq_some_iff.mp h.closes).1
    exact Nat.lt_of_lt_of_le hlt (List.length_take_le n ts)

/-- **Every `)` closes the nearest `(` in front of it that is still open.** -/
theorem partners_iff_isGreatest : Partners ts i j ↔ ts[j]? = some .closeParen ∧
    IsGreatest {o | o < j ∧ ts[o]? = some .openParen ∧ ∀ k < j, ¬ Partners ts o k} i := by
  have hnearest : ∀ {i}, Partners ts i j →
      IsGreatest {o | o < j ∧ ts[o]? = some .openParen ∧ ∀ k < j, ¬ Partners ts o k} i := by
    intro i h
    refine ⟨⟨h.lt, h.opens, fun k hk h' => ?_⟩, ?_⟩
    · exact absurd (h.right_unique h') (Nat.ne_of_gt hk)
    · rintro o ⟨hoj, ho, hopen⟩
      by_contra hio
      obtain ⟨k, hk, hpartners⟩ := h.exists_between (Nat.lt_of_not_le hio) hoj ho
      exact hopen k hk hpartners
  refine ⟨fun h => ⟨h.closes, hnearest h⟩, ?_⟩
  rintro ⟨hclose, hgreatest⟩
  obtain ⟨hij, hopen, hfree⟩ := hgreatest.1
  by_cases hstray : ∃ o, Partners ts o j
  · obtain ⟨o, ho⟩ := hstray
    rwa [IsGreatest.unique (hnearest ho) hgreatest] at ho
  · -- up to `j`, a `)` without a partner would stand behind a `(` without one
    by_contra hnot
    have hj : IsStray (ts.take (j + 1)) j := by
      refine ⟨by rwa [List.getElem?_take_of_lt (Nat.lt_succ_self j)], fun o ho => ?_⟩
      exact hstray ⟨o, (partners_take.mp ho).1⟩
    have hi : IsUnclosed (ts.take (j + 1)) i := by
      refine ⟨by rwa [List.getElem?_take_of_lt (by omega)], fun k hk => ?_⟩
      obtain ⟨hpartners, hkj⟩ := partners_take.mp hk
      rcases Nat.lt_or_eq_of_le (Nat.le_of_lt_succ hkj) with hlt | rfl
      · exact hfree k hlt hpartners
      · exact hnot hpartners
    exact absurd (hj.lt_of_isUnclosed hi) (Nat.not_lt_of_lt hij)

end Token

/-! ## 2. Places of two kinds -/

/-- The elements at places of two kinds are those of one kind and those of the other. -/
theorem pick_or_perm {α : Type} {p q : Nat → Prop} [DecidablePred p] [DecidablePred q]
    (h : ∀ i, p i → ¬ q i) (xs : List α) :
    (pick (fun i => p i ∨ q i) xs).Perm (pick p xs ++ pick q xs) := by
  induction xs generalizing p q with
  | nil => exact List.Perm.nil
  | cons x xs ih =>
    have ih := ih fun i => h (i + 1)
    simp only [pick]
    by_cases hp : p 0
    · simpa [hp, h 0 hp] using ih
    · by_cases hq : q 0
      · simpa [hp, hq] using (ih.cons x).trans List.perm_middle.symm
      · simpa [hp, hq] using ih

/-! ## 3. Reordering -/

open Token Postfix

/-- **Reordering loses nothing and makes nothing up.**  Whatever the tokens are, each of them comes
out once, with its place, but for the parentheses; the words come out in their order.  There is
one complaint for each parenthesis without a partner, and no other, so there is none if and only
if the parentheses match.  Partners are what matching from the left finds: a `)` and the nearest
`(` in front of it that no `)` has closed. -/
theorem reorder_conserves (ts : List Placed) :
    (reorder ts).tokens.Perm (ts.filter fun t => !t.token.isParen) ∧
      (reorder ts).tokens.filter (fun t => t.token.isWord) = ts.filter (fun t => t.token.isWord) ∧
      (reorder ts).errors.Perm ((pick (IsUnmatched (ts.map Placed.token)) ts).map complaint) ∧
      ((reorder ts).errors = [] ↔ Balanced 0 (ts.map Placed.token)) ∧
      ∀ i j, Partners (ts.map Placed.token) i j ↔
        (ts.map Placed.token)[j]? = some .closeParen ∧
          IsGreatest {o | o < j ∧ (ts.map Placed.token)[o]? = some .openParen ∧
            ∀ k < j, ¬ Partners (ts.map Placed.token) o k} i := by
  refine ⟨reorder_perm ts, filter_isWord_reorder ts, ?_, reorder_errors_eq_nil_iff ts,
    fun i j => partners_iff_isGreatest⟩
  have hdisjoint : ∀ i, IsStray (ts.map Placed.token) i → ¬ IsUnclosed (ts.map Placed.token) i :=
    fun i hstray hunclosed => Nat.lt_irrefl i (hstray.lt_of_isUnclosed hunclosed)
  rw [reorder_errors]
  refine List.Perm.map complaint (List.Perm.trans ?_ (pick_or_perm hdisjoint ts).symm)
  exact (List.reverse_perm _).append_left _

end Sieve
