/-
# Fragments as operands

A fragment is a word that no operator has taken when a connective comes.  Until then it is a
word like any other on the stack, and a membership test takes every word it finds on top.  So a
fragment can stand for any leaf of an expression, with one exception: as the left operand of a
connective whose right operand begins with a membership test.  `x=1 OR a IN 1, 2` is refused,
while `a IN 1, 2 OR x=1` and `x=1 OR b = 2 AND a IN 1, 2` are read.

* `Gap`: a writing with one leaf left out;
* `Filter.foldlM_step_bound`: folding an expression that is not separated leaves one entry too
  few, so that a connective finds no operand;
* `build_fragment`: the filter that comes of putting a fragment in the place of a leaf, and
  when there is none.
-/
import Sieve.Proofs.Precedence

namespace Sieve

/-! ## 1. Writings with a gap -/

/-- A writing with one leaf left out. -/
inductive Gap where
  | here
  | bracket (inner : Gap)
  | onLeft (c : Connective) (gap : Gap) (right : Writing)
  | onRight (c : Connective) (left : Writing) (gap : Gap)
  deriving DecidableEq, Repr

namespace Gap

/-- The writing with the leaf in its place. -/
def fill (l : Leaf) : Gap → Writing
  | here => .leaf l
  | bracket inner => .bracket (inner.fill l)
  | onLeft c gap right => .join c (gap.fill l) right
  | onRight c left gap => .join c left (gap.fill l)

/-- Whether the missing leaf is an operand of a connective. -/
def isOperand : Gap → Bool
  | here => false
  | bracket inner => inner.isOperand
  | onLeft .. => true
  | onRight .. => true

/-- Whether the missing leaf is the left operand of a connective whose right operand begins
with a membership test. -/
def beforeList : Gap → Bool
  | here => false
  | bracket inner => inner.beforeList
  | onLeft _ gap right => if gap.isOperand then gap.beforeList else right.expr.opensWithList
  | onRight _ _ gap => gap.beforeList

/-- What is needed around the gap does not depend on the leaf. -/
theorem root?_fill (l l' : Leaf) (g : Gap) : (g.fill l).root? = (g.fill l').root? := by
  cases g <;> rfl

theorem wellBracketed_fill {l : Leaf} (l' : Leaf) : ∀ {g : Gap},
    (g.fill l).WellBracketed → (g.fill l').WellBracketed
  | .here, _ => trivial
  | .bracket inner, h => wellBracketed_fill l' (g := inner) h
  | .onLeft c gap right, h => by
    obtain ⟨hl, hr, hand, hroot⟩ := h
    exact ⟨wellBracketed_fill l' hl, hr, by rwa [root?_fill l' l], hroot⟩
  | .onRight c left gap, h => by
    obtain ⟨hl, hr, hand, hroot⟩ := h
    exact ⟨hl, wellBracketed_fill l' hr, by rwa [root?_fill l' l], by rwa [root?_fill l' l]⟩

theorem isFragment_fill (text : Text) (g : Gap) :
    (g.fill (.fragment text)).expr.isFragment = !g.isOperand := by
  induction g with
  | here => rfl
  | bracket inner ih => exact ih
  | onLeft c gap right => rfl
  | onRight c left gap => rfl

/-- A leaf that is no operand has nothing behind it. -/
theorem beforeList_eq_false : ∀ {g : Gap}, g.isOperand = false → g.beforeList = false
  | .here, _ => rfl
  | .bracket inner, h => beforeList_eq_false (g := inner) h
  | .onLeft .., h => absurd h (by simp [isOperand])
  | .onRight .., h => absurd h (by simp [isOperand])

/-- **Where a fragment may stand.**  Between conditions, a fragment in the gap keeps the
expression separated unless a membership test comes next and takes it. -/
theorem separated_fill_iff {l : Leaf} (text : Text) : ∀ {g : Gap}, (g.fill l).expr.Plain →
    ((g.fill (.fragment text)).expr.Separated ↔ g.beforeList = false)
  | .here, _ => by simp [fill, Writing.expr, Expr.Separated, beforeList]
  | .bracket inner, h => separated_fill_iff text (g := inner) h
  | .onLeft c gap right, h => by
    obtain ⟨hl, hr⟩ := Expr.plain_join_iff.mp h
    have ih := separated_fill_iff text hl
    have hfrag := isFragment_fill text gap
    simp only [fill, Writing.expr, Expr.Separated, beforeList, hfrag, ih, hr.separated, true_and]
    cases ho : gap.isOperand with
    | true => simp
    | false => simp [beforeList_eq_false ho]
  | .onRight c left gap, h => by
    obtain ⟨hl, hr⟩ := Expr.plain_join_iff.mp h
    have ih := separated_fill_iff text hr
    simp [fill, Writing.expr, Expr.Separated, beforeList, ih, hl.separated, hl.isFragment_eq_false]

end Gap

/-! ## 2. A fragment that is taken leaves an operand too few -/

namespace Filter

/-- The outcome of folding an expression, bounded: one more entry on the stack at most, unless
a connective is left without an operand. -/
def Bounded (room : Nat) (outcome : Except FilterError (List Node)) : Prop :=
  (∃ stack, outcome = .ok stack ∧ stack ≠ [] ∧ stack.length ≤ room) ∨
    ∃ (c : Connective) (position : Nat), outcome = .error (.missingOperand c.operator position)

theorem bounded_ok {room : Nat} {n : Node} {stack : List Node} (h : stack.length + 1 ≤ room) :
    Bounded room (.ok (n :: stack)) :=
  Or.inl ⟨_, rfl, by simp, by simpa using h⟩

theorem Bounded.mono {m n : Nat} (h : m ≤ n) {outcome : Except FilterError (List Node)} :
    Bounded m outcome → Bounded n outcome := by
  rintro (⟨stack, hs, hne, hlen⟩ | herr)
  · exact Or.inl ⟨stack, hs, hne, Nat.le_trans hlen h⟩
  · exact Or.inr herr

/-- Bounds follow one another: what comes next starts from a bounded stack or not at all. -/
theorem Bounded.bind {m n : Nat} {outcome : Except FilterError (List Node)}
    {next : List Node → Except FilterError (List Node)} (h : Bounded m outcome)
    (hnext : ∀ stack, stack.length ≤ m → Bounded n (next stack)) :
    Bounded n (outcome >>= next) := by
  rcases h with ⟨stack, rfl, -, hlen⟩ | ⟨c, position, rfl⟩
  · exact hnext stack hlen
  · exact Or.inr ⟨c, position, rfl⟩

/-- A connective takes two entries for one, or complains. -/
theorem step_connective_bounded {t : Placed} {c : Connective} (ht : t.token = c.token)
    {room : Nat} {stack : List Node} (h : stack.length ≤ room + 1) :
    Bounded room (step stack t) := by
  rw [step_connective ht]
  match stack with
  | [] => exact Or.inr ⟨c, t.position, rfl⟩
  | [_] => exact Or.inr ⟨c, t.position, rfl⟩
  | _ :: _ :: rest =>
    simp only [List.length_cons] at h
    exact bounded_ok (by omega)

theorem takeWords_length_le (stack : List Node) :
    (takeWords stack).2.length ≤ stack.length := by
  fun_induction takeWords stack with
  | case1 w rest ih => simp only [List.length_cons]; omega
  | case2 => exact Nat.le_refl _

/-- A membership test that finds a further word takes it. -/
theorem takeWords_length_lt {stack : List Node} (h : ¬ NoWordOnTop stack) :
    (takeWords stack).2.length < stack.length := by
  match stack with
  | [] => exact absurd (by simp [NoWordOnTop]) h
  | .condition c :: rest => exact absurd (by simp [NoWordOnTop]) h
  | .group op entries :: rest => exact absurd (by simp [NoWordOnTop]) h
  | .raw w :: rest =>
    have := takeWords_length_le rest
    simp only [takeWords, List.length_cons]
    omega

/-- Whatever words wait below it, a membership test with a list goes through, and leaves one
entry in the place of its words and of theirs. -/
theorem step_membership_below {t : Placed} {op : Operator} (ht : t.token = .membership op)
    (column first : Text) (more : List Text) (stack : List Node) :
    ∃ n, step (((column :: first :: more).map Node.raw).reverse ++ stack) t =
      .ok (n :: (takeWords stack).2) := by
  have htake := takeWords_reverse_append (column :: first :: more) stack
  simp only [step, ht, htake]
  rcases hw : (takeWords stack).1 with _ | ⟨a, _ | ⟨b, rest⟩⟩
  · exact ⟨_, rfl⟩
  · exact ⟨_, rfl⟩
  · exact ⟨_, rfl⟩

theorem foldlM_step_membership {ts : List Placed} {column first : Text} {op : Operator}
    {more : List Text} (stack : List Node)
    (hts : ts.map Placed.token = (Leaf.membership column op first more).reordered) :
    ∃ n, ts.foldlM step stack = .ok (n :: (takeWords stack).2) := by
  obtain ⟨words, last, rfl, hwords, hlast⟩ := List.map_eq_append_iff.mp hts
  obtain ⟨t, last, rfl, ht, hlast⟩ := List.map_eq_cons_iff.mp hlast
  obtain rfl := List.map_eq_nil_iff.mp hlast
  obtain ⟨n, hn⟩ := step_membership_below ht column first more stack
  refine ⟨n, ?_⟩
  rw [List.foldlM_append, foldlM_step_words (column :: first :: more) _ hwords]
  change [t].foldlM step _ = _
  rw [List.foldlM_cons, hn]
  rfl

/-- Whether an expression loses an operand when it is folded above this stack: a word waits
there for the membership test that the expression begins with, or it is not separated. -/
def Loses (e : Expr) (stack : List Node) : Prop :=
  (e.opensWithList = true ∧ ¬ NoWordOnTop stack) ∨ ¬ e.Separated

theorem foldlM_step_leaf_bounded (l : Leaf) {ts : List Placed} {stack : List Node}
    (hts : ts.map Placed.token = l.reordered) :
    Bounded (stack.length + 1) (ts.foldlM step stack) ∧
      (Loses (.leaf l) stack → Bounded stack.length (ts.foldlM step stack)) := by
  by_cases hm : l.isMembership = true
  · obtain ⟨column, op, first, more, rfl⟩ : ∃ column op first more,
        l = .membership column op first more := by
      cases l <;> simp_all [Leaf.isMembership]
    obtain ⟨n, hfold⟩ := foldlM_step_membership stack hts
    rw [hfold]
    refine ⟨bounded_ok ?_, ?_⟩
    · have := takeWords_length_le stack
      omega
    · rintro (⟨-, hw⟩ | hs)
      · exact bounded_ok (takeWords_length_lt hw)
      · exact absurd trivial hs
  · rw [foldlM_step_leaf l hts (fun h => absurd h hm)]
    refine ⟨bounded_ok (Nat.le_refl _), ?_⟩
    rintro (⟨hopen, -⟩ | hs)
    · exact absurd hopen hm
    · exact absurd trivial hs

/-- A fragment on the left of a connective waits as a word when the right operand is folded. -/
theorem foldlM_step_fragment {e : Expr} (he : e.isFragment = true) {ts : List Placed}
    (stack : List Node) (hts : ts.map Placed.token = e.reordered) :
    ∃ text, ts.foldlM step stack = .ok (.raw text :: stack) := by
  match e with
  | .leaf (.fragment text) => exact ⟨text, foldlM_step_leaf (.fragment text) hts (by simp [Leaf.isMembership])⟩

/-- **Folding any expression, bounded.**  It leaves at most one entry more than there was, and
at most as many as there were if it loses an operand. -/
theorem foldlM_step_bounded (e : Expr) : ∀ {ts : List Placed} {stack : List Node},
    ts.map Placed.token = e.reordered →
    Bounded (stack.length + 1) (ts.foldlM step stack) ∧
      (Loses e stack → Bounded stack.length (ts.foldlM step stack)) := by
  induction e with
  | leaf l =>
    intro ts stack hts
    exact foldlM_step_leaf_bounded l hts
  | join c left right ihl ihr =>
    intro ts stack hts
    obtain ⟨both, last, rfl, hboth, hlast⟩ := List.map_eq_append_iff.mp hts
    obtain ⟨tl, tr, rfl, htl, htr⟩ := List.map_eq_append_iff.mp hboth
    obtain ⟨t, last, rfl, ht, hlast⟩ := List.map_eq_cons_iff.mp hlast
    obtain rfl := List.map_eq_nil_iff.mp hlast
    rw [List.foldlM_append, List.foldlM_append]
    -- the connective takes back one of the two entries that its operands may leave
    have hclose : ∀ {room : Nat} {both : Except FilterError (List Node)},
        Bounded (room + 1) both → Bounded room (both >>= fun s => [t].foldlM step s) := by
      intro room both h
      refine h.bind ?_
      intro s hs
      rw [List.foldlM_cons]
      simpa using step_connective_bounded ht hs
    constructor
    · refine hclose ((ihl htl).1.bind ?_)
      intro s hs
      exact (ihr htr).1.mono (by omega)
    · intro hloses
      refine hclose ?_
      have hcases : Loses left stack ∨ ¬ right.Separated ∨
          (left.isFragment = true ∧ right.opensWithList = true) := by
        rcases hloses with ⟨hopen, hw⟩ | hsep
        · exact Or.inl (Or.inl ⟨hopen, hw⟩)
        · by_cases hl : left.Separated
          · by_cases hr : right.Separated
            · exact Or.inr (Or.inr (Classical.byContradiction fun h => hsep ⟨hl, hr, h⟩))
            · exact Or.inr (Or.inl hr)
          · exact Or.inl (Or.inr hl)
      rcases hcases with hleft | hright | ⟨hfrag, hopen⟩
      · refine ((ihl htl).2 hleft).bind ?_
        intro s hs
        exact (ihr htr).1.mono (by omega)
      · refine (ihl htl).1.bind ?_
        intro s hs
        exact ((ihr htr).2 (Or.inr hright)).mono hs
      · obtain ⟨text, hfold⟩ := foldlM_step_fragment hfrag stack htl
        rw [hfold]
        exact (ihr htr).2 (Or.inl ⟨hopen, by simp [NoWordOnTop]⟩)

/-- An expression that is not separated builds nothing: a connective is left without an
operand. -/
theorem build_not_separated {e : Expr} (h : ¬ e.Separated) {ts : List Placed}
    (hts : ts.map Placed.token = e.reordered) :
    ∃ (c : Connective) (position : Nat),
      build ts = .error (.missingOperand c.operator position) := by
  have hbounded : Bounded 0 (ts.foldlM step []) := (foldlM_step_bounded e hts).2 (Or.inr h)
  rcases hbounded with ⟨stack, -, hne, hlen⟩ | ⟨c, position, herr⟩
  · exact absurd (List.length_eq_zero_iff.mp (Nat.le_zero.mp hlen)) hne
  · refine ⟨c, position, ?_⟩
    rw [build, herr]
    rfl

end Filter

/-! ## 3. A fragment in the place of a leaf -/

/-- **Fragments as operands.**  Take a well-bracketed writing of conditions and an operand of
one of its connectives, and write one word instead.  Reordering does not complain, and the
filter is the same with the word as a fragment in that place, unless the operand stands on the
left of a connective whose right operand begins with a membership test: then there is none. -/
theorem build_fragment {g : Gap} {l : Leaf} (ho : g.isOperand = true)
    (hw : (g.fill l).WellBracketed) (hp : (g.fill l).expr.Plain) {text : Text} {ts : List Placed}
    (hts : ts.map Placed.token = (g.fill (.fragment text)).tokens) :
    (reorder ts).errors = [] ∧
      (g.beforeList = false →
        Filter.build (reorder ts).tokens = .ok (g.fill (.fragment text)).expr.filter) ∧
      (g.beforeList = true → ∃ (c : Connective) (position : Nat),
        Filter.build (reorder ts).tokens = .error (.missingOperand c.operator position)) := by
  obtain ⟨herr, htok⟩ := reorder_writing (Gap.wellBracketed_fill (.fragment text) hw) hts
  have hsep := Gap.separated_fill_iff text hp
  refine ⟨herr, ?_, ?_⟩
  · intro hb
    have hfrag : (g.fill (.fragment text)).expr.isFragment = false := by
      rw [Gap.isFragment_fill, ho]
      rfl
    exact Filter.build_reordered (hsep.mpr hb) hfrag htok
  · intro hb
    refine Filter.build_not_separated ?_ htok
    rw [hsep, hb]
    simp

/-- In `(a IN 1, 2 OR b = 2) AND c IN 3` the comparison may become a fragment: the connective
that takes it comes before the second list. -/
theorem build_fragment_closed :
    let g : Gap := .onLeft .and
      (.bracket (.onRight .or (.leaf (.membership ['a'] .inList ['1', ','] [['2']])) .here))
      (.leaf (.membership ['c'] .inList ['3'] []))
    let l : Leaf := .comparison ['b'] .equal ['2']
    let ts : List Placed := [⟨.openParen, 0⟩, ⟨.word ['a'], 1⟩, ⟨.membership .inList, 3⟩,
      ⟨.word ['1', ','], 6⟩, ⟨.word ['2'], 9⟩, ⟨.or, 11⟩, ⟨.word ['b', '=', '2'], 14⟩,
      ⟨.closeParen, 17⟩, ⟨.and, 19⟩, ⟨.word ['c'], 23⟩, ⟨.membership .inList, 25⟩,
      ⟨.word ['3'], 28⟩]
    (g.fill l).WellBracketed ∧ (g.fill l).expr.Plain ∧
      (reorder ts).errors = [] ∧
      Filter.build (reorder ts).tokens =
        .ok (g.fill (.fragment ['b', '=', '2'])).expr.filter := by
  intro g l ts
  have hw : (g.fill l).WellBracketed := by
    simp [g, l, Gap.fill, Writing.WellBracketed, Writing.root?]
  have hp : (g.fill l).expr.Plain := by
    simp [g, l, Gap.fill, Writing.expr, Expr.Plain, Expr.leaves, Leaf.isFragment]
  have hts : ts.map Placed.token = (g.fill (.fragment ['b', '=', '2'])).tokens := rfl
  have h := build_fragment rfl hw hp hts
  exact ⟨hw, hp, h.1, h.2.1 rfl⟩

/-- In `x = 1 OR a IN 1, 2` the comparison may not: the list takes `x=1` for its column, and
`OR` finds one operand. -/
theorem build_fragment_before_list :
    let g : Gap := .onLeft .or .here (.leaf (.membership ['a'] .inList ['1', ','] [['2']]))
    let l : Leaf := .comparison ['x'] .equal ['1']
    let ts : List Placed := [⟨.word ['x', '=', '1'], 0⟩, ⟨.or, 4⟩, ⟨.word ['a'], 7⟩,
      ⟨.membership .inList, 9⟩, ⟨.word ['1', ','], 12⟩, ⟨.word ['2'], 15⟩]
    g.isOperand = true ∧ (g.fill l).WellBracketed ∧ (g.fill l).expr.Plain ∧
      ts.map Placed.token = (g.fill (.fragment ['x', '=', '1'])).tokens ∧
      Filter.build (reorder ts).tokens = .error (.missingOperand .or 4) := by
  intro g l ts
  refine ⟨rfl, ?_, ?_, rfl, rfl⟩
  · simp [g, l, Gap.fill, Writing.WellBracketed, Writing.root?]
  · simp [g, l, Gap.fill, Writing.expr, Expr.Plain, Expr.leaves, Leaf.isFragment]

end Sieve
