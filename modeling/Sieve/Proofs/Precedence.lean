/-
# Precedence and associativity

Reordering and folding read every writing of an expression as that expression.  The two halves
meet in the postfix order of the tree:

* `reorder_writing`: reordering a well-bracketed writing reports nothing and leaves exactly the
  tokens of the tree in postfix order, whatever parentheses were redundant;
* `foldlM_step_reordered`: folding them puts the entry of the tree on the stack, above whatever
  was there.

The second half has one condition.  A membership test takes the whole run of words on top of
the stack, so a fragment that waits there would be taken too; `Expr.Separated` says that no
fragment stands where this happens.  Expressions without fragments are separated.

* `build_writing`: both together.
-/
import Sieve.Postfix
import Sieve.Proofs.Expression

namespace Sieve

namespace Postfix

/-! ## 1. What one token does to the waiting operators -/

@[simp] theorem emit_nil (p : Postfix) : p.emit [] = p := rfl

theorem emit_emit (out more : List Placed) (p : Postfix) :
    (p.emit more).emit out = p.emit (out ++ more) := by
  simp [emit]

theorem yields_iff {tier : Nat} {t : Placed} :
    yields tier t = true ↔ ∃ p, t.token.precedence = some p ∧ tier ≤ p := by
  unfold yields
  cases t.token.precedence <;> simp

theorem yields_mono {m n : Nat} (h : m ≤ n) {t : Placed} (ht : yields n t = true) :
    yields m t = true := by
  obtain ⟨p, hp, hn⟩ := yields_iff.mp ht
  exact yields_iff.mpr ⟨p, hp, Nat.le_trans h hn⟩

theorem isNotOpen_of_yields {tier : Nat} {t : Placed} (ht : yields tier t = true) :
    isNotOpen t = true := by
  obtain ⟨p, hp, -⟩ := yields_iff.mp ht
  have : t.token ≠ .openParen := by
    intro h
    rw [h] at hp
    exact absurd hp (by simp [Token.precedence])
  simpa [isNotOpen] using this

/-- The waiting operator on top, if there is one, stays behind an operator of this tier. -/
def Quiet (tier : Nat) (waiting : List Placed) : Prop :=
  ∀ top ∈ waiting.head?, yields tier top = false

theorem quiet_nil (tier : Nat) : Quiet tier [] := by simp [Quiet]

theorem Quiet.mono {m n : Nat} (h : m ≤ n) {waiting : List Placed} (hq : Quiet m waiting) :
    Quiet n waiting := by
  intro top htop
  have h1 := hq top htop
  rcases hn : yields n top with _ | _
  · rfl
  · rw [yields_mono h hn] at h1
    exact absurd h1 (by simp)

/-- Behind an open parenthesis every operator waits. -/
theorem quiet_openParen {t : Placed} (ht : t.token = .openParen) (tier : Nat)
    (waiting : List Placed) : Quiet tier (t :: waiting) := by
  simp [Quiet, yields, ht, Token.precedence]

theorem Quiet.takeWhile_eq {tier : Nat} {waiting : List Placed} (h : Quiet tier waiting) :
    waiting.takeWhile (yields tier) = [] := by
  cases waiting with
  | nil => rfl
  | cons top rest => simp [h top (by simp)]

theorem Quiet.dropWhile_eq {tier : Nat} {waiting : List Placed} (h : Quiet tier waiting) :
    waiting.dropWhile (yields tier) = waiting := by
  cases waiting with
  | nil => rfl
  | cons top rest => simp [h top (by simp)]

theorem reorderFrom_word {t : Placed} {w : Text} (ht : t.token = .word w)
    (waiting input : List Placed) :
    reorderFrom waiting (t :: input) = (reorderFrom waiting input).emit [t] := by
  rw [reorderFrom, ht]

theorem reorderFrom_words {words : List Text} : ∀ {ts : List Placed} (waiting input : List Placed),
    ts.map Placed.token = words.map Token.word →
    reorderFrom waiting (ts ++ input) = (reorderFrom waiting input).emit ts := by
  induction words with
  | nil =>
    intro ts waiting input hts
    rw [List.map_eq_nil_iff.mp hts]
    simp
  | cons w more ih =>
    intro ts waiting input hts
    obtain ⟨t, rest, rfl, ht, hrest⟩ := List.map_eq_cons_iff.mp hts
    rw [List.cons_append, reorderFrom_word ht, ih waiting input hrest, emit_emit]
    rfl

theorem reorderFrom_openParen {t : Placed} (ht : t.token = .openParen)
    (waiting input : List Placed) :
    reorderFrom waiting (t :: input) = reorderFrom (t :: waiting) input := by
  rw [reorderFrom, ht]

/-- A closing parenthesis sends out what waits above its partner. -/
theorem reorderFrom_closeParen {t o : Placed} (ht : t.token = .closeParen)
    (ho : o.token = .openParen) {pend : List Placed} (hp : ∀ q ∈ pend, isNotOpen q = true)
    (waiting input : List Placed) :
    reorderFrom (pend ++ o :: waiting) (t :: input) = (reorderFrom waiting input).emit pend := by
  have hopen : isNotOpen o = false := by simp [isNotOpen, ho]
  have hdrop : (pend ++ o :: waiting).dropWhile isNotOpen = o :: waiting := by
    rw [List.dropWhile_append_of_pos hp]
    simp [hopen]
  have htake : (pend ++ o :: waiting).takeWhile isNotOpen = pend := by
    rw [List.takeWhile_append_of_pos hp]
    simp [hopen]
  rw [reorderFrom, ht]
  simp only [hdrop, htake]

theorem reorderFrom_precedence {t : Placed} {tier : Nat} (ht : t.token.precedence = some tier)
    (waiting input : List Placed) :
    reorderFrom waiting (t :: input) =
      (reorderFrom (t :: waiting.dropWhile (yields tier)) input).emit
        (waiting.takeWhile (yields tier)) := by
  rcases t with ⟨token, position⟩
  cases token with
  | openParen | closeParen | word => cases ht
  | and | or | compare | membership | nullTest =>
    cases ht
    rfl

/-- An operator sends out what binds at least as tightly, and waits. -/
theorem reorderFrom_operator {t : Placed} {tier : Nat} (ht : t.token.precedence = some tier)
    {pend waiting : List Placed} (hp : ∀ q ∈ pend, yields tier q = true)
    (hw : Quiet tier waiting) (input : List Placed) :
    reorderFrom (pend ++ waiting) (t :: input) =
      (reorderFrom (t :: waiting) input).emit pend := by
  have hdrop : (pend ++ waiting).dropWhile (yields tier) = waiting := by
    rw [List.dropWhile_append_of_pos hp, hw.dropWhile_eq]
  have htake : (pend ++ waiting).takeWhile (yields tier) = pend := by
    rw [List.takeWhile_append_of_pos hp, hw.takeWhile_eq, List.append_nil]
  rw [reorderFrom_precedence ht, hdrop, htake]

/-- The operator of a condition waits above a quiet stack. -/
theorem reorderFrom_condition {t : Placed} (ht : t.token.precedence = some 3)
    {waiting : List Placed} (hw : Quiet 3 waiting) (input : List Placed) :
    reorderFrom waiting (t :: input) = reorderFrom (t :: waiting) input := by
  have hnone : ∀ q ∈ ([] : List Placed), yields 3 q = true := by simp
  have h := reorderFrom_operator ht hnone hw input
  simpa using h

/-- At the end of the input the waiting operators go out, the latest first. -/
theorem finish_eq {pend : List Placed} (h : ∀ q ∈ pend, isNotOpen q = true) :
    finish pend = ⟨pend, []⟩ := by
  induction pend with
  | nil => rfl
  | cons top rest ih =>
    have htop : top.token ≠ .openParen := by simpa [isNotOpen] using h top (by simp)
    have hrest := ih (fun q hq => h q (List.mem_cons_of_mem _ hq))
    simp [finish, htop, hrest, emit]

/-! ## 2. Reordering a writing -/

/-- Reading `ts` above the waiting tokens sends out `out` and leaves `pend` waiting as well,
whatever follows. -/
def Reads (waiting ts out pend : List Placed) : Prop :=
  ∀ input, reorderFrom waiting (ts ++ input) = (reorderFrom (pend ++ waiting) input).emit out

/-- A leaf sends out its words and leaves its operator waiting. -/
theorem reads_leaf (l : Leaf) {waiting ts : List Placed} (hw : Quiet 3 waiting)
    (hts : ts.map Placed.token = l.tokens) :
    ∃ out pend, Reads waiting ts out pend ∧ (∀ q ∈ pend, yields 3 q = true) ∧
      (out ++ pend).map Placed.token = l.reordered := by
  cases l with
  | comparison column op literal =>
    obtain ⟨a, ts, rfl, ha, hts⟩ := List.map_eq_cons_iff.mp hts
    obtain ⟨b, ts, rfl, hb, hts⟩ := List.map_eq_cons_iff.mp hts
    obtain ⟨c, ts, rfl, hc, hts⟩ := List.map_eq_cons_iff.mp hts
    obtain rfl := List.map_eq_nil_iff.mp hts
    have hp : b.token.precedence = some 3 := by rw [hb]; rfl
    refine ⟨[a, c], [b], ?_, ?_, ?_⟩
    · intro input
      simp only [List.cons_append, List.nil_append]
      rw [reorderFrom_word ha, reorderFrom_condition hp hw, reorderFrom_word hc, emit_emit]
      rfl
    · simp [yields, hp]
    · simp [ha, hb, hc, Leaf.reordered]
  | membership column op first more =>
    obtain ⟨a, ts, rfl, ha, hts⟩ := List.map_eq_cons_iff.mp hts
    obtain ⟨b, ts, rfl, hb, hts⟩ := List.map_eq_cons_iff.mp hts
    have hp : b.token.precedence = some 3 := by rw [hb]; rfl
    refine ⟨a :: ts, [b], ?_, ?_, ?_⟩
    · intro input
      simp only [List.cons_append, List.nil_append]
      rw [reorderFrom_word ha, reorderFrom_condition hp hw, reorderFrom_words _ _ hts, emit_emit]
      rfl
    · simp [yields, hp]
    · simp [ha, hb, hts, Leaf.reordered]
  | nullTest column op =>
    obtain ⟨a, ts, rfl, ha, hts⟩ := List.map_eq_cons_iff.mp hts
    obtain ⟨b, ts, rfl, hb, hts⟩ := List.map_eq_cons_iff.mp hts
    obtain rfl := List.map_eq_nil_iff.mp hts
    have hp : b.token.precedence = some 3 := by rw [hb]; rfl
    refine ⟨[a], [b], ?_, ?_, ?_⟩
    · intro input
      simp only [List.cons_append, List.nil_append]
      rw [reorderFrom_word ha, reorderFrom_condition hp hw]
    · simp [yields, hp]
    · simp [ha, hb, Leaf.reordered]
  | fragment text =>
    obtain ⟨a, ts, rfl, ha, hts⟩ := List.map_eq_cons_iff.mp hts
    obtain rfl := List.map_eq_nil_iff.mp hts
    refine ⟨[a], [], ?_, by simp, by simp [ha, Leaf.reordered]⟩
    intro input
    simp only [List.cons_append, List.nil_append]
    rw [reorderFrom_word ha]

/-- **One writing in any context.**  Above a stack that is quiet for its tier, a well-bracketed
writing sends out and leaves waiting, together, the tokens of its expression in postfix order;
what it leaves waiting goes out as soon as an operator no tighter than its root comes. -/
theorem reads_writing {w : Writing} : w.WellBracketed → ∀ {waiting ts : List Placed},
    Quiet w.tier waiting → ts.map Placed.token = w.tokens →
    ∃ out pend, Reads waiting ts out pend ∧ (∀ q ∈ pend, yields w.tier q = true) ∧
      (out ++ pend).map Placed.token = w.expr.reordered := by
  induction w with
  | leaf l =>
    intro _ waiting ts hq hts
    exact reads_leaf l hq hts
  | bracket inner ih =>
    intro hw waiting ts _ hts
    obtain ⟨o, ts, rfl, ho, hts⟩ := List.map_eq_cons_iff.mp hts
    obtain ⟨body, last, rfl, hbody, hlast⟩ := List.map_eq_append_iff.mp hts
    obtain ⟨t, last, rfl, ht, hlast⟩ := List.map_eq_cons_iff.mp hlast
    obtain rfl := List.map_eq_nil_iff.mp hlast
    obtain ⟨out, pend, hread, hpend, htok⟩ :=
      ih hw (quiet_openParen ho inner.tier waiting) hbody
    -- the closing parenthesis sends out all that the inside left waiting
    refine ⟨out ++ pend, [], ?_, by simp, by simpa [Writing.expr] using htok⟩
    intro input
    have hin : o :: (body ++ [t]) ++ input = o :: (body ++ t :: input) := by simp
    rw [hin, reorderFrom_openParen ho, hread, reorderFrom_closeParen ht ho
      (fun q hq => isNotOpen_of_yields (hpend q hq)), emit_emit]
    rfl
  | join c left right ihl ihr =>
    intro hw waiting ts hq hts
    obtain ⟨hwl, hwr, hleft, hright⟩ := Writing.wellBracketed_join_iff.mp hw
    have hq : Quiet c.tier waiting := hq
    obtain ⟨tl, rest, rfl, htl, hrest⟩ := List.map_eq_append_iff.mp hts
    obtain ⟨t, tr, rfl, ht, htr⟩ := List.map_eq_cons_iff.mp hrest
    have hp : t.token.precedence = some c.tier := by rw [ht]; exact c.precedence_token
    obtain ⟨outl, pendl, hreadl, hpendl, htokl⟩ := ihl hwl (hq.mono hleft) htl
    -- the connective is looser than the right operand, so nothing there sends it out
    have hqr : Quiet right.tier (t :: waiting) := by
      intro top htop
      obtain rfl : t = top := by simpa using htop
      rcases hy : yields right.tier t with _ | _
      · rfl
      · obtain ⟨p, hp', hle⟩ := yields_iff.mp hy
        rw [hp] at hp'
        obtain rfl : c.tier = p := by simpa using hp'
        omega
    obtain ⟨outr, pendr, hreadr, hpendr, htokr⟩ := ihr hwr hqr htr
    refine ⟨outl ++ pendl ++ outr, pendr ++ [t], ?_, ?_, ?_⟩
    · intro input
      have hin : tl ++ t :: tr ++ input = tl ++ t :: (tr ++ input) := by simp
      rw [hin, hreadl, reorderFrom_operator hp
        (fun q hq => yields_mono hleft (hpendl q hq)) hq, hreadr, emit_emit, emit_emit]
      simp
    · intro q hq
      rcases List.mem_append.mp hq with h | h
      · exact yields_mono (Nat.le_of_lt hright) (hpendr q h)
      · rw [List.mem_singleton.mp h]
        exact yields_iff.mpr ⟨c.tier, hp, Nat.le_refl _⟩
    · have hl : outl.map Placed.token ++ pendl.map Placed.token = left.expr.reordered := by
        simpa using htokl
      have hr : outr.map Placed.token ++ pendr.map Placed.token = right.expr.reordered := by
        simpa using htokr
      simp [Writing.expr, Expr.reordered, ← hl, ← hr, ht]

end Postfix

/-- **Reordering a writing.**  Nothing is reported, and what comes out is the expression in
postfix order. -/
theorem reorder_writing {w : Writing} (hw : w.WellBracketed) {ts : List Placed}
    (hts : ts.map Placed.token = w.tokens) :
    (reorder ts).errors = [] ∧ (reorder ts).tokens.map Placed.token = w.expr.reordered := by
  obtain ⟨out, pend, hread, hpend, htok⟩ :=
    Postfix.reads_writing hw (Postfix.quiet_nil _) hts
  have h : reorder ts = (Postfix.finish pend).emit out := by
    have := hread []
    simpa [reorder, Postfix.reorderFrom] using this
  rw [h, Postfix.finish_eq (fun q hq => Postfix.isNotOpen_of_yields (hpend q hq))]
  exact ⟨rfl, htok⟩

/-! ## 3. Where fragments may stand -/

namespace Expr

/-- Whether the leftmost leaf is a membership test. -/
def opensWithList : Expr → Bool
  | leaf l => l.isMembership
  | join _ left _ => left.opensWithList

/-- Whether the expression is one fragment. -/
def isFragment : Expr → Bool
  | leaf l => l.isFragment
  | join .. => false

/-- No fragment is the left operand of a connective whose right operand begins with a
membership test.  There the fragment would be the word below the words of the list. -/
def Separated : Expr → Prop
  | leaf _ => True
  | join _ left right =>
    left.Separated ∧ right.Separated ∧
      ¬ (left.isFragment = true ∧ right.opensWithList = true)

/-- Every leaf is a condition. -/
def Plain (e : Expr) : Prop := ∀ l ∈ e.leaves, l.isFragment = false

theorem plain_join_iff {c : Connective} {left right : Expr} :
    (join c left right).Plain ↔ left.Plain ∧ right.Plain := by
  simp only [Plain, leaves, List.mem_append]
  constructor
  · intro h
    exact ⟨fun l hl => h l (Or.inl hl), fun l hl => h l (Or.inr hl)⟩
  · rintro ⟨h1, h2⟩ l (hl | hl)
    · exact h1 l hl
    · exact h2 l hl

theorem Plain.isFragment_eq_false {e : Expr} (h : e.Plain) : e.isFragment = false := by
  cases e with
  | leaf l => exact h l (by simp [leaves])
  | join c left right => rfl

theorem Plain.separated {e : Expr} (h : e.Plain) : e.Separated := by
  induction e with
  | leaf l => trivial
  | join c left right ihl ihr =>
    obtain ⟨hl, hr⟩ := plain_join_iff.mp h
    refine ⟨ihl hl, ihr hr, ?_⟩
    rintro ⟨hf, -⟩
    rw [hl.isFragment_eq_false] at hf
    exact absurd hf (by simp)

end Expr

/-! ## 4. Folding the postfix order -/

namespace Filter

/-- No plain word waits on top of the stack. -/
def NoWordOnTop (stack : List Node) : Prop := ∀ w, stack.head? ≠ some (.raw w)

theorem takeWords_of_noWordOnTop {stack : List Node} (h : NoWordOnTop stack) :
    takeWords stack = ([], stack) := by
  unfold takeWords
  split
  · rename_i w rest
    exact absurd rfl (h w)
  · rfl

/-- The words pushed one after the other come back in their order, behind those below them. -/
theorem takeWords_reverse_append (words : List Text) (stack : List Node) :
    takeWords ((words.map Node.raw).reverse ++ stack) =
      ((takeWords stack).1 ++ words, (takeWords stack).2) := by
  have h : ∀ l : List Text, takeWords (l.map Node.raw ++ stack) =
      ((takeWords stack).1 ++ l.reverse, (takeWords stack).2) := by
    intro l
    induction l with
    | nil => simp
    | cons w more ih => simp [takeWords, ih]
  rw [← List.map_reverse, h, List.reverse_reverse]

theorem foldlM_step_words (words : List Text) : ∀ {ts : List Placed} (stack : List Node),
    ts.map Placed.token = words.map Token.word →
    ts.foldlM step stack = .ok ((words.map Node.raw).reverse ++ stack) := by
  induction words with
  | nil =>
    intro ts stack hts
    rw [List.map_eq_nil_iff.mp hts]
    rfl
  | cons w more ih =>
    intro ts stack hts
    obtain ⟨t, rest, rfl, ht, hrest⟩ := List.map_eq_cons_iff.mp hts
    have hstep : step stack t = .ok (.raw w :: stack) := by simp [step, ht]
    rw [List.foldlM_cons, hstep]
    change rest.foldlM step (.raw w :: stack) = _
    rw [ih _ hrest]
    simp

theorem step_connective {t : Placed} {c : Connective} (ht : t.token = c.token)
    (stack : List Node) : step stack t = reduceGroup c.operator t.position stack := by
  cases c <;> simp [step, ht, Connective.token, Connective.operator]

/-- A membership test takes the column and every word of its list, and with them each word
that waits right below. -/
theorem step_membership {t : Placed} {op : Operator} (ht : t.token = .membership op)
    {column first : Text} {more : List Text} {stack : List Node} (h : NoWordOnTop stack) :
    step (((column :: first :: more).map Node.raw).reverse ++ stack) t =
      .ok ((Leaf.membership column op first more).node :: stack) := by
  have htake := takeWords_reverse_append (column :: first :: more) stack
  rw [takeWords_of_noWordOnTop h] at htake
  simp only [step, ht, htake, List.nil_append, Leaf.node]

/-- Folding a leaf puts its entry on the stack. -/
theorem foldlM_step_leaf (l : Leaf) {ts : List Placed} {stack : List Node}
    (hts : ts.map Placed.token = l.reordered)
    (htop : l.isMembership = true → NoWordOnTop stack) :
    ts.foldlM step stack = .ok (l.node :: stack) := by
  cases l with
  | comparison column op literal =>
    obtain ⟨a, ts, rfl, ha, hts⟩ := List.map_eq_cons_iff.mp hts
    obtain ⟨b, ts, rfl, hb, hts⟩ := List.map_eq_cons_iff.mp hts
    obtain ⟨c, ts, rfl, hc, hts⟩ := List.map_eq_cons_iff.mp hts
    obtain rfl := List.map_eq_nil_iff.mp hts
    simp [step, ha, hb, hc, popWord, Leaf.node, bind, Except.bind, pure, Except.pure]
  | membership column op first more =>
    obtain ⟨words, last, rfl, hwords, hlast⟩ := List.map_eq_append_iff.mp hts
    obtain ⟨t, last, rfl, ht, hlast⟩ := List.map_eq_cons_iff.mp hlast
    obtain rfl := List.map_eq_nil_iff.mp hlast
    rw [List.foldlM_append, foldlM_step_words (column :: first :: more) _ hwords]
    change [t].foldlM step _ = _
    rw [List.foldlM_cons, step_membership ht (htop rfl)]
    rfl
  | nullTest column op =>
    obtain ⟨a, ts, rfl, ha, hts⟩ := List.map_eq_cons_iff.mp hts
    obtain ⟨b, ts, rfl, hb, hts⟩ := List.map_eq_cons_iff.mp hts
    obtain rfl := List.map_eq_nil_iff.mp hts
    simp [step, ha, hb, popWord, Leaf.node, bind, Except.bind, pure, Except.pure]
  | fragment text =>
    obtain ⟨a, ts, rfl, ha, hts⟩ := List.map_eq_cons_iff.mp hts
    obtain rfl := List.map_eq_nil_iff.mp hts
    simp [step, ha, Leaf.node, bind, Except.bind, pure, Except.pure]

theorem noWordOnTop_node {e : Expr} (h : e.isFragment = false) (stack : List Node) :
    NoWordOnTop (e.node :: stack) := by
  intro w hw
  have : e.node = .raw w := by simpa using hw
  cases e with
  | leaf l => cases l <;> simp_all [Expr.node, Leaf.node, Expr.isFragment, Leaf.isFragment]
  | join c left right => simp [Expr.node] at this

/-- **Folding an expression.**  The tokens of a separated expression in postfix order put its
entry on the stack. -/
theorem foldlM_step_reordered {e : Expr} : e.Separated → ∀ {ts : List Placed} {stack : List Node},
    ts.map Placed.token = e.reordered → (e.opensWithList = true → NoWordOnTop stack) →
    ts.foldlM step stack = .ok (e.node :: stack) := by
  induction e with
  | leaf l =>
    intro _ ts stack hts htop
    exact foldlM_step_leaf l hts htop
  | join c left right ihl ihr =>
    rintro ⟨hl, hr, hsep⟩ ts stack hts htop
    obtain ⟨both, last, rfl, hboth, hlast⟩ := List.map_eq_append_iff.mp hts
    obtain ⟨tl, tr, rfl, htl, htr⟩ := List.map_eq_append_iff.mp hboth
    obtain ⟨t, last, rfl, ht, hlast⟩ := List.map_eq_cons_iff.mp hlast
    obtain rfl := List.map_eq_nil_iff.mp hlast
    have hleft : tl.foldlM step stack = .ok (left.node :: stack) := ihl hl htl htop
    -- a membership test that begins the right operand finds the left one as a condition
    have hright : tr.foldlM step (left.node :: stack) =
        .ok (right.node :: left.node :: stack) := by
      refine ihr hr htr ?_
      intro hopen
      exact noWordOnTop_node (by simpa using fun h => hsep ⟨h, hopen⟩) stack
    rw [List.foldlM_append, List.foldlM_append, hleft]
    change (tr.foldlM step (left.node :: stack) >>= fun s => [t].foldlM step s) = _
    rw [hright]
    change [t].foldlM step (right.node :: left.node :: stack) = _
    rw [List.foldlM_cons, step_connective ht]
    rfl

theorem finish_node {e : Expr} (h : e.isFragment = false) : finish [e.node] = .ok e.filter := by
  cases e with
  | leaf l => cases l <;> simp_all [Expr.node, Leaf.node, Expr.isFragment, Leaf.isFragment,
      finish, Expr.filter]
  | join c left right => rfl

/-- The filter of a separated expression is what its postfix order builds. -/
theorem build_reordered {e : Expr} (hs : e.Separated) (hf : e.isFragment = false)
    {ts : List Placed} (hts : ts.map Placed.token = e.reordered) :
    build ts = .ok e.filter := by
  have hfold : ts.foldlM step [] = .ok [e.node] :=
    foldlM_step_reordered hs hts (fun _ => by simp [NoWordOnTop])
  rw [build, hfold]
  exact finish_node hf

end Filter

/-! ## 5. Both together -/

/-- **Precedence and associativity.**  Every well-bracketed writing of an expression without
fragments is reordered without complaint and folds to the filter of the expression. -/
theorem build_writing {e : Expr} {w : Writing} (he : w.expr = e) (hw : w.WellBracketed)
    (hp : e.Plain) {ts : List Placed} (hts : ts.map Placed.token = w.tokens) :
    (reorder ts).errors = [] ∧ Filter.build (reorder ts).tokens = .ok e.filter := by
  obtain ⟨herr, htok⟩ := reorder_writing hw hts
  rw [he] at htok
  exact ⟨herr, Filter.build_reordered hp.separated hp.isFragment_eq_false htok⟩

/-- `a = 1 AND ((b IN 2, 3 OR c IS NULL))`, where one pair of parentheses is needed and the
other is not. -/
theorem build_writing_nested :
    let e : Expr := .join .and (.leaf (.comparison ['a'] .equal ['1']))
      (.join .or (.leaf (.membership ['b'] .inList ['2', ','] [['3']]))
        (.leaf (.nullTest ['c'] .is)))
    let ts : List Placed := [⟨.word ['a'], 0⟩, ⟨.compare .equal, 2⟩, ⟨.word ['1'], 4⟩, ⟨.and, 6⟩,
      ⟨.openParen, 10⟩, ⟨.openParen, 11⟩, ⟨.word ['b'], 12⟩, ⟨.membership .inList, 14⟩,
      ⟨.word ['2', ','], 17⟩, ⟨.word ['3'], 20⟩, ⟨.or, 22⟩, ⟨.word ['c'], 25⟩,
      ⟨.nullTest .is, 27⟩, ⟨.closeParen, 34⟩, ⟨.closeParen, 35⟩]
    (reorder ts).errors = [] ∧ Filter.build (reorder ts).tokens = .ok e.filter := by
  intro e ts
  let w : Writing := .join .and (.leaf (.comparison ['a'] .equal ['1']))
    (.bracket (.bracket (.join .or (.leaf (.membership ['b'] .inList ['2', ','] [['3']]))
      (.leaf (.nullTest ['c'] .is)))))
  have hw : w.WellBracketed := by simp [w, Writing.WellBracketed, Writing.root?]
  have hp : e.Plain := by simp [e, Expr.Plain, Expr.leaves, Leaf.isFragment]
  exact build_writing (w := w) rfl hw hp rfl

end Sieve
