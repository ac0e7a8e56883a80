/-
# Parentheses compose

A caller who joins a filter of the user with one of its own puts both in parentheses.  That is
safe whatever the user wrote, as long as it is accepted alone: nothing is asked about the
grammar.

Neither stack reaches beyond a parenthesis.  While the tokens inside are reordered, the open
parenthesis keeps the operators that wait outside from going out.  While they are folded, the
entry that was left by the first operand is no plain word, so that no membership test can take
it for one of its own.

* `reorderFrom_brackets`: tokens in parentheses go out as if they stood alone;
* `Reduces.above`, `foldlM_step_above`: what a fold does, it does above any base that does not
  begin with a word;
* `build_brackets_join`: two accepted inputs in parentheses, with a connective between.
-/
import Sieve.Proofs.Provenance

namespace Sieve

/-! ## 1. Reordering inside parentheses -/

namespace Postfix

/-- An operator that stays behind what waits stays behind an open parenthesis further out. -/
theorem Quiet.append_openParen {tier : Nat} {waiting : List Placed} (h : Quiet tier waiting)
    {o : Placed} (ho : o.token = .openParen) (outer : List Placed) :
    Quiet tier (waiting ++ o :: outer) := by
  cases waiting with
  | nil => exact quiet_openParen ho tier outer
  | cons top rest => exact fun q hq => h q (by simpa using hq)

/-- An operator stays behind what is left once all that yields to it has gone out. -/
theorem quiet_dropWhile (tier : Nat) (waiting : List Placed) :
    Quiet tier (waiting.dropWhile (yields tier)) := by
  intro top htop
  have hhead := List.head?_dropWhile_not (yields tier) waiting
  rw [Option.mem_def.mp htop] at hhead
  simpa using hhead

/-- **Inside parentheses** tokens whose parentheses match are reordered as if nothing waited
outside, and the closing parenthesis sends out what is left of them. -/
theorem reorderFrom_enclosed {o c : Placed} (ho : o.token = .openParen)
    (hc : c.token = .closeParen) (outer input : List Placed) : ∀ {ts waiting : List Placed},
    (reorderFrom waiting ts).errors = [] →
    reorderFrom (waiting ++ o :: outer) (ts ++ c :: input) =
      (reorderFrom outer input).emit (reorderFrom waiting ts).tokens := by
  intro ts
  induction ts with
  | nil =>
    intro waiting herr
    have hall : ∀ q ∈ waiting, isNotOpen q = true := by
      have hdepth := (errors_finish_eq_nil_iff waiting).mp herr
      simpa [depth] using hdepth
    rw [List.nil_append, reorderFrom_closeParen hc ho hall, reorderFrom, finish_eq hall]
  | cons t ts ih =>
    intro waiting herr
    rw [List.cons_append]
    rcases t.token.kinds with ht | ht | ⟨w, ht⟩ | ⟨tier, ht⟩
    · rw [reorderFrom_openParen ht] at herr ⊢
      rw [reorderFrom_openParen ht]
      exact ih herr
    · rcases reorderFrom_closing ht waiting ts with ⟨o', outer', hdrop, ho', hread⟩ | ⟨-, hread⟩
      · -- its partner waits inside, in front of the enclosing parenthesis
        have hopen : o'.token = .openParen := by simpa [isNotOpen] using ho'
        have hcut : waiting ++ o :: outer =
            waiting.takeWhile isNotOpen ++ o' :: (outer' ++ o :: outer) := by
          rw [← List.cons_append, ← List.append_assoc, ← hdrop,
            List.takeWhile_append_dropWhile]
        rw [hread] at herr ⊢
        rw [hcut, reorderFrom_closeParen ht hopen fun q hq => List.mem_takeWhile_imp hq, ih herr,
          emit_emit, tokens_emit]
      · rw [hread] at herr
        cases herr
    · rw [reorderFrom_word ht] at herr ⊢
      rw [reorderFrom_word ht, ih herr, emit_emit, tokens_emit]
    · have hquiet := (quiet_dropWhile tier waiting).append_openParen ho outer
      have hcut : waiting ++ o :: outer =
          waiting.takeWhile (yields tier) ++ (waiting.dropWhile (yields tier) ++ o :: outer) := by
        rw [← List.append_assoc, List.takeWhile_append_dropWhile]
      have hread := reorderFrom_precedence ht waiting ts
      rw [hread] at herr ⊢
      rw [hcut, reorderFrom_operator ht (fun q hq => List.mem_takeWhile_imp hq) hquiet,
        ← List.cons_append, ih herr, emit_emit, tokens_emit]

end Postfix

/-- **Tokens in parentheses** whose own parentheses match go out as if they stood alone, whatever
waits and whatever follows. -/
theorem reorderFrom_brackets {o c : Placed} (ho : o.token = .openParen)
    (hc : c.token = .closeParen) {ts : List Placed} (herr : (reorder ts).errors = [])
    (waiting input : List Placed) :
    Postfix.reorderFrom waiting (o :: ts ++ c :: input) =
      (Postfix.reorderFrom waiting input).emit (reorder ts).tokens := by
  rw [List.cons_append, Postfix.reorderFrom_openParen ho]
  exact Postfix.reorderFrom_enclosed ho hc waiting input herr

/-! ## 2. Folding above a base -/

/-- A reduction looks no further than the entries it takes, and a membership test no further than
the words on top. -/
theorem Reduces.above {t : Token} {stack stack' : List Node} (h : Reduces t stack stack')
    {base : List Node} (hbase : Filter.NoWordOnTop base) :
    Reduces t (stack ++ base) (stack' ++ base) := by
  cases h with
  | push w => exact .push w (stack ++ base)
  | @leaf l _ below ht htop =>
    rw [List.append_assoc]
    refine .leaf ht fun hl => ?_
    cases below with
    | nil => exact hbase
    | cons n below => exact htop hl
  | group c left right below => exact .group c left right (below ++ base)

namespace Filter

/-- Every reduction is what a step does. -/
theorem step_of_reduces {stack stack' : List Node} {t : Placed}
    (h : Reduces t.token stack stack') : step stack t = .ok stack' := by
  obtain ⟨t, position⟩ := t
  cases h with
  | push w => rfl
  | @leaf l _ below ht htop =>
    cases l with
    | comparison column op literal =>
      cases ht
      rfl
    | membership column op first more =>
      cases ht
      exact step_membership rfl (htop rfl)
    | nullTest column op =>
      cases ht
      rfl
    | fragment text => cases ht
  | group c left right below => exact step_connective rfl _

/-- **What is folded onto a stack** is folded onto it above any base that begins with no word. -/
theorem foldlM_step_above {base : List Node} (hbase : NoWordOnTop base) {ts : List Placed} :
    ∀ {stack stack' : List Node}, ts.foldlM step stack = .ok stack' →
    ts.foldlM step (stack ++ base) = .ok (stack' ++ base) := by
  induction ts with
  | nil =>
    intro stack stack' h
    cases h
    rfl
  | cons t ts ih =>
    intro stack stack' h
    rw [List.foldlM_cons] at h ⊢
    obtain ⟨stack₁, hstep, hrest⟩ := bind_eq_ok_iff.mp h
    have habove := step_of_reduces ((reduces_of_step hstep).above hbase)
    exact bind_eq_ok_iff.mpr ⟨_, habove, ih hrest⟩

/-! ## 3. A filter as an entry -/

/-- The filter as an operand: its one entry if it stands under no operator, and else the group
that it is. -/
def entry (f : Filter) : Node :=
  match f.entries with
  | [n] => if f.operator.isEmpty then n else f.node
  | _ => f.node

theorem entry_filter (e : Expr) : e.filter.entry = e.node := by
  cases e with
  | leaf l => rfl
  | join c left right => rfl

/-- A filter that is built was the only entry left, and that is no plain word. -/
theorem foldlM_step_of_build {ts : List Placed} {f : Filter} (h : build ts = .ok f) :
    ts.foldlM step [] = .ok [f.entry] ∧ NoWordOnTop [f.entry] := by
  obtain ⟨stack, hrun, hfinish⟩ := bind_eq_ok_iff.mp h
  have hstart : Accounts [] [] [] [] := ⟨rfl, rfl, List.Perm.nil⟩
  obtain ⟨es, hnodes, -, -⟩ := hstart.run hrun
  rw [← hnodes] at hrun hfinish
  obtain ⟨e, rfl, rfl, hfrag⟩ := filter_of_finish hfinish
  rw [entry_filter]
  exact ⟨hrun, noWordOnTop_node hfrag []⟩

end Filter

/-! ## 4. Two operands in parentheses -/

/-- **Parentheses compose.**  Two inputs that are accepted alone, each in parentheses and with a
connective between, are accepted, and their filter is the group of the two. -/
theorem build_brackets_join (c : Connective) {ts us : List Placed} {f g : Filter}
    (hts : (reorder ts).errors = []) (hf : Filter.build (reorder ts).tokens = .ok f)
    (hus : (reorder us).errors = []) (hg : Filter.build (reorder us).tokens = .ok g)
    (p₁ p₂ p₃ p₄ p₅ : Nat) :
    let joined := ⟨.openParen, p₁⟩ :: ts ++ ⟨.closeParen, p₂⟩ :: ⟨c.token, p₃⟩ ::
      (⟨.openParen, p₄⟩ :: us ++ [⟨.closeParen, p₅⟩])
    (reorder joined).errors = [] ∧
      Filter.build (reorder joined).tokens = .ok ⟨c.operator, [f.entry, g.entry]⟩ := by
  intro joined
  let k : Placed := ⟨c.token, p₃⟩
  have hk : k.token.precedence = some c.tier := c.precedence_token
  have hreorder : reorder joined = ⟨(reorder ts).tokens ++ ((reorder us).tokens ++ [k]), []⟩ := by
    have hnone : ∀ q ∈ ([] : List Placed), Postfix.yields c.tier q = true := by simp
    have hop := Postfix.reorderFrom_operator hk hnone (Postfix.quiet_nil c.tier)
      (⟨.openParen, p₄⟩ :: us ++ [⟨.closeParen, p₅⟩])
    have hlast : Postfix.finish [k] = ⟨[k], []⟩ :=
      Postfix.finish_eq (by simpa using Postfix.isNotOpen_of_precedence hk)
    rw [List.append_nil, Postfix.emit_nil] at hop
    rw [reorder, reorderFrom_brackets rfl rfl hts, hop, reorderFrom_brackets rfl rfl hus,
      Postfix.reorderFrom, hlast]
    rfl
  obtain ⟨hfoldf, htop⟩ := Filter.foldlM_step_of_build hf
  obtain ⟨hfoldg, -⟩ := Filter.foldlM_step_of_build hg
  -- the entry of the first operand is the base of the second fold
  have hboth : (reorder us).tokens.foldlM Filter.step [f.entry] = .ok [g.entry, f.entry] :=
    Filter.foldlM_step_above htop hfoldg
  refine ⟨by rw [hreorder], bind_eq_ok_iff.mpr ⟨[.group c.operator [f.entry, g.entry]], ?_, rfl⟩⟩
  rw [hreorder, List.foldlM_append]
  refine bind_eq_ok_iff.mpr ⟨_, hfoldf, ?_⟩
  rw [List.foldlM_append]
  refine bind_eq_ok_iff.mpr ⟨_, hboth, ?_⟩
  rw [List.foldlM_cons, Filter.step_connective rfl]
  rfl

/-- `( = a b ) AND ( x IN 1, 2 )`: the first operand is accepted although its operator comes first,
and the membership test in the second takes no word from it. -/
theorem build_brackets_join_operator_first :
    let ts := [⟨.compare .equal, 0⟩, ⟨.word ['a'], 2⟩, ⟨.word ['b'], 4⟩]
    let us := [⟨.word ['x'], 0⟩, ⟨.membership .inList, 2⟩, ⟨.word ['1', ','], 5⟩,
      ⟨.word ['2'], 8⟩]
    let joined := ⟨.openParen, 0⟩ :: ts ++ ⟨.closeParen, 8⟩ :: ⟨.and, 10⟩ ::
      (⟨.openParen, 14⟩ :: us ++ [⟨.closeParen, 26⟩])
    ∃ f g, (reorder ts).errors = [] ∧ Filter.build (reorder ts).tokens = .ok f ∧
      (reorder us).errors = [] ∧ Filter.build (reorder us).tokens = .ok g ∧
      (reorder joined).errors = [] ∧
      Filter.build (reorder joined).tokens = .ok (.and f.entry g.entry) := by
  intro ts us joined
  let f := Filter.leaf (.condition ⟨['a'], .equal, some (.scalar (cast ['b']))⟩)
  let g := Filter.leaf (.condition ⟨['x'], .inList,
    some (.list ((splitList ['1', ',', '2']).map cast))⟩)
  have hts : (reorder ts).errors = [] := rfl
  have hus : (reorder us).errors = [] := rfl
  have hf : Filter.build (reorder ts).tokens = .ok f := rfl
  have hg : Filter.build (reorder us).tokens = .ok g := rfl
  exact ⟨f, g, hts, hf, hus, hg, build_brackets_join .and hts hf hus hg 0 8 10 14 26⟩

end Sieve
