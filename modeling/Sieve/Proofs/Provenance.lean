/-
# Where the words of a filter come from

A filter that is read uses every word of its input once and in order.  Nothing is asked of the
input: it may be written as no grammar allows, as long as it is accepted.

The stack is what carries this.  Its entries are those of expressions, and the words of these
expressions, the deepest first, are the words read so far: a step only joins neighbours.

* `Reduces`, `Filter.reduces_of_step`: all that one token can do to the stack;
* `Filter.exists_exprs_of_fold`: the expressions behind the entries of a stack;
* `exists_expr_of_read`: the expression behind a filter, with the words and operators of the
  input.
-/
import Sieve.Filter.Read
import Sieve.Proofs.Reordering

namespace Sieve

/-! ## 1. What one token can do -/

namespace Leaf

/-- The words of the leaf, its column first. -/
def words : Leaf → List Text
  | comparison column _ literal => [column, literal]
  | membership column _ first more => column :: first :: more
  | nullTest column _ => [column]
  | fragment text => [text]

/-- The operator of the leaf; a fragment has none. -/
def operator? : Leaf → Option Token
  | comparison _ op _ => some (.compare op)
  | membership _ op _ _ => some (.membership op)
  | nullTest _ op => some (.nullTest op)
  | fragment _ => none

end Leaf

/-- What a token does to a stack: a word is pushed, the operator of a leaf takes the words of
the leaf off the top, and a connective takes two entries. A membership test leaves no word on
top, for it would have taken that too. -/
inductive Reduces : Token → List Node → List Node → Prop
  | push (w : Text) (stack : List Node) : Reduces (.word w) stack (.raw w :: stack)
  | leaf {l : Leaf} {t : Token} {stack : List Node} (ht : l.operator? = some t)
      (htop : l.isMembership = true → Filter.NoWordOnTop stack) :
      Reduces t ((l.words.map Node.raw).reverse ++ stack) (l.node :: stack)
  | group (c : Connective) (left right : Node) (stack : List Node) :
      Reduces c.token (right :: left :: stack) (.group c.operator [left, right] :: stack)

/-- A computation that succeeds succeeds in its first part. -/
theorem bind_eq_ok_iff {ε α β : Type} {first : Except ε α} {next : α → Except ε β} {b : β} :
    first >>= next = .ok b ↔ ∃ a, first = .ok a ∧ next a = .ok b := by
  cases first with
  | error e => simp [bind, Except.bind]
  | ok a => simp [bind, Except.bind]

namespace Filter

theorem popWord_eq_ok {op : Operator} {position : Nat} {stack below : List Node} {w : Text}
    (h : popWord op position stack = .ok (w, below)) : stack = .raw w :: below := by
  unfold popWord at h
  split at h
  · cases h
    rfl
  · cases h
  · cases h

/-- The words on top and what is below them make up the stack. -/
theorem takeWords_append : ∀ stack : List Node,
    ((takeWords stack).1.map Node.raw).reverse ++ (takeWords stack).2 = stack
  | [] => rfl
  | .condition _ :: _ => rfl
  | .group _ _ :: _ => rfl
  | .raw w :: stack => by
    rw [takeWords, List.map_append, List.reverse_append]
    simpa using takeWords_append stack

/-- Below the words on top stands no further word. -/
theorem noWordOnTop_takeWords : ∀ stack : List Node, NoWordOnTop (takeWords stack).2
  | [] => by simp [takeWords, NoWordOnTop]
  | .condition _ :: _ => by simp [takeWords, NoWordOnTop]
  | .group _ _ :: _ => by simp [takeWords, NoWordOnTop]
  | .raw _ :: stack => noWordOnTop_takeWords stack

theorem reduceGroup_eq_ok {op : Operator} {position : Nat} {stack stack' : List Node}
    (h : reduceGroup op position stack = .ok stack') :
    ∃ left right below, stack = right :: left :: below ∧
      stack' = .group op [left, right] :: below := by
  unfold reduceGroup at h
  split at h
  · cases h
    exact ⟨_, _, _, rfl, rfl⟩
  · cases h

/-- **Nothing else can happen**: a step that succeeds is one of the reductions. -/
theorem reduces_of_step {stack stack' : List Node} {t : Placed}
    (h : step stack t = .ok stack') : Reduces t.token stack stack' := by
  unfold step at h
  split at h
  case h_1 ht =>
    obtain ⟨left, right, below, rfl, rfl⟩ := reduceGroup_eq_ok h
    rw [ht]
    exact .group .and left right below
  case h_2 ht =>
    obtain ⟨left, right, below, rfl, rfl⟩ := reduceGroup_eq_ok h
    rw [ht]
    exact .group .or left right below
  case h_3 op ht =>
    obtain ⟨⟨literal, stack₁⟩, h₁, h⟩ := bind_eq_ok_iff.mp h
    obtain ⟨⟨column, stack₂⟩, h₂, h⟩ := bind_eq_ok_iff.mp h
    obtain rfl := popWord_eq_ok h₁
    obtain rfl := popWord_eq_ok h₂
    cases h
    rw [ht]
    exact .leaf (l := .comparison column op literal) rfl
      (fun h => absurd h (by simp [Leaf.isMembership]))
  case h_4 op ht =>
    split at h
    · rename_i column first more below htake
      cases h
      have hstack := takeWords_append stack
      have htop := noWordOnTop_takeWords stack
      rw [htake] at hstack htop
      rw [ht, ← hstack]
      exact .leaf (l := .membership column op first more) rfl (fun _ => htop)
    · cases h
  case h_5 op ht =>
    obtain ⟨⟨column, stack₁⟩, h₁, h⟩ := bind_eq_ok_iff.mp h
    obtain rfl := popWord_eq_ok h₁
    cases h
    rw [ht]
    exact .leaf (l := .nullTest column op) rfl (fun h => absurd h (by simp [Leaf.isMembership]))
  case h_6 w ht =>
    cases h
    rw [ht]
    exact .push w stack
  case h_7 => cases h
  case h_8 => cases h

end Filter

/-! ## 2. The expressions behind a stack -/

namespace Expr

/-- The words of the expression from left to right. -/
def words (e : Expr) : List Text := e.leaves.flatMap Leaf.words

/-- The operators of the expression, connectives and those of the leaves. -/
def operators : Expr → List Token
  | leaf l => l.operator?.toList
  | join c left right => c.token :: (left.operators ++ right.operators)

theorem words_join (c : Connective) (left right : Expr) :
    (join c left right).words = left.words ++ right.words := by
  simp [words, leaves]

/-- Only a fragment is a plain word. -/
theorem node_eq_raw {e : Expr} {w : Text} (h : e.node = .raw w) : e = leaf (.fragment w) := by
  cases e with
  | leaf l => cases l <;> simp_all [node, Leaf.node]
  | join c left right => cases h

/-- Words on top of a stack are fragments. -/
theorem map_node_eq_raws : ∀ {ws : List Text} {es : List Expr} {stack : List Node},
    es.map node = ws.map Node.raw ++ stack →
      ∃ es', es = ws.map (fun w => leaf (.fragment w)) ++ es' ∧ es'.map node = stack
  | [], es, _, h => ⟨es, rfl, h⟩
  | w :: ws, es, stack, h => by
    obtain ⟨e, es, rfl, he, hes⟩ := List.map_eq_cons_iff.mp h
    obtain ⟨es', rfl, hstack⟩ := map_node_eq_raws hes
    exact ⟨es', by rw [node_eq_raw he]; rfl, hstack⟩

end Expr

namespace Filter

/-- The expressions `es`, the latest first, stand on the stack, and they are made of these
words and these operators. -/
structure Accounts (es : List Expr) (stack : List Node) (words : List Text)
    (operators : List Token) : Prop where
  nodes : es.map Expr.node = stack
  words : es.reverse.flatMap Expr.words = words
  operators : (es.flatMap Expr.operators).Perm operators

/-- **A step keeps account** of one more token. -/
theorem Accounts.step {es : List Expr} {stack stack' : List Node} {words : List Text}
    {operators : List Token} {t : Token} (h : Accounts es stack words operators)
    (hstep : Reduces t stack stack') : ∃ es', Accounts es' stack' (words ++ t.word?.toList)
      (operators ++ [t].filter Token.isOperator) := by
  obtain ⟨rfl, rfl, hops⟩ := h
  generalize hstack : es.map Expr.node = stack at hstep
  cases hstep with
  | push w =>
    refine ⟨.leaf (.fragment w) :: es, ?_, ?_, ?_⟩
    · simp [Expr.node, Leaf.node, hstack]
    · simp [Expr.words, Expr.leaves, Leaf.words, Token.word?]
    · simpa [Expr.operators, Leaf.operator?, Token.isOperator, Token.precedence] using hops
  | @leaf l _ below ht =>
    rw [← List.map_reverse] at hstack
    obtain ⟨es, rfl, rfl⟩ := Expr.map_node_eq_raws hstack
    have hword : t.word? = none := by
      cases l <;> cases ht <;> rfl
    have hoperator : t.isOperator = true := by
      cases l <;> cases ht <;> rfl
    have hfragments : ∀ ws : List Text,
        (ws.map fun w => Expr.leaf (.fragment w)).flatMap Expr.words = ws ∧
        (ws.map fun w => Expr.leaf (.fragment w)).flatMap Expr.operators = [] := by
      intro ws
      simp [List.flatMap_map, Expr.words, Expr.leaves, Leaf.words, Expr.operators,
        Leaf.operator?]
    refine ⟨.leaf l :: es, rfl, ?_, ?_⟩
    · rw [List.reverse_append, ← List.map_reverse, List.reverse_reverse, List.flatMap_append,
        (hfragments l.words).1]
      simp [hword, Expr.words, Expr.leaves]
    · rw [List.flatMap_append, (hfragments l.words.reverse).2, List.nil_append] at hops
      have htoken : Expr.operators (.leaf l) = [t] := by simp [Expr.operators, ht]
      rw [List.flatMap_cons, htoken, List.filter_cons_of_pos hoperator]
      exact (hops.cons t).trans (List.perm_append_singleton t operators).symm
  | group c left right below =>
    obtain ⟨r, es, rfl, rfl, hes⟩ := List.map_eq_cons_iff.mp hstack
    obtain ⟨l, es, rfl, rfl, rfl⟩ := List.map_eq_cons_iff.mp hes
    have hword : c.token.word? = none := by cases c <;> rfl
    have hoperator : c.token.isOperator = true := by cases c <;> rfl
    refine ⟨.join c l r :: es, rfl, ?_, ?_⟩
    · simp [hword, Expr.words_join]
    · rw [List.filter_cons_of_pos hoperator]
      have hswap : ((Expr.join c l r :: es).flatMap Expr.operators).Perm
          (c.token :: (r :: l :: es).flatMap Expr.operators) := by
        simp only [List.flatMap_cons, Expr.operators, List.cons_append]
        refine List.Perm.cons _ ?_
        rw [← List.append_assoc r.operators]
        exact List.perm_append_comm.append_right _
      exact hswap.trans ((hops.cons _).trans (List.perm_append_singleton c.token operators).symm)

/-- **A run keeps account** of all its tokens. -/
theorem Accounts.run {ts : List Placed} : ∀ {es : List Expr} {stack stack' : List Node}
    {words : List Text} {operators : List Token}, Accounts es stack words operators →
    ts.foldlM Filter.step stack = .ok stack' →
    ∃ es', Accounts es' stack' (words ++ ts.filterMap fun t => t.token.word?)
      (operators ++ (ts.map Placed.token).filter Token.isOperator) := by
  induction ts with
  | nil =>
    intro es stack stack' words operators h hrun
    cases hrun
    exact ⟨es, by simpa using h⟩
  | cons t ts ih =>
    intro es stack stack' words operators h hrun
    rw [List.foldlM_cons] at hrun
    obtain ⟨stack₁, hstep, hrest⟩ := bind_eq_ok_iff.mp hrun
    obtain ⟨es₁, h₁⟩ := h.step (reduces_of_step hstep)
    obtain ⟨es', h'⟩ := ih h₁ hrest
    refine ⟨es', ?_⟩
    have hwords : ∀ l : List Placed, [t].filterMap (fun t => t.token.word?) ++
        l.filterMap (fun t => t.token.word?) = (t :: l).filterMap fun t => t.token.word? := by
      intro l
      rw [← List.filterMap_append]
      rfl
    have hone : t.token.word?.toList = [t].filterMap fun t => t.token.word? := by
      cases hw : t.token.word? <;> simp [hw]
    rw [hone, List.append_assoc, List.append_assoc, hwords, ← List.filter_append] at h'
    exact h'

/-- The filter that is finished is that of the one expression on the stack, which is no
fragment. -/
theorem filter_of_finish {es : List Expr} {f : Filter} (h : finish (es.map Expr.node) = .ok f) :
    ∃ e, es = [e] ∧ f = e.filter ∧ e.isFragment = false := by
  match es with
  | [] => cases h
  | [e] =>
    cases hfrag : e.isFragment with
    | true =>
      match e with
      | .leaf (.fragment w) => cases h
    | false =>
      rw [List.map_singleton, finish_node hfrag] at h
      cases h
      exact ⟨e, rfl, rfl, hfrag⟩
  | _ :: _ :: _ => simp [finish] at h

/-- **The expression behind a filter.**  It is no fragment, and it has the words of the tokens,
in their order, and their operators. -/
theorem exists_expr_of_build {ts : List Placed} {f : Filter} (h : build ts = .ok f) :
    ∃ e : Expr, (f = e.filter ∧ e.isFragment = false) ∧
      e.words = ts.filterMap (fun t => t.token.word?) ∧
      e.operators.Perm ((ts.map Placed.token).filter Token.isOperator) := by
  obtain ⟨stack, hrun, hfinish⟩ := bind_eq_ok_iff.mp h
  have hstart : Accounts [] [] [] [] := ⟨rfl, rfl, List.Perm.nil⟩
  obtain ⟨es, hnodes, hwords, hops⟩ := hstart.run hrun
  rw [← hnodes] at hfinish
  obtain ⟨e, rfl, rfl, hfrag⟩ := filter_of_finish hfinish
  exact ⟨e, ⟨rfl, hfrag⟩, by simpa using hwords, by simpa using hops⟩

/-! ## 3. From the text to the filter -/

theorem ofTokens_eq_ok_iff {ts : List Placed} {f : Filter} : ofTokens ts = .ok f ↔
    (reorder ts).errors = [] ∧ build (reorder ts).tokens = .ok f := by
  unfold ofTokens
  cases h : (reorder ts).errors with
  | nil => simp [h]
  | cons e more => simp [h]

/-- A filter with entries is that of the tokens of a text that is not blank. -/
theorem ofTokens_of_read {options : ReadOptions} {s : Text} {f : Filter}
    (h : read options s = .ok f) (hf : f.isEmpty = false) :
    ofTokens (tokenize (prepare options s)) = .ok f := by
  simp only [read] at h
  split at h
  · cases h
    cases hf
  · exact h

theorem read_of_ofTokens {options : ReadOptions} {s : Text} {ts : List Placed} {f : Filter}
    (hs : prepare options s ≠ []) (hts : tokenize (prepare options s) = ts)
    (h : ofTokens ts = .ok f) : read options s = .ok f := by
  have hne : (prepare options s).isEmpty = false := by simpa using hs
  rw [read, hne, hts]
  exact h

/-- What is written well, up to parentheses around words, is read as it is written. -/
theorem read_of_writing {options : ReadOptions} {s : Text} {ts : List Token} {w : Writing}
    (hs : prepare options s ≠ []) (hts : (tokenize (prepare options s)).map Placed.token = ts)
    (hun : Unbracketed ts w.tokens) (hw : w.WellBracketed) (hp : w.expr.Plain) :
    read options s = .ok w.expr.filter := by
  obtain ⟨qs, hqs, heq⟩ := hun.exists_reorderFrom_eq hts
  have hreorder : reorder (tokenize (prepare options s)) = reorder qs := heq []
  obtain ⟨herr, htok⟩ := reorder_writing hw hqs
  refine read_of_ofTokens hs rfl (ofTokens_eq_ok_iff.mpr ?_)
  rw [hreorder]
  exact ⟨herr, build_reordered hp.separated hp.isFragment_eq_false htok⟩

end Filter

/-- **Every word once and in order.**  A filter that is read, and that is not the empty one, is
that of an expression whose leaves, from left to right, have the words of the input in their
order, and whose operators are those of the input. -/
theorem exists_expr_of_read {options : ReadOptions} {s : Text} {f : Filter}
    (h : Filter.read options s = .ok f) (hf : f.isEmpty = false) :
    ∃ e : Expr, f = e.filter ∧
      e.leaves.flatMap Leaf.words =
        (tokenize (Filter.prepare options s)).filterMap (fun t => t.token.word?) ∧
      e.operators.Perm
        (((tokenize (Filter.prepare options s)).map Placed.token).filter Token.isOperator) := by
  obtain ⟨-, hbuild⟩ := Filter.ofTokens_eq_ok_iff.mp (Filter.ofTokens_of_read h hf)
  generalize tokenize (Filter.prepare options s) = ts at hbuild
  obtain ⟨e, ⟨hfilter, -⟩, hwords, hops⟩ := Filter.exists_expr_of_build hbuild
  refine ⟨e, hfilter, hwords.trans (reorder_words ts), hops.trans ?_⟩
  have hperm := ((reorder_perm ts).map Placed.token).filter Token.isOperator
  have hkeep : ((ts.filter fun t => !t.token.isParen).map Placed.token).filter Token.isOperator =
      (ts.map Placed.token).filter Token.isOperator := by
    rw [List.filter_map, List.filter_map, List.filter_filter]
    congr 1
    refine List.filter_congr fun t _ => ?_
    cases ht : t.token <;> simp [ht, Token.isOperator, Token.precedence, Token.isParen]
  rwa [hkeep] at hperm

/-- In `= a 1 or b in 2, 3` the first operator stands in front of its column.  It is read all
the same, and every word has its place. -/
theorem exists_expr_of_read_operator_first :
    let s := "= a 1 or b in 2, 3".toList
    ∃ f e, Filter.read {} s = .ok f ∧ f.isEmpty = false ∧ f = Expr.filter e ∧
      e.leaves.flatMap Leaf.words = [['a'], ['1'], ['b'], ['2', ','], ['3']] ∧
      e.operators.Perm [.compare .equal, .or, .membership .inList] := by
  intro s
  let ts : List Placed := [⟨.compare .equal, 0⟩, ⟨.word ['a'], 2⟩, ⟨.word ['1'], 4⟩, ⟨.or, 6⟩,
    ⟨.word ['b'], 9⟩, ⟨.membership .inList, 11⟩, ⟨.word ['2', ','], 14⟩, ⟨.word ['3'], 17⟩]
  have hts : tokenize (Filter.prepare {} s) = ts := by decide +kernel
  obtain ⟨f, hof, hf⟩ : ∃ f, Filter.ofTokens ts = .ok f ∧ f.isEmpty = false := ⟨_, rfl, rfl⟩
  have hread : Filter.read {} s = .ok f :=
    Filter.read_of_ofTokens (by decide +kernel) hts hof
  obtain ⟨e, hfilter, hwords, hops⟩ := exists_expr_of_read hread hf
  rw [hts] at hwords hops
  exact ⟨f, e, hread, hf, hfilter, hwords, hops⟩

end Sieve
