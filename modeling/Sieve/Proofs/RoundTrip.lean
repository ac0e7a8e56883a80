/-
# Reading a WHERE clause back

The text of a WHERE clause is an expression of the language, with a placeholder in every place
of a value.  Read as one, it gives the filter back: the renderer puts parentheses around every
group but the outermost, which is more than precedence asks for, and the parentheses around a
placeholder are dropped because nothing stands between them but a word.

* `Filter.Sayable`: the filters that the language can say;
* `Filter.marked`: a filter with a placeholder for every value;
* `Shows`: a text whose tokens are those of a writing;
* `Filter.read_clause`: the clause of a filter is read as the filter with its values marked.
-/
import Sieve.Filter.Clause
import Sieve.Proofs.Front
import Sieve.Proofs.Provenance

namespace Sieve

/-! ## 1. Filters that the language can say -/

/-- The conditions of the language, with the kind of value that goes with the operator. -/
inductive Condition.Sayable : Condition → Prop
  | comparison {column : Text} {op : Operator} (hcolumn : IsColumn column)
      (hop : op ∈ comparisons) (value : Scalar) : Sayable ⟨column, op, some (.scalar value)⟩
  | membership {column : Text} {op : Operator} (hcolumn : IsColumn column)
      (hop : op ∈ memberships) (items : List Scalar) : Sayable ⟨column, op, some (.list items)⟩
  | nullTest {column : Text} {op : Operator} (hcolumn : IsColumn column)
      (hop : op ∈ nullTests) : Sayable ⟨column, op, none⟩

/-- Trees of conditions, with two entries under every connective. -/
inductive Node.Sayable : Node → Prop
  | condition {c : Condition} (h : c.Sayable) : Sayable (.condition c)
  | group (c : Connective) {left right : Node} (hl : left.Sayable) (hr : right.Sayable) :
      Sayable (.group c.operator [left, right])

/-- Such a tree as a filter: a condition alone stands under no operator. -/
inductive Filter.Sayable : Filter → Prop
  | leaf {c : Condition} (h : c.Sayable) : Sayable (.leaf (.condition c))
  | group (c : Connective) {left right : Node} (hl : left.Sayable) (hr : right.Sayable) :
      Sayable ⟨c.operator, [left, right]⟩

/-! ## 2. Placeholders for values -/

/-- The placeholder in the place of a literal, and a list of one in the place of a list. -/
def Value.marked : Value → Value
  | .scalar _ => .scalar (.string ['?'])
  | .list _ => .list [.string ['?']]

def Condition.marked (c : Condition) : Condition := { c with value := c.value.map Value.marked }

mutual

/-- The entry with placeholders for its values. -/
def Node.marked : Node → Node
  | .raw fragment => .raw fragment
  | .condition c => .condition c.marked
  | .group op entries => .group op (nodesMarked entries)

/-- The entries with placeholders for their values. -/
def nodesMarked : List Node → List Node
  | [] => []
  | n :: more => n.marked :: nodesMarked more

end

/-- The filter with placeholders for its values. -/
def Filter.marked (f : Filter) : Filter := ⟨f.operator, nodesMarked f.entries⟩

/-! ## 3. Texts that show writings -/

/-- The text shows the writing: off the front of any text, where a keyword may end behind it,
the tokens of the writing are read, up to parentheses around words. -/
structure Shows (s : Text) (w : Writing) : Prop where
  reads : ∃ ts, Unbracketed ts w.tokens ∧
    ∀ r, endsWord r = true → (s ++ r).tokens = ts ++ r.tokens
  starts : ∃ c u, s = c :: u ∧ isBlank c = false
  ends : ∃ u c, s = u ++ [c] ∧ isBlank c = false

theorem Shows.bracket {s : Text} {w : Writing} (h : Shows s w) :
    Shows ('(' :: s ++ [')']) (.bracket w) := by
  obtain ⟨⟨ts, hun, hreads⟩, -, -⟩ := h
  refine ⟨⟨.openParen :: ts ++ [.closeParen], ?_, fun r hr => ?_⟩, ⟨_, _, rfl, by decide⟩,
    ⟨_, _, rfl, by decide⟩⟩
  · exact .append (.keep _ hun) (.refl _)
  · have htext : '(' :: s ++ [')'] ++ r = ['('] ++ (s ++ ([')'] ++ r)) := by simp
    rw [htext, (leads_openParen _).tokens, hreads _ rfl, (leads_closeParen _).tokens]
    simp

theorem Shows.join (c : Connective) {l r : Text} {left right : Writing} (hl : Shows l left)
    (hr : Shows r right) : Shows (joinClauses c.operator [l, r]) (.join c left right) := by
  obtain ⟨⟨ts, hun, hreads⟩, ⟨a, u, rfl, ha⟩, -⟩ := hl
  obtain ⟨⟨us, hun', hreads'⟩, -, ⟨v, b, rfl, hb⟩⟩ := hr
  have htext : c.operator.text = c.token.text ∧ c.operator.orElse .and = c.operator := by
    cases c <;> exact ⟨rfl, rfl⟩
  have hjoin : joinClauses c.operator [a :: u, v ++ [b]] =
      (a :: u) ++ ' ' :: (c.token.text ++ ' ' :: (v ++ [b])) := by
    rw [joinClauses, htext.2, ← htext.1]
    simp [List.intercalate]
  rw [hjoin]
  refine ⟨⟨ts ++ c.token :: us, hun.append (.keep _ hun'), fun rest hrest => ?_⟩,
    ⟨_, _, rfl, ha⟩, ⟨(a :: u) ++ ' ' :: (c.token.text ++ ' ' :: v), b, by simp, hb⟩⟩
  have hop : Leads c.token.text c.token (' ' :: (v ++ [b] ++ rest)) :=
    leads_operator (by simp) (by cases c <;> trivial) rfl
  have hassoc : (a :: u) ++ ' ' :: (c.token.text ++ ' ' :: (v ++ [b])) ++ rest =
      (a :: u) ++ (' ' :: (c.token.text ++ (' ' :: (v ++ [b] ++ rest)))) := by simp
  rw [hassoc, hreads _ rfl, Text.tokens_space, hop.tokens, Text.tokens_space, hreads' _ hrest]
  simp

/-! ## 4. Conditions -/

/-- The parentheses around a placeholder are two tokens, and the placeholder is a word. -/
theorem tokens_placeholder {column : Text} (hcolumn : IsColumn column) {t : Token}
    (ht : t.precedence ≠ none) (hk : t.Known) (r : Text) :
    (column ++ ' ' :: t.text ++ " (?)".toList ++ r).tokens =
      [.word column, t, .openParen, .word ['?'], .closeParen] ++ r.tokens := by
  have htext : column ++ ' ' :: t.text ++ " (?)".toList ++ r =
      column ++ (' ' :: (t.text ++ (' ' :: (['('] ++ (['?'] ++ ([')'] ++ r)))))) := by simp
  have hmark : Leads ['?'] (.word ['?']) ([')'] ++ r) := ⟨⟨_, _, rfl, by decide⟩, rfl⟩
  rw [htext, (hcolumn.leads ht hk _).tokens,
    Text.tokens_space, (leads_operator ht hk rfl).tokens, Text.tokens_space,
    (leads_openParen _).tokens, hmark.tokens, (leads_closeParen _).tokens]
  rfl

/-- Behind the operator of a leaf with one literal stands a placeholder. -/
theorem shows_placeholder {column : Text} (hcolumn : IsColumn column) {t : Token}
    (ht : t.precedence ≠ none) (hk : t.Known) {l : Leaf}
    (hl : l.tokens = [.word column, t, .word ['?']]) :
    Shows (column ++ ' ' :: t.text ++ " (?)".toList) (.leaf l) := by
  obtain ⟨c, u, rfl, hc⟩ := hcolumn.isWord.leads.starts
  refine ⟨⟨_, ?_, fun r _ => tokens_placeholder hcolumn ht hk r⟩, ⟨c, _, rfl, hc⟩,
    ⟨c :: u ++ ' ' :: t.text ++ " (?".toList, ')', by simp, by decide⟩⟩
  rw [Writing.tokens, hl]
  exact .keep _ (.keep _ (.drop [['?']] .nil))

theorem shows_nullTest {column : Text} (hcolumn : IsColumn column) {op : Operator}
    (hop : op ∈ nullTests) :
    Shows (column ++ ' ' :: op.text ++ " NULL".toList) (.leaf (.nullTest column op)) := by
  have hnull : Token.precedence (.nullTest op) ≠ none := by simp [Token.precedence]
  obtain ⟨c, u, hcons, hc⟩ := hcolumn.isWord.leads.starts
  refine ⟨⟨_, .refl _, fun r hr => ?_⟩,
    ⟨c, u ++ ' ' :: op.text ++ " NULL".toList, by simp [hcons], hc⟩,
    ⟨column ++ ' ' :: op.text ++ " NUL".toList, 'L', by simp, by decide⟩⟩
  have htext : column ++ ' ' :: op.text ++ " NULL".toList ++ r =
      column ++ (' ' :: ((Token.nullTest op).text ++ r)) := by simp [Token.text]
  rw [htext, (hcolumn.leads hnull hop _).tokens,
    Text.tokens_space, (leads_operator hnull hop hr).tokens]
  rfl

/-- Comparisons and membership tests are written with a placeholder. -/
theorem clause_of_not_is {column : Text} {op : Operator} (hop : op ∈ comparisons ++ memberships)
    (value : Value) : Condition.clause ⟨column, op, some value⟩ =
      column ++ ' ' :: op.text ++ " (?)".toList := by
  have hwritten : op.orElse .equal = op ∧ op.has .is = false := by
    have hall : ∀ op ∈ comparisons ++ memberships, op.orElse .equal = op ∧ op.has .is = false := by
      decide
    exact hall op hop
  simp [Condition.clause, Condition.isNullTest, Condition.written, hwritten.1, hwritten.2]

/-- A null test is written without one. -/
theorem clause_of_nullTest {column : Text} {op : Operator} (hop : op ∈ nullTests) :
    Condition.clause ⟨column, op, none⟩ = column ++ ' ' :: op.text ++ " NULL".toList := by
  have hwritten : op.orElse .equal = op ∧ op.has .is = true := by
    have hall : ∀ op ∈ nullTests, op.orElse .equal = op ∧ op.has .is = true := by decide
    exact hall op hop
  simp [Condition.clause, Condition.isNullTest, Condition.written, hwritten.1, hwritten.2]

/-- **A condition is read back** with a placeholder for its value. -/
theorem Condition.Sayable.exists_leaf {c : Condition} (h : c.Sayable) :
    ∃ l : Leaf, Shows c.clause (.leaf l) ∧ l.isFragment = false ∧ l.node = .condition c.marked := by
  have hcast : cast ['?'] = .string ['?'] := by decide +kernel
  cases h with
  | @comparison column op hcolumn hop value =>
    refine ⟨.comparison column op ['?'], ?_, rfl, by rw [Leaf.node, hcast]; rfl⟩
    rw [clause_of_not_is (List.mem_append_left _ hop)]
    exact shows_placeholder (t := .compare op) hcolumn (by simp [Token.precedence]) hop rfl
  | @membership column op hcolumn hop items =>
    refine ⟨.membership column op ['?'] [], ?_, rfl, ?_⟩
    · rw [clause_of_not_is (List.mem_append_right _ hop)]
      exact shows_placeholder (t := .membership op) hcolumn (by simp [Token.precedence]) hop rfl
    · have hitems : (splitList [['?']].flatten).map cast = [.string ['?']] := by rw [← hcast]; rfl
      rw [Leaf.node, hitems]
      rfl
  | @nullTest column op hcolumn hop =>
    refine ⟨.nullTest column op, ?_, rfl, rfl⟩
    rw [clause_of_nullTest hop]
    exact shows_nullTest hcolumn hop

/-! ## 5. Trees -/

/-- **An entry is read back**: its text shows a writing of the entry with its values marked. As
an operand it needs no more parentheses than it has. -/
theorem Node.Sayable.exists_writing {n : Node} (h : n.Sayable) :
    ∃ s w, n.clause? = some s ∧ Shows s w ∧ w.WellBracketed ∧ w.root? = none ∧
      w.expr.Plain ∧ w.expr.node = n.marked := by
  induction h with
  | @condition c h =>
    obtain ⟨l, hshows, hfrag, hnode⟩ := h.exists_leaf
    refine ⟨c.clause, .leaf l, rfl, hshows, trivial, rfl, ?_, by rw [Node.marked, ← hnode]; rfl⟩
    simpa [Writing.expr, Expr.Plain, Expr.leaves] using hfrag
  | @group c left right _ _ ihl ihr =>
    obtain ⟨l, wl, hl, hshows, hw, hroot, hp, hnode⟩ := ihl
    obtain ⟨r, wr, hr, hshows', hw', hroot', hp', hnode'⟩ := ihr
    refine ⟨'(' :: joinClauses c.operator [l, r] ++ [')'], .bracket (.join c wl wr), ?_,
      (hshows.join c hshows').bracket, ?_, rfl, ?_, ?_⟩
    · simp [Node.clause?, nodeClauses, hl, hr]
    · exact ⟨hw, hw', by simp [hroot, hroot'], by simp [hroot']⟩
    · exact Expr.plain_join_iff.mpr ⟨hp, hp'⟩
    · simp [Writing.expr, Expr.node, Node.marked, nodesMarked, hnode, hnode']

/-- The same for a whole filter, where the outermost group stands without parentheses. -/
theorem Filter.Sayable.exists_writing {f : Filter} (h : f.Sayable) :
    ∃ w, Shows f.clause w ∧ w.WellBracketed ∧ w.expr.Plain ∧ w.expr.filter = f.marked := by
  cases h with
  | @leaf c h =>
    obtain ⟨l, hshows, hfrag, hnode⟩ := h.exists_leaf
    have hclause : (Filter.leaf (.condition c)).clause = c.clause := by
      simp [Filter.clause, Filter.leaf, nodeClauses, Node.clause?, joinClauses, List.intercalate]
    refine ⟨.leaf l, hclause ▸ hshows, trivial, ?_, ?_⟩
    · simpa [Writing.expr, Expr.Plain, Expr.leaves] using hfrag
    · simp [Writing.expr, Expr.filter, hnode, Filter.marked, Filter.leaf, nodesMarked, Node.marked]
  | @group c left right hl hr =>
    obtain ⟨l, wl, hl, hshows, hw, hroot, hp, hnode⟩ := hl.exists_writing
    obtain ⟨r, wr, hr, hshows', hw', hroot', hp', hnode'⟩ := hr.exists_writing
    have hclause : Filter.clause ⟨c.operator, [left, right]⟩ = joinClauses c.operator [l, r] := by
      simp [Filter.clause, nodeClauses, hl, hr]
    refine ⟨.join c wl wr, hclause ▸ hshows.join c hshows', ?_,
      Expr.plain_join_iff.mpr ⟨hp, hp'⟩, ?_⟩
    · exact ⟨hw, hw', by simp [hroot, hroot'], by simp [hroot']⟩
    · simp [Writing.expr, Expr.filter, hnode, hnode', Filter.marked, nodesMarked]

/-! ## 6. The whole clause -/

/-- **The clause groups like the tree.**  The WHERE text of every filter of the language, read
without putting keywords in capitals, is the filter with a placeholder for every value. -/
theorem Filter.read_clause {f : Filter} (h : f.Sayable) : read ⟨false⟩ f.clause = .ok f.marked := by
  obtain ⟨w, ⟨⟨ts, hun, hreads⟩, ⟨c, u, hstart, hc⟩, ⟨v, d, hend, hd⟩⟩, hw, hp, hfilter⟩ :=
    h.exists_writing
  have hprepare : prepare ⟨false⟩ f.clause = f.clause := by
    refine Text.trim_eq_self ?_ ?_
    · rw [hstart]
      simpa using hc
    · rw [hend]
      simpa using hd
  have htokens : (tokenize (prepare ⟨false⟩ f.clause)).map Placed.token = ts := by
    have hall := hreads [] rfl
    rw [List.append_nil, Text.tokens_nil, List.append_nil] at hall
    rw [hprepare]
    exact hall
  rw [← hfilter]
  exact read_of_writing (by rw [hprepare, hstart]; simp) htokens hun hw hp

/-- In `(a = (?) OR IS NOT IN (?)) AND b IS NULL` the second column is `IS`. -/
theorem Filter.read_clause_nested :
    let f : Filter := ⟨.and, [.group .or [.condition ⟨['a'], .equal, some (.scalar (.int 1))⟩,
      .condition ⟨['I', 'S'], .notInList, some (.list [.int 2, .null])⟩],
      .condition ⟨['b'], .is, none⟩]⟩
    f.Sayable ∧ f.clause = "(a = (?) OR IS NOT IN (?)) AND b IS NULL".toList ∧
      read ⟨false⟩ f.clause = .ok f.marked := by
  intro f
  have ha : IsColumn ['a'] := ⟨by decide +kernel, List.forall_mem_singleton.mpr rfl, by decide⟩
  have hb : IsColumn ['b'] := ⟨by decide +kernel, List.forall_mem_singleton.mpr rfl, by decide⟩
  have his : IsColumn ['I', 'S'] :=
    ⟨by decide +kernel, List.forall_mem_cons.mpr ⟨rfl, List.forall_mem_singleton.mpr rfl⟩,
      by decide⟩
  have hf : f.Sayable := by
    refine .group .and (.group .or (.condition ?_) (.condition ?_)) (.condition ?_)
    · exact .comparison ha (by decide) (.int 1)
    · exact .membership his (by decide) [.int 2, .null]
    · exact .nullTest hb (by decide)
  exact ⟨hf, rfl, Filter.read_clause hf⟩

end Sieve
