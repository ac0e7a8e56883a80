/-
# Filters that are read are well formed

The empty filter lets every row through, so a text that is refused must not be read as the
empty filter, and neither must one that says something.  It is the filter of blank texts only.
Every other filter that is read is a tree with two entries under every connective, and with the
kind of value that goes with the operator in every condition.

The expression behind the filter carries this: its words are words of the text, none of which
is empty, and its operators are operators of the language.

* `Filter.WellFormed`: the trees that reading can give;
* `word_ne_nil_of_mem_tokenize`: no word of a text is empty;
* `Filter.WellFormed.clause_ne_nil`: such a tree has something to say in a WHERE clause;
* `isEmpty_iff_and_wellFormed_of_read`: what is read is empty for a blank text, and else well
  formed.
-/
import Sieve.Filter.Clause
import Sieve.Proofs.ListSpacing

namespace Sieve

/-! ## 1. Well-formed trees -/

/-- A condition on a column that has a name: a comparison with a scalar, a membership test with
a list that is not empty, or a null test without a value. -/
inductive Condition.WellFormed : Condition → Prop
  | comparison {column : Text} {op : Operator} (hcolumn : column ≠ []) (hop : op ∈ comparisons)
      (value : Scalar) : WellFormed ⟨column, op, some (.scalar value)⟩
  | membership {column : Text} {op : Operator} (hcolumn : column ≠ []) (hop : op ∈ memberships)
      {items : List Scalar} (hitems : items ≠ []) : WellFormed ⟨column, op, some (.list items)⟩
  | nullTest {column : Text} {op : Operator} (hcolumn : column ≠ []) (hop : op ∈ nullTests) :
      WellFormed ⟨column, op, none⟩

/-- A tree of conditions and fragments with two entries under every connective. -/
inductive Node.WellFormed : Node → Prop
  | raw {fragment : Text} (h : fragment ≠ []) : WellFormed (.raw fragment)
  | condition {c : Condition} (h : c.WellFormed) : WellFormed (.condition c)
  | group (c : Connective) {left right : Node} (hl : left.WellFormed) (hr : right.WellFormed) :
      WellFormed (.group c.operator [left, right])

theorem Node.WellFormed.of_group {op : Operator} {left right : Node}
    (h : (Node.group op [left, right]).WellFormed) :
    ∃ c : Connective, op = c.operator ∧ left.WellFormed ∧ right.WellFormed := by
  cases h with
  | group c hl hr => exact ⟨c, rfl, hl, hr⟩

/-- Such a tree as a filter: what stands alone, under no operator, is a condition. -/
inductive Filter.WellFormed : Filter → Prop
  | leaf {c : Condition} (h : c.WellFormed) : WellFormed (.leaf (.condition c))
  | group (c : Connective) {left right : Node} (hl : left.WellFormed) (hr : right.WellFormed) :
      WellFormed ⟨c.operator, [left, right]⟩

theorem Filter.WellFormed.isEmpty_eq_false {f : Filter} (h : f.WellFormed) :
    f.isEmpty = false := by
  cases h <;> rfl

/-! ## 2. The tree of an expression -/

theorem Leaf.node_wellFormed {l : Leaf} (hwords : ∀ w ∈ l.words, w ≠ [])
    (hop : ∀ t ∈ l.operator?, t.Known) : l.node.WellFormed := by
  cases l with
  | comparison column op literal =>
    exact .condition (.comparison (hwords column List.mem_cons_self) (hop _ rfl) _)
  | membership column op first more =>
    have hitems : (splitList (first :: more).flatten).map cast ≠ [] :=
      List.map_eq_nil_iff.not.mpr (splitListFrom_ne_nil none _)
    exact .condition (.membership (hwords column List.mem_cons_self) (hop _ rfl) hitems)
  | nullTest column op =>
    exact .condition (.nullTest (hwords column List.mem_cons_self) (hop _ rfl))
  | fragment text => exact .raw (hwords text List.mem_cons_self)

namespace Expr

theorem node_wellFormed {e : Expr} (hwords : ∀ w ∈ e.words, w ≠ [])
    (hops : ∀ t ∈ e.operators, t.Known) : e.node.WellFormed := by
  induction e with
  | leaf l =>
    refine Leaf.node_wellFormed (fun w hw => hwords w ?_) fun t ht => hops t ?_
    · simpa [words, leaves] using hw
    · simpa [operators] using ht
  | join c left right ihl ihr =>
    rw [words_join] at hwords
    have hsides : ∀ t ∈ left.operators ++ right.operators, t.Known :=
      fun t ht => hops t (List.mem_cons_of_mem _ ht)
    exact .group c
      (ihl (fun w hw => hwords w (List.mem_append_left _ hw))
        fun t ht => hsides t (List.mem_append_left _ ht))
      (ihr (fun w hw => hwords w (List.mem_append_right _ hw))
        fun t ht => hsides t (List.mem_append_right _ ht))

/-- Unless it is a fragment, the expression is a well-formed filter if its words are not empty
and its operators are known. -/
theorem filter_wellFormed {e : Expr} (hfrag : e.isFragment = false)
    (hwords : ∀ w ∈ e.words, w ≠ []) (hops : ∀ t ∈ e.operators, t.Known) :
    e.filter.WellFormed := by
  have hnode := node_wellFormed hwords hops
  cases e with
  | leaf l =>
    cases l with
    | fragment text => cases hfrag
    | comparison | membership | nullTest =>
      cases hnode with
      | condition h => exact .leaf h
  | join c left right =>
    obtain ⟨c', hc, hl, hr⟩ := hnode.of_group
    rw [filter, hc]
    exact .group c' hl hr

end Expr

/-! ## 3. What is written for it -/

theorem Condition.clause_ne_nil (c : Condition) : c.clause ≠ [] := by
  simp [clause]

theorem Node.WellFormed.exists_clause {n : Node} (h : n.WellFormed) :
    ∃ s, n.clause? = some s ∧ s ≠ [] := by
  cases h with
  | raw h => exact ⟨_, rfl, h⟩
  | condition => exact ⟨_, rfl, Condition.clause_ne_nil _⟩
  | group => exact ⟨_, rfl, by simp⟩

theorem Filter.WellFormed.clause_ne_nil {f : Filter} (h : f.WellFormed) : f.clause ≠ [] := by
  cases h with
  | @leaf c h => simpa [clause, Filter.leaf, nodeClauses, Node.clause?, joinClauses,
      List.intercalate] using c.clause_ne_nil
  | group c hl hr =>
    obtain ⟨s, hs, hne⟩ := hl.exists_clause
    obtain ⟨t, ht, -⟩ := hr.exists_clause
    simp [clause, nodeClauses, hs, ht, joinClauses, List.intercalate, hne]

/-! ## 4. Words of a text -/

theorem word_ne_nil_of_mem_tokenize {s w : Text} {b : Nat} (h : ⟨.word w, b⟩ ∈ tokenize s) :
    w ≠ [] := by
  obtain ⟨i, n, hlex, -⟩ := mem_tokenize_iff.mp h
  obtain ⟨hlength, -⟩ := Token.take_of_scan hlex.scan
  have hpos := hlex.pos
  exact List.ne_nil_of_length_pos (hlength ▸ hpos)

theorem Text.trim_eq_nil_iff {s : Text} : trim s = [] ↔ ∀ c ∈ s, isBlank c = true := by
  have hstart : trimStart s = [] ↔ ∀ c ∈ s, isBlank c = true := List.dropWhile_eq_nil_iff
  rw [← hstart, trim, List.reverse_eq_nil_iff, trimStart, List.dropWhile_eq_nil_iff]
  constructor
  · intro hall
    -- what is left behind the blanks at the front starts with no blank
    cases hs : trimStart s with
    | nil => rfl
    | cons c r =>
      have hc := hall c (by simp [hs])
      rw [not_isBlank_of_trimStart hs] at hc
      cases hc
  · intro hnil
    simp [hnil]

/-- Nothing is left of a blank text, and of no other. -/
theorem Filter.prepare_eq_nil_iff {options : ReadOptions} {s : Text} :
    prepare options s = [] ↔ ∀ c ∈ s, isBlank c = true := by
  rw [← Text.trim_eq_nil_iff, prepare]
  split
  · rw [← List.length_eq_zero_iff, Keyword.capitalize_length, List.length_eq_zero_iff]
  · rfl

/-! ## 5. What is read -/

/-- A filter that is made of the tokens of a text is well formed. -/
theorem Filter.wellFormed_of_ofTokens {s : Text} {f : Filter}
    (h : ofTokens (tokenize s) = .ok f) : f.WellFormed := by
  obtain ⟨-, hbuild⟩ := ofTokens_eq_ok_iff.mp h
  obtain ⟨e, ⟨rfl, hfrag⟩, hwords, hops⟩ := exists_expr_of_build hbuild
  refine e.filter_wellFormed hfrag (fun w hw => ?_) fun t ht => ?_
  · rw [hwords, reorder_words] at hw
    obtain ⟨⟨t, b⟩, ht, hword⟩ := List.mem_filterMap.mp hw
    cases t <;> cases hword
    exact word_ne_nil_of_mem_tokenize ht
  · obtain ⟨p, hp, rfl⟩ := List.mem_map.mp (List.mem_filter.mp (hops.mem_iff.mp ht)).1
    have hmem := List.mem_filter.mp ((reorder_perm _).mem_iff.mp hp)
    exact known_of_mem_tokenizeFrom p hmem.1

/-- **No silent match-all.**  A filter that is read is empty exactly if the text is blank, and
every other one is well formed and has a text in a WHERE clause. -/
theorem isEmpty_iff_and_wellFormed_of_read {options : ReadOptions} {s : Text} {f : Filter}
    (h : Filter.read options s = .ok f) :
    (f.isEmpty = true ↔ ∀ c ∈ s, isBlank c = true) ∧
      (f.isEmpty = false → f.WellFormed ∧ f.clause ≠ []) := by
  have hblank : Filter.prepare options s = [] ↔ ∀ c ∈ s, isBlank c = true :=
    Filter.prepare_eq_nil_iff
  rw [← hblank]
  by_cases hnil : Filter.prepare options s = []
  · have hempty : f = .empty := by
      rw [Filter.read, hnil] at h
      cases h
      rfl
    simp [hnil, hempty, Filter.isEmpty, Filter.empty]
  · have hne : (Filter.prepare options s).isEmpty = false := by simpa using hnil
    have hwell : f.WellFormed := by
      rw [Filter.read, hne] at h
      exact Filter.wellFormed_of_ofTokens h
    simp [hnil, hwell, hwell.isEmpty_eq_false, hwell.clause_ne_nil]

/-- In `(x=1 or = a 1) and b not in 2, 3` stands a fragment, an operator in front of its column
and a list in two words. It is accepted, and the filter is well formed. -/
theorem isEmpty_iff_and_wellFormed_of_read_fragment :
    let s := "(x=1 or = a 1) and b not in 2, 3".toList
    ∃ f, Filter.read {} s = .ok f ∧ (f.isEmpty = true ↔ ∀ c ∈ s, isBlank c = true) ∧
      f.WellFormed ∧ f.clause ≠ [] := by
  intro s
  let ts : List Placed := [⟨.openParen, 0⟩, ⟨.word "x=1".toList, 1⟩, ⟨.or, 5⟩,
    ⟨.compare .equal, 8⟩, ⟨.word ['a'], 10⟩, ⟨.word ['1'], 12⟩, ⟨.closeParen, 13⟩, ⟨.and, 15⟩,
    ⟨.word ['b'], 19⟩, ⟨.membership .notInList, 21⟩, ⟨.word ['2', ','], 28⟩, ⟨.word ['3'], 31⟩]
  have hts : tokenize (Filter.prepare {} s) = ts := by decide +kernel
  obtain ⟨f, hof, hf⟩ : ∃ f, Filter.ofTokens ts = .ok f ∧ f.isEmpty = false := ⟨_, rfl, rfl⟩
  have hread : Filter.read {} s = .ok f :=
    Filter.read_of_ofTokens (by decide +kernel) hts hof
  obtain ⟨hblank, hwell⟩ := isEmpty_iff_and_wellFormed_of_read hread
  exact ⟨f, hread, hblank, hwell hf⟩

end Sieve
