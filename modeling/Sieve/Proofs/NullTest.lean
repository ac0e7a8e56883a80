/-
# Which conditions are null tests

A condition on `NULL` is written without a placeholder and binds nothing if its operator is of
the `IS` family.  The family is told by the letters `IS` anywhere in the operator, so it has more
members than the operators with the word `IS`: `EXISTS` is one.  The clause of a filter shows
each of its conditions in a place that depends on the rest of the filter alone.

* `Text.splitBlanks`, `Text.infix_iff_exists_word`: a text without blanks stands in one word;
* `Condition.isNullTest_iff`: the null tests;
* `Condition.containsIs_iff_of_mem_vocabulary`: in the vocabulary `EXISTS` alone has the letters but
  not the word;
* `OpenFilter`: a filter with one entry left open;
* `OpenFilter.placeholder_iff`: the conditions that are written with a placeholder.
-/
import Sieve.Filter.Clause
import Sieve.Text.Blank

namespace Sieve

/-! ## 1. Words of a text -/

namespace Text

/-- The words of a text, cut at its blanks. -/
def splitBlanks (s : Text) : List Text := (s.splitOnP isBlank).filter (· ≠ [])

variable {u x t : Text} {b : Char}

/-- What stands in a text stands on one side of every character it does not hold. -/
theorem infix_append_cons_iff (hb : b ∉ u) : u <:+: x ++ b :: t ↔ u <:+: x ∨ u <:+: t := by
  constructor
  · rintro ⟨v, w, h⟩
    rcases List.append_eq_append_iff.mp h with ⟨a, rfl, -⟩ | ⟨a, hx, ht⟩
    · exact Or.inl ⟨v, a, rfl⟩
    cases a with
    | nil => exact Or.inl ⟨v, [], by simpa using hx⟩
    | cons d a =>
      obtain ⟨rfl, rfl⟩ := List.cons.inj ht
      rcases List.append_eq_append_iff.mp hx with ⟨e, -, rfl⟩ | ⟨e, -, hu⟩
      · exact absurd (List.mem_append_right e List.mem_cons_self) hb
      cases e with
      | nil =>
        rw [List.nil_append] at hu
        exact absurd (hu ▸ List.mem_cons_self) hb
      | cons d' e =>
        obtain ⟨rfl, rfl⟩ := List.cons.inj hu
        exact Or.inr ⟨e, w, rfl⟩
  · rintro (h | h)
    · exact h.trans (List.prefix_append x (b :: t)).isInfix
    · exact h.trans ((List.suffix_cons b t).trans (List.suffix_append x (b :: t))).isInfix

/-- It stands in one piece of a text that is cut at such characters. -/
theorem infix_iff_exists_piece {p : Char → Bool} (hu : ∀ c ∈ u, p c = false) :
    ∀ (t x : Text), (∀ c ∈ x, p c = false) →
      (u <:+: x ++ t ↔ ∃ w ∈ (x ++ t).splitOnP p, u <:+: w)
  | [], x, hx => by
    rw [List.append_nil, List.splitOnP_eq_singleton hx]
    simp
  | c :: t, x, hx => by
    by_cases hc : p c = true
    · have hcu : c ∉ u := fun hmem => by
        rw [hu c hmem] at hc
        cases hc
      rw [List.splitOnP_append_cons_of_forall_mem hx c hc, infix_append_cons_iff hcu]
      simpa using or_congr_right (infix_iff_exists_piece hu t [] (by simp))
    · -- the piece goes on
      have hxc : ∀ d ∈ x ++ [c], p d = false := by simpa [or_imp, forall_and, hc] using hx
      simpa using infix_iff_exists_piece hu t (x ++ [c]) hxc

/-- **A text without blanks stands in a text if it stands in a word of it.** -/
theorem infix_iff_exists_word (hne : u ≠ []) (hu : ∀ c ∈ u, isBlank c = false) {s : Text} :
    u <:+: s ↔ ∃ w ∈ splitBlanks s, u <:+: w := by
  have hpiece := infix_iff_exists_piece hu s [] (by simp)
  rw [List.nil_append] at hpiece
  rw [hpiece]
  refine exists_congr fun w => ?_
  rw [splitBlanks, List.mem_filter, decide_eq_true_iff]
  constructor
  · rintro ⟨hw, hinfix⟩
    refine ⟨⟨hw, ?_⟩, hinfix⟩
    rintro rfl
    exact hne (List.infix_nil.mp hinfix)
  · rintro ⟨⟨hw, -⟩, hinfix⟩
    exact ⟨hw, hinfix⟩

end Text

/-! ## 2. Null tests -/

namespace Condition

/-- There is no value but `NULL`. -/
def LacksValue (c : Condition) : Prop := ∀ v ∈ c.value, v.isNull = true

/-- The letters `IS` stand in a word of the operator. -/
def ContainsIs (c : Condition) : Prop := ∃ w ∈ Text.splitBlanks c.operator.text, "IS".toList <:+: w

instance (c : Condition) : Decidable c.LacksValue :=
  inferInstanceAs (Decidable (∀ v ∈ c.value, v.isNull = true))

instance (c : Condition) : Decidable c.ContainsIs :=
  inferInstanceAs (Decidable (∃ w ∈ Text.splitBlanks c.operator.text, "IS".toList <:+: w))

/-- The operator that is written has `IS` if the one that is given has the letters in a word. -/
theorem written_has_is_iff {c : Condition} : c.written.has .is = true ↔ c.ContainsIs := by
  have hwords : "IS".toList <:+: c.operator.text ↔ c.ContainsIs :=
    Text.infix_iff_exists_word (by decide)
      (List.forall_mem_cons.mpr ⟨by decide, List.forall_mem_singleton.mpr (by decide)⟩)
  rw [Operator.has_iff, ← hwords, written, Operator.orElse]
  split
  · next hempty =>
    rw [List.isEmpty_iff.mp hempty]
    decide
  · rfl

/-- **In the vocabulary the letters tell the family**, but for `EXISTS`, in which they stand
inside a word. -/
theorem containsIs_iff_of_mem_vocabulary {c : Condition}
    (h : c.operator ∈ Operator.vocabulary) :
    c.ContainsIs ↔
      "IS".toList ∈ Text.splitBlanks c.operator.text ∨ c.operator = .existsIn := by
  have each : ∀ op ∈ Operator.vocabulary,
      ((∃ w ∈ Text.splitBlanks op.text, "IS".toList <:+: w) ↔
        "IS".toList ∈ Text.splitBlanks op.text ∨ op = .existsIn) := by
    decide +kernel
  exact each c.operator h

theorem isNullTest_iff {c : Condition} : c.isNullTest = true ↔ c.LacksValue ∧ c.ContainsIs := by
  rw [isNullTest, Bool.and_eq_true, written_has_is_iff, LacksValue]
  cases c.value <;> simp

end Condition

/-! ## 3. The place of a condition -/

/-- A group with one entry left open. -/
structure Frame where
  operator : Operator
  before : List Node
  after : List Node

/-- A filter with one entry left open, at any depth. -/
inductive OpenFilter where
  | here (k : Frame)
  | inside (k : Frame) (inner : OpenFilter)

/-- The group with the entry put in. -/
def Frame.fill (k : Frame) (n : Node) : Filter := ⟨k.operator, k.before ++ n :: k.after⟩

/-- The filter with the entry put in. -/
def OpenFilter.fill : OpenFilter → Node → Filter
  | here k, n => k.fill n
  | inside k inner, n => k.fill (inner.fill n).node

mutual

/-- The conditions in an entry, at any depth. -/
def Node.conditions : Node → List Condition
  | .raw _ => []
  | .condition c => [c]
  | .group _ entries => nodesConditions entries

/-- The conditions in entries. -/
def nodesConditions : List Node → List Condition
  | [] => []
  | n :: more => n.conditions ++ nodesConditions more

end

/-- The conditions in a filter. -/
def Filter.conditions (f : Filter) : List Condition := nodesConditions f.entries

mutual

theorem Node.eq_or_exists_fill {c : Condition} : ∀ n : Node, c ∈ n.conditions →
    n = .condition c ∨ ∃ k : OpenFilter, n = (k.fill (.condition c)).node
  | .raw _, h => by simp [Node.conditions] at h
  | .condition _, h => by
    rw [Node.conditions, List.mem_singleton] at h
    exact Or.inl (by rw [h])
  | .group op entries, h => by
    obtain ⟨k, hk⟩ := nodes_exists_fill op entries (by rwa [Node.conditions] at h)
    exact Or.inr ⟨k, by rw [← hk]; rfl⟩

theorem nodes_exists_fill {c : Condition} (op : Operator) : ∀ entries : List Node,
    c ∈ nodesConditions entries → ∃ k : OpenFilter, ⟨op, entries⟩ = k.fill (.condition c)
  | [], h => by simp [nodesConditions] at h
  | n :: more, h => by
    rw [nodesConditions, List.mem_append] at h
    rcases h with h | h
    · rcases Node.eq_or_exists_fill n h with rfl | ⟨k, rfl⟩
      · exact ⟨.here ⟨op, [], more⟩, rfl⟩
      · exact ⟨.inside ⟨op, [], more⟩ k, rfl⟩
    · obtain ⟨k, hk⟩ := nodes_exists_fill op more h
      cases k with
      | here k =>
        obtain ⟨rfl, rfl⟩ := Filter.mk.inj hk
        exact ⟨.here ⟨k.operator, n :: k.before, k.after⟩, rfl⟩
      | inside k inner =>
        obtain ⟨rfl, rfl⟩ := Filter.mk.inj hk
        exact ⟨.inside ⟨k.operator, n :: k.before, k.after⟩ inner, rfl⟩

end

/-- Every condition of a filter stands in such a place. -/
theorem Filter.exists_fill {f : Filter} {c : Condition} (h : c ∈ f.conditions) :
    ∃ k : OpenFilter, f = k.fill (.condition c) :=
  nodes_exists_fill f.operator f.entries h

/-- Between texts that are joined, one of them has a place of its own. -/
theorem exists_intercalate (sep : Text) (ts : List Text) : ∀ ss : List Text,
    ∃ pre post, ∀ t : Text, sep.intercalate (ss ++ t :: ts) = pre ++ t ++ post
  | [] => by
    cases ts with
    | nil => exact ⟨[], [], fun t => by simp⟩
    | cons t' ts =>
      exact ⟨[], sep ++ sep.intercalate (t' :: ts), fun t => by
        rw [List.nil_append, List.intercalate_cons_cons]
        simp⟩
  | s :: ss => by
    obtain ⟨pre, post, h⟩ := exists_intercalate sep ts ss
    refine ⟨s ++ sep ++ pre, post, fun t => ?_⟩
    rw [List.cons_append, List.intercalate_cons_of_ne_nil (by simp), h]
    simp

/-- **One entry of a group** is written in a place that the others settle. -/
theorem Frame.exists_place (k : Frame) : ∃ pre post vs ws, ∀ (n : Node) (t : Text),
    n.clause? = some t → (k.fill n).clause = pre ++ t ++ post ∧
      (k.fill n).arguments = vs ++ n.arguments ++ ws := by
  obtain ⟨pre, post, h⟩ := exists_intercalate (' ' :: (k.operator.orElse .and).text ++ [' '])
    (nodeClauses k.after) (nodeClauses k.before)
  refine ⟨pre, post, nodeArguments k.before, nodeArguments k.after, fun n t ht => ⟨?_, ?_⟩⟩
  · rw [← h t]
    simp [fill, Filter.clause, joinClauses, nodeClauses_eq_filterMap, ht]
  · simp [fill, Filter.arguments, nodeArguments_eq_flatMap]

namespace OpenFilter

/-- **A condition in a filter** is written in a place that the rest of the filter settles. -/
theorem exists_place (k : OpenFilter) : ∃ pre post vs ws, ∀ c : Condition,
    (k.fill (.condition c)).clause = pre ++ c.clause ++ post ∧
      (k.fill (.condition c)).arguments = vs ++ c.arguments ++ ws := by
  induction k with
  | here k =>
    obtain ⟨pre, post, vs, ws, h⟩ := k.exists_place
    refine ⟨pre, post, vs, ws, fun c => ?_⟩
    simpa only [fill, Node.arguments] using h (.condition c) c.clause (by rw [Node.clause?])
  | inside k inner ih =>
    obtain ⟨pre, post, vs, ws, h⟩ := ih
    obtain ⟨pre', post', vs', ws', h'⟩ := k.exists_place
    refine ⟨pre' ++ '(' :: pre, post ++ ')' :: post', vs' ++ vs, ws ++ ws', fun c => ?_⟩
    obtain ⟨hclause, harguments⟩ := h c
    have hne : (inner.fill (.condition c)).entries ≠ [] := by
      cases inner <;> simp [fill, Frame.fill]
    have hnode : (inner.fill (.condition c)).node.clause? =
        some ('(' :: (inner.fill (.condition c)).clause ++ [')']) := Node.clause?_group hne
    obtain ⟨hclause', harguments'⟩ := h' _ _ hnode
    rw [fill, hclause', harguments', hclause, Filter.node, Node.arguments]
    refine ⟨by simp, ?_⟩
    rw [← Filter.arguments, harguments]
    simp

/-- **Which conditions have a placeholder.**  In every filter a condition is written as its column,
its operator and a placeholder, for which its value is bound or `NULL` if it has none; except if
it lacks a value and the letters `IS` stand in its operator.  Then it is a null test and binds
nothing. -/
theorem placeholder_iff (k : OpenFilter) : ∃ pre post vs ws, ∀ c : Condition,
    ((k.fill (.condition c)).clause =
        pre ++ (c.column ++ ' ' :: c.written.text ++ " (?)".toList) ++ post ∧
      (k.fill (.condition c)).arguments = vs ++ [c.value.getD (.scalar .null)] ++ ws ↔
        ¬ (c.LacksValue ∧ c.ContainsIs)) ∧
    (c.LacksValue ∧ c.ContainsIs →
      (k.fill (.condition c)).clause =
          pre ++ (c.column ++ ' ' :: c.written.text ++ " NULL".toList) ++ post ∧
        (k.fill (.condition c)).arguments = vs ++ ws) := by
  obtain ⟨pre, post, vs, ws, h⟩ := k.exists_place
  refine ⟨pre, post, vs, ws, fun c => ?_⟩
  obtain ⟨hclause, harguments⟩ := h c
  rw [hclause, harguments, ← Condition.isNullTest_iff, Condition.clause, Condition.arguments]
  cases c.isNullTest <;> simp

end OpenFilter

/-- `EXISTS` is written as a null test, though the word `IS` is not in it. -/
theorem clause_existsIn_null :
    let c : Condition := ⟨['a'], .existsIn, some (.scalar .null)⟩
    "IS".toList ∉ Text.splitBlanks c.operator.text ∧
      (Filter.leaf (.condition c)).clause = "a EXISTS NULL".toList ∧
      (Filter.leaf (.condition c)).arguments = [] := by
  decide +kernel

end Sieve
