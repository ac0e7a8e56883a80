/-
# Positional binding

The text of a WHERE clause and the values bound to it are made apart: placeholders stand in the
text, values in a list.  Here both are compared with a third rendering, in which every condition
has its own value written where its placeholder would stand.

* `Text.substitute`: a text with its placeholders replaced, in order;
* `Filter.inlined`: the clause with every value written in its own condition;
* `Filter.substitute_clause`: filling the clause with its arguments gives that text, and there are as
  many placeholders as arguments.

Nothing is asked of the values, which may hold placeholders themselves.  The texts that the
clause copies from the filter may not: they would be taken for placeholders of conditions.
-/
import Sieve.Filter.Clause

namespace Sieve

/-! ## 1. Filling placeholders -/

namespace Text

/-- Every `?` replaced by the next of the given texts, for as long as there are any.  What is
filled in is not looked at again. -/
def substitute : Text → List Text → Text
  | [], _ => []
  | c :: s, [] => c :: s
  | c :: s, w :: ws => if c = '?' then w ++ substitute s ws else c :: substitute s (w :: ws)

@[simp] theorem substitute_nil_right (s : Text) : substitute s [] = s := by
  cases s <;> rfl

theorem substitute_cons_of_ne {c : Char} (h : c ≠ '?') (s : Text) (ws : List Text) :
    substitute (c :: s) ws = c :: substitute s ws := by
  cases ws with
  | nil => simp
  | cons w ws => simp [substitute, h]

/-- A part with as many placeholders as texts is filled with those and no others. -/
theorem substitute_append : ∀ {s : Text} {ws : List Text} (t : Text) (vs : List Text),
    s.count '?' = ws.length → substitute (s ++ t) (ws ++ vs) = substitute s ws ++ substitute t vs
  | [], ws, t, vs, h => by
    have hws : ws = [] := List.length_eq_zero_iff.mp (by simpa using h.symm)
    simp [hws]
  | c :: s, ws, t, vs, h => by
    by_cases hc : c = '?'
    · subst hc
      cases ws with
      | nil => simp at h
      | cons w ws =>
        have hs : s.count '?' = ws.length := by simpa using h
        simp [substitute, substitute_append t vs hs]
    · have hs : s.count '?' = ws.length := by
        rwa [List.count_cons_of_ne hc] at h
      rw [List.cons_append, substitute_cons_of_ne hc, substitute_cons_of_ne hc, substitute_append t vs hs]
      rfl

end Text

/-! ## 2. Values in their places -/

variable (write : Value → Text)

/-- The text of a condition with its value written in it, `NULL` when it has none. -/
def Condition.inlined (c : Condition) : Text :=
  c.column ++ ' ' :: c.written.text ++
    if c.isNullTest then " NULL".toList
    else " (".toList ++ write (c.value.getD (.scalar .null)) ++ [')']

mutual

/-- The text of an entry with the values written in it; none for a group with no entries. -/
def Node.inlined? : Node → Option Text
  | .raw fragment => some fragment
  | .condition c => some (c.inlined write)
  | .group _ [] => none
  | .group op (n :: more) => some ('(' :: joinClauses op (nodesInlined (n :: more)) ++ [')'])

/-- The texts of entries with the values written in them. -/
def nodesInlined : List Node → List Text
  | [] => []
  | n :: more => n.inlined?.toList ++ nodesInlined more

end

/-- The text of the WHERE clause with the values written in it. -/
def Filter.inlined (f : Filter) : Text := joinClauses f.operator (nodesInlined write f.entries)

/-! ## 3. The texts that are copied from a filter -/

mutual

/-- The columns, operators and fragments of an entry. -/
def Node.texts : Node → List Text
  | .raw fragment => [fragment]
  | .condition c => [c.column, c.operator.text]
  | .group op entries => op.text :: nodesTexts entries

/-- The columns, operators and fragments of entries. -/
def nodesTexts : List Node → List Text
  | [] => []
  | n :: more => n.texts ++ nodesTexts more

end

/-- The columns, operators and fragments of a filter. -/
def Filter.texts (f : Filter) : List Text := f.operator.text :: nodesTexts f.entries

/-! ## 4. Parts of a clause -/

/-- The part `s` of a clause has one placeholder for each of the values, and is `t` once they
are written in. -/
def Fills (s : Text) (values : List Value) (t : Text) : Prop :=
  s.count '?' = values.length ∧ Text.substitute s (values.map write) = t

/-- The same, for each of the parts that stand side by side in a group. -/
inductive FillsAll : List Text → List Value → List Text → Prop
  | nil : FillsAll [] [] []
  | cons {s t : Text} {ss ts : List Text} {vs us : List Value} :
      Fills write s vs t → FillsAll ss us ts → FillsAll (s :: ss) (vs ++ us) (t :: ts)

variable {write}

theorem Fills.append {s t s' t' : Text} {vs us : List Value} (h : Fills write s vs t)
    (h' : Fills write s' us t') : Fills write (s ++ s') (vs ++ us) (t ++ t') := by
  obtain ⟨hcount, hfill⟩ := h
  obtain ⟨hcount', hfill'⟩ := h'
  refine ⟨by simp [hcount, hcount'], ?_⟩
  rw [List.map_append, Text.substitute_append _ _ (by simpa using hcount), hfill, hfill']

/-- A text without placeholders stays as it is. -/
theorem fills_of_notMem {s : Text} (h : '?' ∉ s) : Fills write s [] s :=
  ⟨by simp [List.count_eq_zero.mpr h], by simp⟩

theorem fills_mark (v : Value) : Fills write ['?'] [v] (write v) :=
  ⟨by simp, by simp [Text.substitute]⟩

theorem FillsAll.append {ss ts ss' ts' : List Text} {vs us : List Value}
    (h : FillsAll write ss vs ts) (h' : FillsAll write ss' us ts') :
    FillsAll write (ss ++ ss') (vs ++ us) (ts ++ ts') := by
  induction h with
  | nil => exact h'
  | cons hs _ ih =>
    rw [List.append_assoc]
    exact FillsAll.cons hs ih

theorem FillsAll.intercalate {sep : Text} (hsep : '?' ∉ sep) {ss ts : List Text}
    {vs : List Value} (h : FillsAll write ss vs ts) :
    Fills write (sep.intercalate ss) vs (sep.intercalate ts) := by
  induction h with
  | nil => exact fills_of_notMem (by simp)
  | @cons s t ss ts vs us hs hrest ih =>
    cases hrest with
    | nil => simpa using hs
    | @cons s' t' ss' ts' vs' us' hs' hrest' =>
      rw [List.intercalate_cons_cons, List.intercalate_cons_cons]
      have hsep := hs.append (fills_of_notMem hsep)
      rw [List.append_nil] at hsep
      exact hsep.append ih

/-- The operator that is written has no character that neither the given one nor its stand-in
has. -/
theorem notMem_orElse {x : Char} {op fallback : Operator} (h : x ∉ op.text)
    (hf : x ∉ fallback.text) : x ∉ (op.orElse fallback).text := by
  unfold Operator.orElse
  split
  · exact hf
  · exact h

theorem FillsAll.joinClauses {op : Operator} (hop : '?' ∉ op.text) {ss ts : List Text}
    {vs : List Value} (h : FillsAll write ss vs ts) :
    Fills write (joinClauses op ss) vs (joinClauses op ts) := by
  refine h.intercalate ?_
  have hand : '?' ∉ Operator.and.text := by decide
  simpa using notMem_orElse hop hand

/-- **One condition**: its text has a placeholder exactly when it has an argument. -/
theorem fills_condition {c : Condition} (hcol : '?' ∉ c.column) (hop : '?' ∉ c.operator.text) :
    Fills write c.clause c.arguments (c.inlined write) := by
  have hwritten : '?' ∉ c.written.text := notMem_orElse hop (by decide)
  have hhead : '?' ∉ c.column ++ ' ' :: c.written.text := by simp [hcol, hwritten]
  unfold Condition.clause Condition.arguments Condition.inlined
  split
  · exact fills_of_notMem (by simp [hcol, hwritten])
  · have hstart : Fills write (c.column ++ ' ' :: c.written.text) [] _ := fills_of_notMem hhead
    have hopen : Fills write " (".toList [] _ := fills_of_notMem (by decide)
    have hclose : Fills write [')'] [] _ := fills_of_notMem (by decide)
    have hmark : Fills write ['?'] [c.value.getD (.scalar .null)] _ := fills_mark _
    simpa using ((hstart.append hopen).append hmark).append hclose

/-! ## 5. The whole clause -/

mutual

/-- An entry with no text has no arguments, and one with a text fills it. -/
theorem fillsAll_node : ∀ n : Node, (∀ t ∈ n.texts, '?' ∉ t) →
    FillsAll write n.clause?.toList n.arguments (n.inlined? write).toList
  | .raw fragment, h => by
    have hf : '?' ∉ fragment := h fragment (by simp [Node.texts])
    exact FillsAll.cons (fills_of_notMem hf) FillsAll.nil
  | .condition c, h => by
    have hc : Fills write c.clause c.arguments (c.inlined write) :=
      fills_condition (h c.column (by simp [Node.texts]))
        (h c.operator.text (by simp [Node.texts]))
    simpa [Node.clause?, Node.arguments, Node.inlined?] using FillsAll.cons hc FillsAll.nil
  | .group op [], _ => FillsAll.nil
  | .group op (n :: more), h => by
    have hentries := fillsAll_nodes (n :: more) (fun t ht => h t (by simp [Node.texts, ht]))
    have hjoin := hentries.joinClauses (h op.text (by simp [Node.texts]))
    have hopen : Fills write ['('] [] _ := fills_of_notMem (by decide)
    have hclose : Fills write [')'] [] _ := fills_of_notMem (by decide)
    simpa [Node.clause?, Node.arguments, Node.inlined?] using
      FillsAll.cons ((hopen.append hjoin).append hclose) FillsAll.nil

/-- The same for entries side by side. -/
theorem fillsAll_nodes : ∀ entries : List Node, (∀ t ∈ nodesTexts entries, '?' ∉ t) →
    FillsAll write (nodeClauses entries) (nodeArguments entries) (nodesInlined write entries)
  | [], _ => FillsAll.nil
  | n :: more, h => by
    have hn := fillsAll_node n (fun t ht => h t (by simp [nodesTexts, ht]))
    have hmore := fillsAll_nodes more (fun t ht => h t (by simp [nodesTexts, ht]))
    exact hn.append hmore

end

/-- **Positional binding.**  A filter without `?` in its columns, operators and fragments has as
many placeholders as arguments, and filling them in order writes every value into its own
condition, however values are written. -/
theorem Filter.substitute_clause (write : Value → Text) {f : Filter} (h : ∀ t ∈ f.texts, '?' ∉ t) :
    f.clause.count '?' = f.arguments.length ∧
      Text.substitute f.clause (f.arguments.map write) = f.inlined write := by
  have hentries : FillsAll write (nodeClauses f.entries) (nodeArguments f.entries) _ :=
    fillsAll_nodes f.entries (fun t ht => h t (by simp [Filter.texts, ht]))
  exact hentries.joinClauses (h f.operator.text (by simp [Filter.texts]))

/-- A filter with a fragment, a null test, an empty group and a value that is itself a
placeholder. -/
theorem Filter.substitute_clause_nested :
    let f : Filter := ⟨.and, [.raw "x=1".toList, .condition ⟨['a'], .equal, some (.scalar (.string ['?']))⟩,
      .group .or [.condition (.isNull ['b']), .group .empty [],
        .condition ⟨['c'], .notEqual, none⟩]]⟩
    (∀ t ∈ f.texts, '?' ∉ t) ∧ f.clause = "x=1 AND a = (?) AND (b IS NULL OR c <> (?))".toList ∧
      Text.substitute f.clause (f.arguments.map Value.text) =
        "x=1 AND a = ('?') AND (b IS NULL OR c <> (NULL))".toList := by
  intro f
  have hf : ∀ t ∈ f.texts, '?' ∉ t := by decide
  exact ⟨hf, by decide, ((Filter.substitute_clause Value.text hf).2).trans (by decide)⟩

end Sieve
