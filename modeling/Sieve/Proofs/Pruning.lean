/-
# Groups without content

A group is left out of a WHERE clause when it has no entries.  A group that has entries may still
have no content: no condition and no fragment, only groups in which there is nothing either.
Taking every such group out of a filter drops no argument, but it may change the text, for a group
is left out by its own entries alone.  One that holds only groups that are left out is written as
a pair of brackets around nothing.

* `Filter.hasContent`, `Filter.pruned`: content, and the filter without the groups that have none;
* `Filter.groups`, `Filter.Hollow`: the nested groups, and those with entries but no content;
* `Prunes`, `nodes_prune`: what pruning does to the clauses of entries;
* `Filter.pruned_clause_eq_iff`: the text stays the same exactly if no group is hollow, and in all
  other filters an empty pair of brackets is written.
-/
import Sieve.Filter.Clause

namespace Sieve

/-! ## 1. Content -/

mutual

/-- Whether a condition or a fragment stands in the entry, at any depth. -/
def Node.hasContent : Node → Bool
  | .raw _ => true
  | .condition _ => true
  | .group _ entries => nodesHaveContent entries

/-- Whether one of the entries has content. -/
def nodesHaveContent : List Node → Bool
  | [] => false
  | n :: more => n.hasContent || nodesHaveContent more

end

mutual

/-- The entry without the groups in it that have no content; none if it is such a group. -/
def Node.pruned? : Node → Option Node
  | .raw fragment => some (.raw fragment)
  | .condition c => some (.condition c)
  | .group op entries =>
    if nodesHaveContent entries then some (.group op (nodesPruned entries)) else none

/-- The entries without the groups that have no content, at any depth. -/
def nodesPruned : List Node → List Node
  | [] => []
  | n :: more => n.pruned?.toList ++ nodesPruned more

end

mutual

/-- The groups in the entry, itself with them. -/
def Node.groups : Node → List Filter
  | .raw _ => []
  | .condition _ => []
  | .group op entries => ⟨op, entries⟩ :: nodesGroups entries

/-- The groups in the entries. -/
def nodesGroups : List Node → List Filter
  | [] => []
  | n :: more => n.groups ++ nodesGroups more

end

namespace Filter

/-- Whether a condition or a fragment stands in the filter, at any depth. -/
def hasContent (f : Filter) : Bool := nodesHaveContent f.entries

/-- The filter without the nested groups that have no content. -/
def pruned (f : Filter) : Filter := ⟨f.operator, nodesPruned f.entries⟩

/-- The nested groups, at any depth. -/
def groups (f : Filter) : List Filter := nodesGroups f.entries

/-- There are entries, and no content. -/
def Hollow (f : Filter) : Prop := f.entries ≠ [] ∧ f.hasContent = false

end Filter

/-- What is left of entries with content is not empty. -/
theorem nodesPruned_ne_nil : ∀ {entries : List Node}, nodesHaveContent entries = true →
    nodesPruned entries ≠ []
  | .raw _ :: _, _ => by simp [nodesPruned, Node.pruned?]
  | .condition _ :: _, _ => by simp [nodesPruned, Node.pruned?]
  | .group op inner :: more, h => by
    cases hinner : nodesHaveContent inner with
    | true => simp [nodesPruned, Node.pruned?, hinner]
    | false =>
      have hmore : nodesPruned more ≠ [] := nodesPruned_ne_nil
        (by simpa [nodesHaveContent, Node.hasContent, hinner] using h)
      simpa [nodesPruned, Node.pruned?, hinner] using hmore

/-! ## 2. Arguments -/

mutual

theorem Node.arguments_eq_nil : ∀ n : Node, n.hasContent = false → n.arguments = []
  | .raw _, h => by simp [Node.hasContent] at h
  | .condition _, h => by simp [Node.hasContent] at h
  | .group _ entries, h => nodeArguments_eq_nil entries (by simpa [Node.hasContent] using h)

/-- Without content there is nothing to bind. -/
theorem nodeArguments_eq_nil : ∀ entries : List Node, nodesHaveContent entries = false →
    nodeArguments entries = []
  | [], _ => rfl
  | n :: more, h => by
    obtain ⟨hn, hmore⟩ := Bool.or_eq_false_iff.mp (by simpa only [nodesHaveContent] using h)
    rw [nodeArguments, Node.arguments_eq_nil n hn, nodeArguments_eq_nil more hmore,
      List.append_nil]

end

theorem nodeArguments_append (entries more : List Node) :
    nodeArguments (entries ++ more) = nodeArguments entries ++ nodeArguments more := by
  simp [nodeArguments_eq_flatMap]

mutual

theorem Node.arguments_pruned : ∀ n : Node, nodeArguments n.pruned?.toList = n.arguments
  | .raw _ => by simp [Node.pruned?, nodeArguments]
  | .condition _ => by simp [Node.pruned?, nodeArguments]
  | .group _ entries => by
    rw [Node.pruned?, Node.arguments]
    split
    · simpa [nodeArguments, Node.arguments] using nodeArguments_pruned entries
    · next hcontent =>
      exact (nodeArguments_eq_nil entries (Bool.eq_false_iff.mpr hcontent)).symm

/-- **Pruning drops no argument.** -/
theorem nodeArguments_pruned : ∀ entries : List Node,
    nodeArguments (nodesPruned entries) = nodeArguments entries
  | [] => rfl
  | n :: more => by
    rw [nodesPruned, nodeArguments_append, Node.arguments_pruned, nodeArguments_pruned,
      nodeArguments]

end

/-! ## 3. Texts -/

theorem nodeClauses_append (entries more : List Node) :
    nodeClauses (entries ++ more) = nodeClauses entries ++ nodeClauses more := by
  simp [nodeClauses_eq_filterMap]

theorem nodeClauses_singleton (n : Node) : nodeClauses [n] = n.clause?.toList := by
  simp [nodeClauses]

/-- The number of characters of all the clauses. -/
def totalLength (clauses : List Text) : Nat := clauses.flatten.length

theorem length_joinClauses (op : Operator) (clauses : List Text) :
    (joinClauses op clauses).length =
      totalLength clauses + (clauses.length - 1) * ((op.orElse .and).text.length + 2) := by
  unfold joinClauses totalLength
  induction clauses with
  | nil => simp
  | cons s more ih =>
    cases more with
    | nil => simp
    | cons t more =>
      rw [List.intercalate_cons_cons, List.length_append, List.length_append, ih]
      simp only [List.flatten_cons, List.length_cons, List.length_append,
        List.length_nil, Nat.add_sub_cancel, Nat.succ_mul]
      omega

/-- Clauses before and after groups were taken out: there are not more of them and they are not
longer.  They are the same if `tidy` holds, and otherwise they are shorter. -/
structure Prunes (before after : List Text) (tidy : Prop) : Prop where
  length_le : after.length ≤ before.length
  totalLength_le : totalLength after ≤ totalLength before
  eq_of_tidy : tidy → after = before
  tidy_of_eq : totalLength after = totalLength before → tidy

namespace Prunes

theorem refl (clauses : List Text) : Prunes clauses clauses True :=
  ⟨Nat.le_refl _, Nat.le_refl _, fun _ => rfl, fun _ => trivial⟩

theorem append {s t s' t' : List Text} {p p' : Prop} (h : Prunes s t p) (h' : Prunes s' t' p') :
    Prunes (s ++ s') (t ++ t') (p ∧ p') := by
  have htotal (u v : List Text) : totalLength (u ++ v) = totalLength u + totalLength v := by
    simp [totalLength]
  have hle := h.totalLength_le
  have hle' := h'.totalLength_le
  refine ⟨?_, ?_, ?_, ?_⟩
  · simpa using Nat.add_le_add h.length_le h'.length_le
  · rw [htotal, htotal]
    exact Nat.add_le_add hle hle'
  · rintro ⟨hp, hp'⟩
    rw [h.eq_of_tidy hp, h'.eq_of_tidy hp']
  · intro heq
    rw [htotal, htotal] at heq
    exact ⟨h.tidy_of_eq (by omega), h'.tidy_of_eq (by omega)⟩

/-- Joining keeps the longer ones longer, whatever the operator. -/
theorem length_join_le {s t : List Text} {p : Prop} (h : Prunes s t p) (op : Operator) :
    (joinClauses op t).length ≤ (joinClauses op s).length ∧
      ((joinClauses op t).length = (joinClauses op s).length → p) := by
  have hle := h.totalLength_le
  have hseps := Nat.mul_le_mul_right ((op.orElse .and).text.length + 2)
    (Nat.sub_le_sub_right h.length_le 1)
  rw [length_joinClauses, length_joinClauses]
  exact ⟨by omega, fun heq => h.tidy_of_eq (by omega)⟩

theorem group {s t : List Text} {p : Prop} (h : Prunes s t p) (op : Operator) :
    Prunes ['(' :: joinClauses op s ++ [')']] ['(' :: joinClauses op t ++ [')']] p := by
  obtain ⟨hle, heq⟩ := h.length_join_le op
  refine ⟨Nat.le_refl _, ?_, fun hp => by rw [h.eq_of_tidy hp], fun hlen => heq ?_⟩
  · simpa [totalLength] using hle
  · simpa [totalLength] using hlen

/-- A group that was written and is taken out leaves less text. -/
theorem drop (s : Text) (h : s ≠ []) : Prunes [s] [] False := by
  refine ⟨Nat.zero_le _, Nat.zero_le _, False.elim, fun hlen => h ?_⟩
  simpa [totalLength] using hlen.symm

end Prunes

mutual

theorem Node.prunes : ∀ n : Node,
    Prunes n.clause?.toList (nodeClauses n.pruned?.toList) (∀ g ∈ n.groups, ¬ g.Hollow)
  | .raw _ => by simpa [Node.pruned?, Node.groups, nodeClauses] using Prunes.refl _
  | .condition _ => by simpa [Node.pruned?, Node.groups, nodeClauses] using Prunes.refl _
  | .group op [] => by
    simpa [Node.clause?, Node.pruned?, Node.groups, nodeClauses, nodesGroups, nodesHaveContent,
      Filter.Hollow] using Prunes.refl []
  | .group op (n :: more) => by
    rw [Node.pruned?, Node.groups, Node.clause?, List.forall_mem_cons]
    split
    · next hcontent =>
      -- brackets stay around what is left of the entries
      have hfull : ¬ Filter.Hollow ⟨op, n :: more⟩ := by
        simp [Filter.Hollow, Filter.hasContent, hcontent]
      simpa only [Option.toList_some, nodeClauses_singleton,
        Node.clause?_group (nodesPruned_ne_nil hcontent), hfull, not_false_eq_true, true_and] using
        (nodes_prune (n :: more)).group op
    · next hcontent =>
      -- a pair of brackets goes
      have hhollow : Filter.Hollow ⟨op, n :: more⟩ :=
        ⟨List.cons_ne_nil n more, Bool.eq_false_iff.mpr hcontent⟩
      rw [Option.toList_some, Option.toList_none, nodeClauses]
      simpa only [hhollow, not_true_eq_false, false_and] using Prunes.drop _ (by simp)

/-- **Pruning shortens the clauses** exactly if some group is hollow. -/
theorem nodes_prune : ∀ entries : List Node,
    Prunes (nodeClauses entries) (nodeClauses (nodesPruned entries))
      (∀ g ∈ nodesGroups entries, ¬ g.Hollow)
  | [] => by simpa [nodesPruned, nodesGroups] using Prunes.refl _
  | n :: more => by
    rw [nodeClauses, nodesPruned, nodeClauses_append, nodesGroups, List.forall_mem_append]
    exact (Node.prunes n).append (nodes_prune more)

end

/-! ## 4. Brackets around nothing -/

/-- A group that is written as nothing between brackets, though it has no content. -/
def Filter.Brackets (g : Filter) : Prop :=
  g.hasContent = false ∧ g.node.clause? = some ['(', ')']

mutual

theorem Node.clause?_eq_none_or : ∀ n : Node, n.hasContent = false →
    n.clause? = none ∨ ∃ g ∈ n.groups, g.Brackets
  | .raw _, h => by simp [Node.hasContent] at h
  | .condition _, h => by simp [Node.hasContent] at h
  | .group op [], _ => Or.inl (by rw [Node.clause?])
  | .group op (n :: more), h => by
    rw [Node.hasContent] at h
    rw [Node.groups]
    rcases nodeClauses_eq_nil_or (n :: more) h with hnil | ⟨g, hg, hbrackets⟩
    · refine Or.inr ⟨_, List.mem_cons_self, h, ?_⟩
      rw [Filter.node, Node.clause?, hnil]
      rfl
    · exact Or.inr ⟨g, List.mem_cons_of_mem _ hg, hbrackets⟩

/-- Entries without content are all left out, or brackets around nothing are written in one. -/
theorem nodeClauses_eq_nil_or : ∀ entries : List Node, nodesHaveContent entries = false →
    nodeClauses entries = [] ∨ ∃ g ∈ nodesGroups entries, g.Brackets
  | [], _ => Or.inl rfl
  | n :: more, h => by
    obtain ⟨hn, hmore⟩ := Bool.or_eq_false_iff.mp (by simpa only [nodesHaveContent] using h)
    rw [nodeClauses, nodesGroups]
    rcases Node.clause?_eq_none_or n hn with hnone | ⟨g, hg, hbrackets⟩
    · rcases nodeClauses_eq_nil_or more hmore with hnil | ⟨g, hg, hbrackets⟩
      · exact Or.inl (by rw [hnone, hnil]; rfl)
      · exact Or.inr ⟨g, List.mem_append_right _ hg, hbrackets⟩
    · exact Or.inr ⟨g, List.mem_append_left _ hg, hbrackets⟩

end

mutual

theorem Node.mem_groups_trans {g h : Filter} (hh : h ∈ g.groups) : ∀ n : Node, g ∈ n.groups →
    h ∈ n.groups
  | .raw _, hg => by simp [Node.groups] at hg
  | .condition _, hg => by simp [Node.groups] at hg
  | .group op entries, hg => by
    rw [Node.groups, List.mem_cons] at hg ⊢
    rcases hg with rfl | hg
    · exact Or.inr hh
    · exact Or.inr (mem_nodesGroups_trans hh entries hg)

/-- The groups of a group are groups. -/
theorem mem_nodesGroups_trans {g h : Filter} (hh : h ∈ g.groups) : ∀ entries : List Node,
    g ∈ nodesGroups entries → h ∈ nodesGroups entries
  | [], hg => by simp [nodesGroups] at hg
  | n :: more, hg => by
    rw [nodesGroups, List.mem_append] at hg ⊢
    exact hg.imp (Node.mem_groups_trans hh n) (mem_nodesGroups_trans hh more)

end

namespace Filter

theorem Brackets.hollow {g : Filter} (h : g.Brackets) : g.Hollow := by
  refine ⟨fun hnil => ?_, h.1⟩
  have hclause := h.2
  rw [node, hnil, Node.clause?] at hclause
  cases hclause

/-- Where a group is hollow, it or a group inside it is written as brackets around nothing. -/
theorem exists_brackets_iff (f : Filter) :
    (∃ g ∈ f.groups, g.Brackets) ↔ ∃ g ∈ f.groups, g.Hollow := by
  constructor
  · rintro ⟨g, hg, hbrackets⟩
    exact ⟨g, hg, hbrackets.hollow⟩
  · rintro ⟨g, hg, hne, hcontent⟩
    rcases nodeClauses_eq_nil_or g.entries hcontent with hnil | ⟨h, hh, hbrackets⟩
    · refine ⟨g, hg, hcontent, ?_⟩
      rw [node, Node.clause?_group hne, hnil]
      rfl
    · exact ⟨h, mem_nodesGroups_trans hh f.entries hg, hbrackets⟩

/-- **Groups without content.**  Taking them out never changes the arguments.  It leaves the text
as it is exactly if none of them has entries; if one has, somewhere brackets around nothing are
written. -/
theorem pruned_clause_eq_iff (f : Filter) :
    f.pruned.arguments = f.arguments ∧
      (f.pruned.clause = f.clause ↔ ∀ g ∈ f.groups, ¬ g.Hollow) ∧
      ((∃ g ∈ f.groups, g.Brackets) ↔ ∃ g ∈ f.groups, g.Hollow) := by
  refine ⟨nodeArguments_pruned f.entries, ?_, f.exists_brackets_iff⟩
  have hprune := nodes_prune f.entries
  constructor
  · intro heq
    exact (hprune.length_join_le f.operator).2 (congrArg List.length heq)
  · intro h
    exact congrArg (joinClauses f.operator) (hprune.eq_of_tidy h)

/-- An empty group is left out; a group around one is not. -/
theorem pruned_clause_ne_nested :
    let f : Filter := ⟨.and, [.condition (.isNull ['a']), .group .empty [.group .empty []]]⟩
    f.clause = "a IS NULL AND ()".toList ∧ f.pruned.clause = "a IS NULL".toList := by
  decide +kernel

end Filter

end Sieve
