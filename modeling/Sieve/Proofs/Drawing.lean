/-
# The drawing shows the shape of a filter

In the drawing of a filter every node has one line, in the order in which the nodes are met from
the top: a node in front of what is below it, siblings in their order.  What stands in front of
the label of a node says where it hangs.  There is one cell of four characters for each of its
ancestors below the top and one for itself, and each tells whether a sibling follows.

A node is known by its path, the places of its ancestors and its own among their siblings.  Paths
in lexicographic order are nodes in preorder, and a node is the last of its siblings if there is
none at the next path.

* `Node.at?`, `Filter.walk`: the node at a path; all nodes with their paths;
* `Filter.cells`, `Filter.line`: the cells in front of a node, and its line;
* `Report.split_filterTree`: the lines of a drawing.
-/
import Sieve.Proofs.Characters
import Sieve.Report.Tree
import Mathlib.Data.List.Infix

namespace Sieve

/-! ## 1. Paths -/

/-- The way to a node: for each of its ancestors below the top, and then for the node itself, the
number of siblings in front of it. -/
abbrev Path := List Nat

/-- The path of the next sibling. -/
def Path.next : Path → Path
  | [] => []
  | [i] => [i + 1]
  | i :: j :: p => i :: next (j :: p)

namespace Node

/-- The entries of a node. -/
def entries : Node → List Node
  | .raw _ | .condition _ => []
  | .group _ entries => entries

/-- The node at a path below a node. -/
def at? : Node → Path → Option Node
  | n, [] => some n
  | n, i :: p => n.entries[i]?.bind fun m => m.at? p

/-- Whether no sibling follows. -/
def isLast (n : Node) (p : Path) : Bool := (n.at? p.next).isNone

theorem isLast_singleton (n : Node) (i : Nat) : n.isLast [i] = n.entries[i + 1]?.isNone := by
  rw [isLast, Path.next, at?]
  cases n.entries[i + 1]? <;> rfl

theorem isLast_cons {n m : Node} {i : Nat} (h : n.entries[i]? = some m) (j : Nat) (p : Path) :
    n.isLast (i :: j :: p) = m.isLast (j :: p) := by
  rw [isLast, Path.next, at?, h, Option.bind_some, isLast]

end Node

/-! ## 2. All nodes -/

mutual

/-- A node and all that is below it, each with its path. -/
def Node.walk : Node → List (Path × Node)
  | .raw fragment => [([], .raw fragment)]
  | .condition c => [([], .condition c)]
  | .group op entries => ([], .group op entries) :: walkFrom 0 entries

/-- Entries and all that is below them, the first entry at place `i`. -/
def walkFrom (i : Nat) : List Node → List (Path × Node)
  | [] => []
  | n :: more => n.walk.map (fun q => (i :: q.1, q.2)) ++ walkFrom (i + 1) more

end

theorem Node.walk_eq (n : Node) : n.walk = ([], n) :: walkFrom 0 n.entries := by
  cases n <;> simp [walk, entries, walkFrom]

theorem mem_walkFrom_iff {i : Nat} {entries : List Node} {p : Path} {x : Node} :
    (p, x) ∈ walkFrom i entries ↔
      ∃ j q m, p = (i + j) :: q ∧ entries[j]? = some m ∧ (q, x) ∈ m.walk := by
  induction entries generalizing i with
  | nil => simp [walkFrom]
  | cons n more ih =>
    rw [walkFrom, List.mem_append, List.mem_map, ih]
    constructor
    · rintro (⟨⟨q, y⟩, hq, heq⟩ | ⟨j, q, m, rfl, hm, hq⟩)
      · obtain ⟨rfl, rfl⟩ := Prod.mk.inj heq
        exact ⟨0, q, n, rfl, rfl, hq⟩
      · exact ⟨j + 1, q, m, by rw [Nat.add_right_comm, Nat.add_assoc], hm, hq⟩
    · rintro ⟨_ | j, q, m, rfl, hm, hq⟩
      · obtain rfl := Option.some.inj hm
        exact Or.inl ⟨(q, x), hq, rfl⟩
      · exact Or.inr ⟨j, q, m, by rw [Nat.add_right_comm, Nat.add_assoc], hm, hq⟩

/-- **Every node is met**, and under its path alone. -/
theorem Node.mem_walk_iff {n x : Node} {p : Path} : (p, x) ∈ n.walk ↔ n.at? p = some x := by
  induction p generalizing n with
  | nil =>
    rw [walk_eq, List.mem_cons, mem_walkFrom_iff, at?, Option.some.injEq]
    simp [eq_comm]
  | cons i p ih =>
    rw [walk_eq, List.mem_cons, mem_walkFrom_iff, at?, Option.bind_eq_some_iff]
    constructor
    · rintro (h | ⟨j, q, m, h, hm, hq⟩)
      · cases h
      · obtain ⟨rfl, rfl⟩ : i = 0 + j ∧ p = q := List.cons.inj h
        rw [Nat.zero_add]
        exact ⟨m, hm, ih.mp hq⟩
    · rintro ⟨m, hm, hp⟩
      exact Or.inr ⟨i, p, m, by rw [Nat.zero_add], hm, ih.mpr hp⟩

mutual

theorem Node.pairwise_walk : ∀ n : Node, n.walk.Pairwise (fun a b => a.1 < b.1)
  | .raw _ => by simp [Node.walk]
  | .condition _ => by simp [Node.walk]
  | .group _ entries => by
    rw [Node.walk, List.pairwise_cons]
    refine ⟨fun b hb => ?_, pairwise_walkFrom 0 entries⟩
    obtain ⟨j, q, m, hp, -, -⟩ := mem_walkFrom_iff.mp hb
    rw [hp]
    exact List.nil_lt_cons _ _

/-- **Nodes are met in the order of their paths.** -/
theorem pairwise_walkFrom : ∀ (i : Nat) (entries : List Node),
    (walkFrom i entries).Pairwise (fun a b => a.1 < b.1)
  | _, [] => by simp [walkFrom]
  | i, n :: more => by
    rw [walkFrom, List.pairwise_append, List.pairwise_map]
    refine ⟨n.pairwise_walk.imp fun h => List.cons_lt_cons_iff.mpr (Or.inr ⟨rfl, h⟩),
      pairwise_walkFrom (i + 1) more, fun a ha b hb => ?_⟩
    obtain ⟨q, -, rfl⟩ := List.mem_map.mp ha
    obtain ⟨j, r, m, hp, -, -⟩ := mem_walkFrom_iff.mp hb
    rw [hp]
    exact List.cons_lt_cons_iff.mpr (Or.inl (by omega))

end

/-! ## 3. Lines -/

namespace Node

/-- The cell for `q`, a node or an ancestor of one, in front of the node at `p`. -/
def cell (n : Node) (p q : Path) : Text :=
  if q = p then if n.isLast q then "└── ".toList else "├── ".toList
  else if n.isLast q then "    ".toList else "│   ".toList

/-- The cells in front of the node at a path: for its ancestors below the top, and for itself. -/
def cells (n : Node) (p : Path) : List Text := p.inits.tail.map (n.cell p)

/-- What a node says of itself. -/
def label : Node → Text
  | .raw fragment => Report.rawLabel false fragment
  | .condition c => Report.conditionLabel false c
  | .group op _ => Report.groupLabel false op

/-- The line of a node that is below this one. -/
def line (n : Node) (q : Path × Node) : Text := (n.cells q.1).flatten ++ q.2.label

theorem cell_cons {n m : Node} {i : Nat} (h : n.entries[i]? = some m) (p : Path) (j : Nat)
    (q : Path) : n.cell (i :: p) (i :: j :: q) = m.cell p (j :: q) := by
  have hself : (i :: j :: q = i :: p) ↔ (j :: q = p) := by simp
  rw [cell, cell, isLast_cons h, if_congr hself rfl rfl]

/-- The outermost cell tells whether the topmost ancestor has a sibling behind it; the others are
those that stand in front of the node below that ancestor. -/
theorem cells_cons {n m : Node} {i : Nat} (h : n.entries[i]? = some m) (p : Path) :
    n.cells (i :: p) = n.cell (i :: p) [i] :: m.cells p := by
  cases p with
  | nil => rfl
  | cons j p =>
    have htail : (i :: j :: p).inits.tail = [i] :: (j :: p).inits.tail.map (i :: ·) := by simp
    have hinner : ∀ q ∈ (j :: p).inits.tail, n.cell (i :: j :: p) (i :: q) = m.cell (j :: p) q := by
      intro q hq
      obtain ⟨r, -, rfl⟩ : ∃ r ∈ p.inits, j :: r = q := by simpa using hq
      exact cell_cons h (j :: p) j r
    rw [cells, htail, List.map_cons, List.map_map]
    exact congrArg _ (List.map_congr_left hinner)

theorem line_cons {n m : Node} {i : Nat} (h : n.entries[i]? = some m) (q : Path × Node) :
    n.line (i :: q.1, q.2) = n.cell (i :: q.1) [i] ++ m.line q := by
  rw [line, line, cells_cons h, List.flatten_cons, List.append_assoc]

end Node

namespace Report

/-- Hanging the lines of a node puts the cell for it in front of all of them. -/
theorem hang_lines {n m : Node} {i : Nat} (h : n.entries[i]? = some m) {first below : Text}
    (hfirst : n.cell [i] [i] = first) (hbelow : ∀ j q, n.cell (i :: j :: q) [i] = below) :
    hang first below (m.walk.map m.line) =
      (m.walk.map (fun q => (i :: q.1, q.2))).map n.line := by
  rw [m.walk_eq, List.map_cons, List.map_cons, List.map_cons, hang, List.map_map, List.map_map,
    Node.line_cons h, hfirst]
  refine congrArg _ (List.map_congr_left fun q hq => ?_)
  obtain ⟨p, x⟩ := q
  obtain ⟨j, r, -, rfl, -, -⟩ := mem_walkFrom_iff.mp hq
  rw [Function.comp_apply, Function.comp_apply, Node.line_cons h, hbelow]

mutual

theorem nodeLines_eq : ∀ n : Node, nodeLines false n = n.walk.map n.line
  | .raw _ => rfl
  | .condition _ => rfl
  | .group op entries => by
    rw [nodeLines, Node.walk, List.map_cons,
      entryLines_eq (.group op entries) [] entries rfl]
    rfl

/-- **The lines of entries**, with those of the siblings in front of them left out. -/
theorem entryLines_eq (n : Node) (before : List Node) : ∀ entries : List Node,
    n.entries = before ++ entries →
    entryLines false entries = (walkFrom before.length entries).map n.line
  | [], _ => rfl
  | [m], h => by
    have hm : n.entries[before.length]? = some m := by simp [h]
    have hlast : n.isLast [before.length] = true := by
      rw [Node.isLast_singleton, h]
      simp
    rw [entryLines, nodeLines_eq m, walkFrom, walkFrom, List.append_nil]
    exact hang_lines hm (by simp [Node.cell, hlast]) fun j q => by simp [Node.cell, hlast]
  | m :: m' :: more, h => by
    have hm : n.entries[before.length]? = some m := by simp [h]
    have hlast : n.isLast [before.length] = false := by
      rw [Node.isLast_singleton, h]
      simp
    have hrest := entryLines_eq n (before ++ [m]) (m' :: more) (by simp [h])
    rw [entryLines, nodeLines_eq m, walkFrom, List.map_append, hrest, List.length_append]
    congr 1
    exact hang_lines hm (by simp [Node.cell, hlast]) fun j q => by simp [Node.cell, hlast]

end

end Report

/-! ## 4. Filters -/

namespace Filter

/-- All nodes of a filter, each with its path. -/
def walk (f : Filter) : List (Path × Node) := walkFrom 0 f.entries

/-- The depth of the nodes at the top of the drawing, which have no cell: that of the filter
itself, or of its entries if it has no operator and so no line. -/
def top (f : Filter) : Nat := if f.operator.isEmpty then 1 else 0

/-- The cells in front of the node at a path. -/
def cells (f : Filter) (p : Path) : List Text := (f.node.cells p).drop f.top

/-- The line of a node. -/
def line (f : Filter) (q : Path × Node) : Text := (f.cells q.1).flatten ++ q.2.label

theorem mem_walk_iff {f : Filter} {p : Path} {n : Node} :
    (p, n) ∈ f.walk ↔ p ≠ [] ∧ f.node.at? p = some n := by
  have hwalk : f.node.walk = ([], f.node) :: f.walk := f.node.walk_eq
  rw [← Node.mem_walk_iff, hwalk, List.mem_cons]
  constructor
  · intro h
    obtain ⟨j, q, m, rfl, -, -⟩ := mem_walkFrom_iff.mp h
    exact ⟨List.cons_ne_nil _ q, Or.inr h⟩
  · rintro ⟨hp, h | h⟩
    · exact absurd (Prod.mk.inj h).1 hp
    · exact h

theorem length_cells (f : Filter) (p : Path) : (f.cells p).length = p.length - f.top := by
  simp [cells, Node.cells]

/-- A cell is four visible characters. -/
theorem length_of_mem_cells {f : Filter} {p : Path} {c : Text} (h : c ∈ f.cells p) :
    c.length = 4 ∧ c.Visible := by
  obtain ⟨q, -, rfl⟩ := List.mem_map.mp (List.mem_of_mem_drop h)
  unfold Node.cell
  split <;> split <;> decide

end Filter

namespace Report

/-- Entries under no operator stand side by side, each as it stands alone. -/
theorem flatMap_nodeLines_eq (n : Node) (before : List Node) : ∀ entries : List Node,
    n.entries = before ++ entries → entries.flatMap (nodeLines false) =
      (walkFrom before.length entries).map fun q => ((n.cells q.1).drop 1).flatten ++ q.2.label
  | [], _ => rfl
  | m :: more, h => by
    have hm : n.entries[before.length]? = some m := by simp [h]
    have hrest := flatMap_nodeLines_eq n (before ++ [m]) more (by simp [h])
    rw [List.flatMap_cons, walkFrom, List.map_append, hrest, nodeLines_eq m, List.map_map,
      List.length_append]
    congr 1
    exact List.map_congr_left fun q _ => by simp [Node.line, Node.cells_cons hm]

theorem filterLines_eq (f : Filter) : filterLines false f =
    (if f.operator.isEmpty then [] else [f.operator.text]) ++ f.walk.map f.line := by
  unfold filterLines
  split
  · next hop =>
    have hline : f.line = fun q => ((f.node.cells q.1).drop 1).flatten ++ q.2.label := by
      funext q
      rw [Filter.line, Filter.cells, Filter.top, if_pos hop]
    rw [hline, List.nil_append]
    exact flatMap_nodeLines_eq f.node [] f.entries rfl
  · next hop =>
    have hline : f.line = f.node.line := by
      funext q
      rw [Filter.line, Filter.cells, Filter.top, if_neg hop, List.drop_zero, Node.line]
    rw [hline, List.singleton_append, groupLabel, if_neg hop, Style.paint_false]
    exact congrArg _ (entryLines_eq f.node [] f.entries rfl)

/-! ## 5. Control characters -/

section

variable {x : Char}

theorem notMem_entries {n : Node} (h : ∀ t ∈ n.texts ++ n.strings, x ∉ t) :
    ∀ t ∈ nodesTexts n.entries ++ nodesStrings n.entries, x ∉ t := by
  cases n with
  | raw | condition => simp [Node.entries, nodesTexts, nodesStrings]
  | group op entries => exact (forall_mem_group.mp h).2

theorem notMem_of_mem : ∀ {entries : List Node} {n : Node},
    (∀ t ∈ nodesTexts entries ++ nodesStrings entries, x ∉ t) → n ∈ entries →
    ∀ t ∈ n.texts ++ n.strings, x ∉ t
  | m :: more, n, h, hn => by
    obtain ⟨hm, hmore⟩ := forall_mem_nodes_cons.mp h
    rcases List.mem_cons.mp hn with rfl | hn
    · exact hm
    · exact notMem_of_mem hmore hn

/-- The texts and strings of a node are among those of every node above it. -/
theorem notMem_of_at? : ∀ {p : Path} {n m : Node}, (∀ t ∈ n.texts ++ n.strings, x ∉ t) →
    n.at? p = some m → ∀ t ∈ m.texts ++ m.strings, x ∉ t
  | [], n, m, h, hm => by
    obtain rfl := Option.some.inj hm
    exact h
  | i :: p, n, m, h, hm => by
    obtain ⟨next, hnext, hm⟩ := Option.bind_eq_some_iff.mp hm
    exact notMem_of_at? (notMem_of_mem (notMem_entries h) (List.mem_of_getElem? hnext)) hm

theorem notMem_label (hx : x.toNat < 0x20) {n : Node} (h : ∀ t ∈ n.texts ++ n.strings, x ∉ t) :
    x ∉ n.label := by
  have hspace : x ≠ ' ' := Text.ne_of_control hx (by decide)
  obtain ⟨htexts, hstrings⟩ := List.forall_mem_append.mp h
  cases n with
  | raw fragment =>
    have hraw : x ∉ "raw:".toList := Text.Visible.notMem (by decide) hx
    have hfragment := htexts fragment (by simp [Node.texts])
    simp only [Node.label, rawLabel, Style.paint_false, List.mem_append, List.mem_cons, not_or]
    exact ⟨hraw, hspace, hfragment⟩
  | condition c =>
    have hcolumn := htexts c.column (by simp [Node.texts])
    have hop := htexts c.operator.text (by simp [Node.texts])
    have hvalue := Condition.notMem_value hx hstrings
    simp [Node.label, conditionLabel, hcolumn, hop, hvalue, hspace]
  | group op entries =>
    have hgroup : x ∉ "(group)".toList := Text.Visible.notMem (by decide) hx
    have hop := htexts op.text (by simp [Node.texts])
    rw [Node.label, groupLabel]
    split
    · exact hgroup
    · exact hop

end

/-! ## 6. The drawing -/

/-- A line of the drawing has no control character that no text or string of the filter has. -/
theorem notMem_line {x : Char} (hx : x.toNat < 0x20) {f : Filter}
    (h : ∀ t ∈ f.texts ++ f.strings, x ∉ t) {q : Path × Node} (hq : q ∈ f.walk) : x ∉ f.line q := by
  obtain ⟨p, n⟩ := q
  have hroot : ∀ t ∈ f.node.texts ++ f.node.strings, x ∉ t := h
  have hlabel := notMem_label hx (notMem_of_at? hroot (Filter.mem_walk_iff.mp hq).2)
  have hcells : x ∉ (f.cells p).flatten := fun hmem => by
    obtain ⟨c, hc, hxc⟩ := List.mem_flatten.mp hmem
    exact (Filter.length_of_mem_cells hc).2.notMem hx hxc
  simp [Filter.line, hlabel, hcells]

/-- **The drawing shows the shape of the filter.**  Behind the line of an operator at the top it
has one line for each node, in preorder, with as many cells in front as the node is deep. -/
theorem split_filterTree (f : Filter) (hne : f.entries ≠ [])
    (h : ∀ t ∈ f.texts ++ f.strings, '\n' ∉ t) :
    Text.split '\n' (filterTree false f) =
        (if f.operator.isEmpty then [] else [f.operator.text]) ++ f.walk.map f.line ++ [[]] ∧
      f.walk.Pairwise (fun a b => a.1 < b.1) ∧
      (∀ p n, (p, n) ∈ f.walk ↔ p ≠ [] ∧ f.node.at? p = some n) ∧
      ∀ p, (f.cells p).length = p.length - f.top ∧ ∀ c ∈ f.cells p, c.length = 4 := by
  refine ⟨?_, pairwise_walkFrom 0 f.entries, fun p n => Filter.mem_walk_iff,
    fun p => ⟨f.length_cells p, fun c hc => (Filter.length_of_mem_cells hc).1⟩⟩
  have hop : '\n' ∉ f.operator.text := h f.operator.text (by simp [Filter.texts])
  have hheader : ∀ l ∈ (if f.operator.isEmpty then [] else [f.operator.text]), '\n' ∉ l := by
    split
    · simp
    · simpa using hop
  have hlines : ∀ l ∈ f.walk.map f.line, '\n' ∉ l :=
    List.forall_mem_map.mpr fun q => notMem_line (by decide) h
  rw [filterTree, if_neg (by simpa [Filter.isEmpty] using hne), filterLines_eq]
  exact Text.split_unlines (List.forall_mem_append.mpr ⟨hheader, hlines⟩)

/-- A last group inside an inner one, and entries of a group without an operator. -/
theorem split_filterTree_nested :
    let f : Filter := ⟨.or, [
      .group .and [.raw "x=1".toList, .group .empty [.condition (.isNull ['a']), .group .or []]],
      .group .and [.group .empty [.raw "y".toList]]]⟩
    f.entries ≠ [] ∧ (∀ t ∈ f.texts ++ f.strings, '\n' ∉ t) ∧
      Text.split '\n' (filterTree false f) = ["OR".toList, "├── AND".toList,
        "│   ├── raw: x=1".toList, "│   └── (group)".toList, "│       ├── a IS NULL".toList,
        "│       └── OR".toList, "└── AND".toList, "    └── (group)".toList,
        "        └── raw: y".toList, []] := by
  intro f
  have hne : f.entries ≠ [] := List.cons_ne_nil _ _
  have h : ∀ t ∈ f.texts ++ f.strings, '\n' ∉ t := by decide
  exact ⟨hne, h, (split_filterTree f hne h).1.trans (by decide +kernel)⟩

end Report

end Sieve
