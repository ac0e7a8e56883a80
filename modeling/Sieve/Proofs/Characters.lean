/-
# The characters of what is shown

Numbers, truth values, timestamps and identifiers are shown with visible characters alone, and so
is all that stands between the texts of a filter in its clause.  A control character, such as a
line break or the escape character of a terminal, is shown only if the user put it into a column,
an operator, a fragment or a string.

* `Text.Visible`: no control characters, with one lemma for each way of writing a value;
* `Filter.strings`: the strings among the values of a filter;
* `Value.notMem_text`, `Filter.notMem_clause`: control characters come from strings and texts.
-/
import Sieve.Proofs.Binding
import Sieve.Proofs.Decimal

namespace Sieve

/-! ## 1. Visible texts -/

namespace Text

/-- The text has no control characters. -/
def Visible (s : Text) : Prop := ∀ c ∈ s, 0x20 ≤ c.toNat

instance (s : Text) : Decidable s.Visible := List.decidableBAll (fun c : Char => 0x20 ≤ c.toNat) s

variable {s t : Text} {c x : Char}

@[simp] theorem visible_nil : Visible [] := nofun

@[simp] theorem visible_cons : Visible (c :: s) ↔ 0x20 ≤ c.toNat ∧ Visible s :=
  List.forall_mem_cons

@[simp] theorem visible_append : Visible (s ++ t) ↔ Visible s ∧ Visible t :=
  List.forall_mem_append

@[simp] theorem visible_replicate_zero (n : Nat) : Visible (List.replicate n '0') := by
  intro c hc
  rw [List.eq_of_mem_replicate hc]
  decide

theorem Visible.of_subset (h : Visible t) (hsub : s ⊆ t) : Visible s := fun c hc => h c (hsub hc)

theorem ne_of_control (hx : x.toNat < 0x20) (hc : 0x20 ≤ c.toNat) : x ≠ c := by
  rintro rfl
  omega

theorem Visible.notMem (h : Visible s) (hx : x.toNat < 0x20) : x ∉ s :=
  fun hmem => ne_of_control hx (h x hmem) rfl

@[simp] theorem visible_decimal (n : Nat) : Visible (decimal n) := by
  intro c hc
  have hrange := toNat_of_isDigit (isDigit_of_mem_decimal hc)
  omega

@[simp] theorem visible_padded (width n : Nat) : Visible (padded width n) := by simp [padded]

@[simp] theorem visible_signedDecimal (n : Int) : Visible (signedDecimal n) := by
  unfold signedDecimal
  split <;> simp

/-- What stands in a joined text stands in one of the texts or between them. -/
theorem notMem_intercalate {sep : Text} (hsep : x ∉ sep) : ∀ {pieces : List Text},
    (∀ piece ∈ pieces, x ∉ piece) → x ∉ sep.intercalate pieces
  | [], _ => by simp
  | [piece], h => by simpa using h
  | piece :: next :: more, h => by
    obtain ⟨hpiece, hmore⟩ := List.forall_mem_cons.mp h
    have hrest := notMem_intercalate hsep hmore
    rw [List.intercalate_cons_cons]
    simp [hpiece, hsep, hrest]

end Text

open Text

/-! ## 2. Literals -/

theorem Binary64.visible_positional {digits mark : Text} (h : Visible digits) (hmark : Visible mark)
    (e : Int) : Visible (positional digits e mark) := by
  unfold positional
  dsimp only
  split
  · simp [h, hmark]
  split
  · simp [h.of_subset (List.take_subset _ digits), h.of_subset (List.drop_subset _ digits)]
  · simp [h]

theorem Binary64.visible_plain (x : Binary64) : Visible x.plain := by
  have hsigned : ∀ {s : Text} (negative : Bool), Visible s → Visible (signed negative s) := by
    intro s negative h
    cases negative <;> simp [signed, h]
  cases x with
  | nan => simp [plain]
  | infinite negative => exact hsigned negative (by simp)
  | finite negative m q =>
    refine hsigned negative ?_
    split
    · simp
    · exact visible_positional (visible_decimal _) visible_nil _

theorem Timestamp.visible_text (t : Timestamp) : Visible t.text := by
  have hyear : Visible (yearText t.date.year) := by
    unfold yearText
    split
    · simp
    · split <;> simp
  have hfraction : Visible (fractionText t.time.nanosecond) := by
    unfold fractionText
    repeat' split
    all_goals simp
  have hoffset : Visible (offsetText t.offset) := by
    unfold offsetText
    split <;> simp
  simp [text, localText, hyear, hfraction, hoffset]

theorem Uuid.visible_hexDigit (d : Fin 16) : 0x20 ≤ (hexDigit d).toNat := by
  revert d
  decide

theorem Uuid.subset_of_mem_groups : ∀ {sizes : List Nat} {s piece : Text},
    piece ∈ groups sizes s → piece ⊆ s
  | [], _, _, h => by cases h
  | n :: sizes, s, piece, h => by
    rcases List.mem_cons.mp h with rfl | h
    · exact List.take_subset n s
    · exact List.Subset.trans (subset_of_mem_groups h) (List.drop_subset n s)

/-- The digits of an identifier and the hyphens between are visible. -/
theorem Uuid.notMem_text (u : Uuid) {x : Char} (hx : x.toNat < 0x20) : x ∉ u.text := by
  have hdigits : Visible (u.digits.map hexDigit) :=
    List.forall_mem_map.mpr fun d _ => visible_hexDigit d
  have hhyphen : Visible ['-'] := by decide
  exact notMem_intercalate (hhyphen.notMem hx) fun piece hpiece =>
    (hdigits.of_subset (subset_of_mem_groups hpiece)).notMem hx

/-! ## 3. Values -/

/-- The strings among the literals: one or none. -/
def Scalar.strings : Scalar → List Text
  | .string s => [s]
  | _ => []

/-- The strings of a value. -/
def Value.strings : Value → List Text
  | .scalar s => s.strings
  | .list items => items.flatMap Scalar.strings

/-- The strings of a condition. -/
def Condition.strings (c : Condition) : List Text := c.value.toList.flatMap Value.strings

mutual

/-- The strings among the values of an entry. -/
def Node.strings : Node → List Text
  | .raw _ => []
  | .condition c => c.strings
  | .group _ entries => nodesStrings entries

/-- The strings among the values of entries. -/
def nodesStrings : List Node → List Text
  | [] => []
  | n :: more => n.strings ++ nodesStrings more

end

/-- The strings among the values of a filter. -/
def Filter.strings (f : Filter) : List Text := nodesStrings f.entries

/-- The texts and strings of entries are those of the first one and those of the others. -/
theorem forall_mem_nodes_cons {P : Text → Prop} {n : Node} {more : List Node} :
    (∀ t ∈ nodesTexts (n :: more) ++ nodesStrings (n :: more), P t) ↔
      (∀ t ∈ n.texts ++ n.strings, P t) ∧ ∀ t ∈ nodesTexts more ++ nodesStrings more, P t := by
  simp only [nodesTexts, nodesStrings, List.forall_mem_append]
  exact and_and_and_comm

/-- Those of a group are its operator and those of its entries. -/
theorem forall_mem_group {P : Text → Prop} {op : Operator} {entries : List Node} :
    (∀ t ∈ (Node.group op entries).texts ++ (Node.group op entries).strings, P t) ↔
      P op.text ∧ ∀ t ∈ nodesTexts entries ++ nodesStrings entries, P t := by
  rw [Node.texts, Node.strings, List.cons_append, List.forall_mem_cons]

variable {x : Char}

theorem Scalar.notMem_quoted (hx : x.toNat < 0x20) {s : Text} (h : x ∉ s) : x ∉ quoted s := by
  have hquote : x ≠ '\'' := ne_of_control hx (by decide)
  simp [quoted, h, hquote]

/-- A control character in a literal that is shown stands in a string. -/
theorem Scalar.notMem_text (hx : x.toNat < 0x20) {s : Scalar} (h : ∀ t ∈ s.strings, x ∉ t) :
    x ∉ s.text := by
  cases s with
  | null => exact Visible.notMem (by decide) hx
  | bool b => cases b <;> exact Visible.notMem (by decide) hx
  | int n => exact (visible_signedDecimal n).notMem hx
  | float v => exact v.visible_plain.notMem hx
  | timestamp t => exact notMem_quoted hx (t.visible_text.notMem hx)
  | uuid u => exact notMem_quoted hx (u.notMem_text hx)
  | string s => exact notMem_quoted hx (h s List.mem_cons_self)

/-- A control character in a value that is shown stands in one of its strings. -/
theorem Value.notMem_text (hx : x.toNat < 0x20) {v : Value} (h : ∀ t ∈ v.strings, x ∉ t) :
    x ∉ v.text := by
  cases v with
  | scalar s => exact Scalar.notMem_text hx h
  | list items =>
    have hopen : x ≠ '[' := ne_of_control hx (by decide)
    have hclose : x ≠ ']' := ne_of_control hx (by decide)
    have hsep : Visible [',', ' '] := by decide
    have hitems : ∀ t ∈ items.map Scalar.text, x ∉ t :=
      List.forall_mem_map.mpr fun s hs =>
        Scalar.notMem_text hx fun t ht => h t (List.mem_flatMap.mpr ⟨s, hs, ht⟩)
    simp [text, hopen, hclose, notMem_intercalate (hsep.notMem hx) hitems]

/-- So it does in the value that is shown for a condition. -/
theorem Condition.notMem_value (hx : x.toNat < 0x20) {c : Condition}
    (h : ∀ t ∈ c.strings, x ∉ t) : x ∉ (c.value.getD (.scalar .null)).text := by
  refine Value.notMem_text hx fun t ht => ?_
  cases hv : c.value with
  | none => simp [hv, Value.strings, Scalar.strings] at ht
  | some v => exact h t (by simpa [Condition.strings, hv] using ht)

theorem Scalar.visible_typeName (s : Scalar) : Visible s.typeName := by
  unfold typeName
  split <;> decide

theorem Value.visible_typeName (v : Value) : Visible v.typeName := by
  cases v with
  | scalar s => exact s.visible_typeName
  | list => exact (by decide : Visible "list".toList)

/-! ## 4. Clauses -/

/-- A control character in the clause of a condition stands in its column or its operator. -/
theorem Condition.notMem_clause (hx : x.toNat < 0x20) {c : Condition} (hcolumn : x ∉ c.column)
    (hop : x ∉ c.operator.text) : x ∉ c.clause := by
  have hequal : Visible Operator.equal.text := by decide
  have hwritten : x ∉ c.written.text := notMem_orElse hop (hequal.notMem hx)
  have hnull : Visible " NULL".toList := by decide
  have hmark : Visible " (?)".toList := by decide
  have hspace : x ≠ ' ' := ne_of_control hx (by decide)
  unfold clause
  split
  · simp [hcolumn, hspace, hwritten, -String.reduceToList, hnull.notMem hx]
  · simp [hcolumn, hspace, hwritten, -String.reduceToList, hmark.notMem hx]

theorem notMem_joinClauses (hx : x.toNat < 0x20) {op : Operator} (hop : x ∉ op.text)
    {clauses : List Text} (h : ∀ s ∈ clauses, x ∉ s) : x ∉ joinClauses op clauses := by
  have hand : Visible Operator.and.text := by decide
  have hspace : x ≠ ' ' := ne_of_control hx (by decide)
  have hwritten : x ∉ (op.orElse .and).text := notMem_orElse hop (hand.notMem hx)
  exact notMem_intercalate (by simp [hspace, hwritten]) h

mutual

theorem Node.notMem_clause (hx : x.toNat < 0x20) : ∀ n : Node, (∀ t ∈ n.texts, x ∉ t) →
    ∀ s ∈ n.clause?, x ∉ s
  | .raw fragment, h, s, hs => by
    obtain rfl : fragment = s := by simpa [Node.clause?] using hs
    exact h fragment (by simp [Node.texts])
  | .condition c, h, s, hs => by
    obtain rfl : c.clause = s := by simpa [Node.clause?] using hs
    exact Condition.notMem_clause hx (h _ (by simp [Node.texts])) (h _ (by simp [Node.texts]))
  | .group _ [], _, s, hs => by simp [Node.clause?] at hs
  | .group op (n :: more), h, s, hs => by
    have hentries := notMem_nodeClauses hx (n :: more) fun t ht => h t (by simp [Node.texts, ht])
    have hjoin := notMem_joinClauses hx (h op.text (by simp [Node.texts])) hentries
    have hopen : x ≠ '(' := ne_of_control hx (by decide)
    have hclose : x ≠ ')' := ne_of_control hx (by decide)
    obtain rfl := Option.some.inj hs
    simp [hopen, hclose, hjoin]

theorem notMem_nodeClauses (hx : x.toNat < 0x20) : ∀ entries : List Node,
    (∀ t ∈ nodesTexts entries, x ∉ t) → ∀ s ∈ nodeClauses entries, x ∉ s
  | [], _, s, hs => by simp [nodeClauses] at hs
  | n :: more, h, s, hs => by
    rw [nodesTexts, List.forall_mem_append] at h
    rw [nodeClauses, List.mem_append, Option.mem_toList] at hs
    rcases hs with hs | hs
    · exact Node.notMem_clause hx n h.1 s hs
    · exact notMem_nodeClauses hx more h.2 s hs

end

/-- **A control character in a clause** stands in a column, an operator or a fragment. -/
theorem Filter.notMem_clause (hx : x.toNat < 0x20) {f : Filter} (h : ∀ t ∈ f.texts, x ∉ t) :
    x ∉ f.clause := by
  obtain ⟨hop, hentries⟩ := List.forall_mem_cons.mp h
  exact notMem_joinClauses hx hop (notMem_nodeClauses hx f.entries hentries)

mutual

theorem Node.strings_of_mem_arguments : ∀ {n : Node} {v : Value}, v ∈ n.arguments →
    v.strings ⊆ n.strings
  | .raw _, _, h => by simp [Node.arguments] at h
  | .condition c, v, h => by
    rw [Node.arguments, Condition.arguments] at h
    split at h
    · cases h
    · obtain rfl := List.mem_singleton.mp h
      rw [Node.strings, Condition.strings]
      cases c.value <;> simp [Value.strings, Scalar.strings]
  | .group _ entries, _, h => strings_of_mem_nodeArguments h

theorem strings_of_mem_nodeArguments : ∀ {entries : List Node} {v : Value},
    v ∈ nodeArguments entries → v.strings ⊆ nodesStrings entries
  | [], _, h => by simp [nodeArguments] at h
  | n :: more, v, h => by
    rw [nodeArguments, List.mem_append] at h
    rw [nodesStrings]
    rcases h with h | h
    · exact List.Subset.trans (Node.strings_of_mem_arguments h) (List.subset_append_left _ _)
    · exact List.Subset.trans (strings_of_mem_nodeArguments h) (List.subset_append_right _ _)

end

/-- The strings that are bound are strings of the filter. -/
theorem Filter.strings_of_mem_arguments {f : Filter} {v : Value} (h : v ∈ f.arguments) :
    v.strings ⊆ f.strings :=
  strings_of_mem_nodeArguments h

end Sieve
