/-
# Colours never change the text

A coloured report is the plain one with escape sequences in it, nothing more: without them it is
the plain report, line breaks and fillers included.  The two come from one definition with a
switch, but a style goes around a piece that was padded, cut or joined before, so this is a
property of every report, carried from its pieces to the whole.

Nothing is assumed about the texts in a report but that they have no escape character: with one
of their own, deleting escape sequences would delete a part of them too.

* `Style.strip`: a text without its escape sequences;
* `Tinted`: a text shows another one in colours, whatever stands behind it;
* `Report.strip_report`: the reports on filters, clauses, tokens, sort keys and criteria.
-/
import Sieve.Proofs.Characters
import Sieve.Report.Clause
import Sieve.Report.Tokens
import Mathlib.Data.List.Forall2

namespace Sieve

/-! ## 1. Deleting escape sequences -/

namespace Style

/-- The length of the escape sequence that starts the text: the escape character, a bracket,
digits and an `m`. -/
def sequenceLength? : Text → Option Nat
  | '\x1b' :: '[' :: r =>
    let digits := r.takeWhile Char.isDigit
    if digits ≠ [] ∧ (r.drop digits.length).head? = some 'm' then some (digits.length + 3)
    else none
  | _ => none

/-- The text without its escape sequences. -/
def strip : Text → Text
  | [] => []
  | c :: r =>
    match sequenceLength? (c :: r) with
    | some n => strip (r.drop (n - 1))
    | none => c :: strip r
  termination_by s => s.length
  decreasing_by all_goals simp only [List.length_drop, List.length_cons]; omega

theorem strip_cons {c : Char} (h : c ≠ '\x1b') (r : Text) : strip (c :: r) = c :: strip r := by
  have hnone : sequenceLength? (c :: r) = none := by simp [sequenceLength?, h]
  rw [strip, hnone]

theorem strip_escape {numbers : Text} (hne : numbers ≠ []) (hdigits : numbers.all Char.isDigit)
    (r : Text) : strip (escape numbers ++ r) = strip r := by
  have hrun : (numbers ++ 'm' :: r).takeWhile Char.isDigit = numbers := by
    rw [List.takeWhile_append_of_pos (List.all_eq_true.mp hdigits)]
    simp
  have hlength : sequenceLength? (escape numbers ++ r) = some (numbers.length + 3) := by
    simp [escape, sequenceLength?, hrun, hne]
  have hcons : escape numbers ++ r = '\x1b' :: ('[' :: numbers ++ 'm' :: r) := by simp [escape]
  rw [hcons] at hlength ⊢
  rw [strip, hlength]
  simp

end Style

open Style (strip)

/-! ## 2. Tinted texts -/

/-- Without its escape sequences `s` is `p`, also in front of other text. -/
def Tinted (s p : Text) : Prop := ∀ r, strip (s ++ r) = p ++ strip r

namespace Tinted

variable {s p s' p' : Text} {ls ps ls' ps' : List Text}

theorem strip_eq (h : Tinted s p) : strip s = p := by simpa [strip] using h []

theorem append (h : Tinted s p) (h' : Tinted s' p') : Tinted (s ++ s') (p ++ p') := by
  intro r
  rw [List.append_assoc, h, h', List.append_assoc]

theorem cons {c : Char} (hc : c ≠ '\x1b') (h : Tinted s p) : Tinted (c :: s) (c :: p) := by
  intro r
  rw [List.cons_append, Style.strip_cons hc, h, List.cons_append]

/-- Two texts with a character between. -/
theorem join {c : Char} (h : Tinted s p) (h' : Tinted s' p') (hc : c ≠ '\x1b') :
    Tinted (s ++ c :: s') (p ++ c :: p') :=
  h.append (h'.cons hc)

/-- A text without escape characters is as it is. -/
theorem refl (h : '\x1b' ∉ s) : Tinted s s := by
  induction s with
  | nil => exact fun _ => rfl
  | cons c s ih =>
    obtain ⟨hc, hs⟩ : '\x1b' ≠ c ∧ '\x1b' ∉ s := by simpa using h
    exact (ih hs).cons (Ne.symm hc)

theorem of_visible (h : s.Visible) : Tinted s s := refl (h.notMem (by decide))

/-- A style around a text goes. -/
theorem paint (style : Style) (h : Tinted s p) : Tinted (style.paint true s) p := by
  intro r
  have hopening (t : Text) : strip (style.opening ++ t) = strip t := by
    cases style <;> exact Style.strip_escape (by decide) (by decide) t
  have hclosing (t : Text) : strip (style.closing ++ t) = strip t := by
    cases style <;> exact Style.strip_escape (by decide) (by decide) t
  rw [Style.paint, if_pos rfl, List.append_assoc, List.append_assoc, hopening, h, hclosing]

theorem unlines (h : List.Forall₂ Tinted ls ps) : Tinted (Text.unlines ls) (Text.unlines ps) := by
  induction h with
  | nil => exact refl (by decide)
  | cons hl _ ih =>
    rw [Text.unlines_cons, Text.unlines_cons]
    exact hl.append (ih.cons (by decide))

/-- Numbered lines, one for each entry of a list. -/
theorem numbered {α : Type} : ∀ {entries : List α} {f g : Nat → α → Text},
    (∀ i, ∀ a ∈ entries, Tinted (f i a) (g i a)) →
    List.Forall₂ Tinted (entries.mapIdx f) (entries.mapIdx g)
  | [], _, _, _ => by simp
  | a :: more, f, g, h => by
    rw [List.mapIdx_cons, List.mapIdx_cons]
    exact .cons (h 0 a List.mem_cons_self)
      (numbered fun i b hb => h (i + 1) b (List.mem_cons_of_mem a hb))

end Tinted

namespace Report

/-! ## 3. Trees -/

theorem tinted_conditionLabel {c : Condition} (hcolumn : '\x1b' ∉ c.column)
    (hop : '\x1b' ∉ c.operator.text) (hstrings : ∀ t ∈ c.strings, '\x1b' ∉ t) :
    Tinted (conditionLabel true c) (conditionLabel false c) := by
  have hvalue := Condition.notMem_value (by decide) hstrings
  have hleft := ((Tinted.refl hcolumn).paint .cyan).join ((Tinted.refl hop).paint .yellow)
    (show ' ' ≠ '\x1b' by decide)
  exact hleft.join ((Tinted.refl hvalue).paint .green) (by decide)

theorem tinted_groupLabel {op : Operator} (h : '\x1b' ∉ op.text) :
    Tinted (groupLabel true op) (groupLabel false op) := by
  unfold groupLabel
  split
  · exact .refl (by decide)
  · exact (Tinted.refl h).paint .bold

theorem tinted_rawLabel {fragment : Text} (h : '\x1b' ∉ fragment) :
    Tinted (rawLabel true fragment) (rawLabel false fragment) := by
  have hlabel : Tinted (Style.dimmed.paint true "raw:".toList) "raw:".toList :=
    (Tinted.refl (by decide)).paint .dimmed
  exact hlabel.join (.refl h) (by decide)

theorem tinted_hang {first below : Text} (hfirst : '\x1b' ∉ first) (hbelow : '\x1b' ∉ below)
    {ls ps : List Text} (h : List.Forall₂ Tinted ls ps) :
    List.Forall₂ Tinted (hang first below ls) (hang first below ps) := by
  cases h with
  | nil => exact .nil
  | cons hl hrest =>
    refine .cons ((Tinted.refl hfirst).append hl) ?_
    rw [List.forall₂_map_left_iff, List.forall₂_map_right_iff]
    exact hrest.imp fun _ _ => (Tinted.refl hbelow).append

mutual

theorem tinted_nodeLines : ∀ n : Node, (∀ t ∈ n.texts ++ n.strings, '\x1b' ∉ t) →
    List.Forall₂ Tinted (nodeLines true n) (nodeLines false n)
  | .raw fragment, h => .cons (tinted_rawLabel (h fragment (by simp [Node.texts]))) .nil
  | .condition c, h => by
    obtain ⟨htexts, hstrings⟩ := List.forall_mem_append.mp h
    have hcolumn := htexts c.column (by simp [Node.texts])
    have hop := htexts c.operator.text (by simp [Node.texts])
    exact .cons (tinted_conditionLabel hcolumn hop hstrings) .nil
  | .group op entries, h => by
    obtain ⟨hop, hentries⟩ := forall_mem_group.mp h
    exact .cons (tinted_groupLabel hop) (tinted_entryLines entries hentries)

/-- **Every line of a tree**, however deep its entry hangs. -/
theorem tinted_entryLines : ∀ entries : List Node,
    (∀ t ∈ nodesTexts entries ++ nodesStrings entries, '\x1b' ∉ t) →
    List.Forall₂ Tinted (entryLines true entries) (entryLines false entries)
  | [], _ => .nil
  | [n], h =>
    tinted_hang (by decide) (by decide) (tinted_nodeLines n (forall_mem_nodes_cons.mp h).1)
  | n :: m :: more, h => by
    obtain ⟨hn, hmore⟩ := forall_mem_nodes_cons.mp h
    exact List.rel_append (tinted_hang (by decide) (by decide) (tinted_nodeLines n hn))
      (tinted_entryLines (m :: more) hmore)

end

theorem tinted_flatMap_nodeLines : ∀ entries : List Node,
    (∀ t ∈ nodesTexts entries ++ nodesStrings entries, '\x1b' ∉ t) →
    List.Forall₂ Tinted (entries.flatMap (nodeLines true)) (entries.flatMap (nodeLines false))
  | [], _ => .nil
  | n :: more, h => by
    obtain ⟨hn, hmore⟩ := forall_mem_nodes_cons.mp h
    rw [List.flatMap_cons, List.flatMap_cons]
    exact List.rel_append (tinted_nodeLines n hn) (tinted_flatMap_nodeLines more hmore)

theorem tinted_filterTree {f : Filter} (h : ∀ t ∈ f.texts ++ f.strings, '\x1b' ∉ t) :
    Tinted (filterTree true f) (filterTree false f) := by
  obtain ⟨hop, hentries⟩ := forall_mem_group.mp h
  unfold filterTree filterLines
  split
  · exact .refl (by decide +kernel)
  split
  · exact .unlines (tinted_flatMap_nodeLines f.entries hentries)
  · exact .unlines (.cons (tinted_groupLabel hop) (tinted_entryLines f.entries hentries))

/-! ## 4. Clauses -/

theorem tinted_heading {s : Text} (h : '\x1b' ∉ s) : Tinted (Style.bold.paint true s) s :=
  (Tinted.refl h).paint .bold

theorem notMem_orNone {s : Text} (h : '\x1b' ∉ s) : '\x1b' ∉ orNone s := by
  unfold orNone
  split
  · decide
  · exact h

theorem tinted_argumentLine {v : Value} (h : ∀ t ∈ v.strings, '\x1b' ∉ t) (i : Nat) :
    Tinted (argumentLine true v i) (argumentLine false v i) := by
  have hnumber : Tinted ("  ".toList ++ Text.decimal (i + 1) ++ ": ".toList) _ :=
    .of_visible (by simp)
  have hvalue : Tinted (Style.green.paint true v.text) v.text :=
    (Tinted.refl (v.notMem_text (by decide) h)).paint .green
  have hopen : Tinted " (".toList _ := .refl (by decide)
  have hclose : Tinted ")".toList _ := .refl (by decide)
  exact (((hnumber.append hvalue).append hopen).append (.of_visible v.visible_typeName)).append
    hclose

theorem tinted_argumentList {args : List Value} (h : ∀ v ∈ args, ∀ t ∈ v.strings, '\x1b' ∉ t) :
    Tinted (argumentList true args) (argumentList false args) := by
  refine (tinted_heading (by decide)).append ?_
  split
  · exact .refl (by decide)
  · exact (Tinted.unlines (Tinted.numbered fun i v hv => tinted_argumentLine (h v hv) i)).cons
      (by decide)

theorem tinted_clauseText {clause : Text} {args : List Value} (hclause : '\x1b' ∉ clause)
    (h : ∀ v ∈ args, ∀ t ∈ v.strings, '\x1b' ∉ t) :
    Tinted (clauseText true clause args) (clauseText false clause args) := by
  have hline : Tinted (Style.bold.paint true "WHERE:".toList ++ ' ' :: orNone clause) _ :=
    (tinted_heading (by decide)).join (.refl (notMem_orNone hclause)) (by decide)
  exact hline.join (tinted_argumentList h) (by decide)

/-! ## 5. Tokens -/

theorem notMem_fill {s : Text} (width : Nat) (h : '\x1b' ∉ s) : '\x1b' ∉ Text.fill width s := by
  simp [Text.fill, h]

theorem notMem_tokenRow {position kind text : Text} (hposition : '\x1b' ∉ position)
    (hkind : '\x1b' ∉ kind) (htext : '\x1b' ∉ text) : '\x1b' ∉ tokenRow position kind text := by
  simp [tokenRow, notMem_fill 5 hposition, notMem_fill 11 hkind, htext]

theorem notMem_tokenLine {t : Placed} (h : '\x1b' ∉ t.token.text) : '\x1b' ∉ tokenLine t := by
  have hkind : Text.Visible t.token.kind := by
    unfold Token.kind
    split <;> decide
  exact notMem_tokenRow ((Text.visible_decimal _).notMem (by decide)) (hkind.notMem (by decide)) h

theorem tinted_tokenTable {input : Text} {tokens : List Placed} {p : Postfix}
    (hinput : '\x1b' ∉ input) (htokens : ∀ t ∈ tokens, '\x1b' ∉ t.token.text)
    (hreordered : ∀ t ∈ p.tokens, '\x1b' ∉ t.token.text)
    (herrors : ∀ e ∈ p.errors, '\x1b' ∉ e.message) :
    Tinted (tokenTable true input tokens p) (tokenTable false input tokens p) := by
  have hinput : Tinted (Style.bold.paint true "Input:".toList ++ ' ' :: input ++ "\n\n".toList) _ :=
    ((tinted_heading (by decide)).join (.refl hinput) (by decide)).append (.refl (by decide))
  refine hinput.append ?_
  split
  · exact .refl (by decide)
  have hheader : Tinted
      (Style.dimmed.paint true (tokenRow "Pos".toList "Kind".toList "Token".toList)) _ :=
    (Tinted.refl (by decide)).paint .dimmed
  have hrows : List.Forall₂ Tinted (tokens.map tokenLine) (tokens.map tokenLine) :=
    List.forall₂_same.mpr (List.forall_mem_map.mpr fun t ht =>
      .refl (notMem_tokenLine (htokens t ht)))
  have htitle : Tinted (Style.bold.paint true "Postfix:".toList) _ := tinted_heading (by decide)
  have horder : '\x1b' ∉ [' '].intercalate (p.tokens.map fun t => t.token.text) :=
    Text.notMem_intercalate (by decide) (List.forall_mem_map.mpr hreordered)
  have hwarnings : List.Forall₂ Tinted
      (p.errors.map fun e => Style.yellow.paint true ("warning: ".toList ++ e.message))
      (p.errors.map fun e => Style.yellow.paint false ("warning: ".toList ++ e.message)) := by
    rw [List.forall₂_map_left_iff, List.forall₂_map_right_iff]
    exact List.forall₂_same.mpr fun e he =>
      ((Tinted.refl (by decide)).append (.refl (herrors e he))).paint .yellow
  exact (((Tinted.unlines (.cons hheader hrows)).join htitle (by decide)).join (.refl horder)
    (by decide)).join (.unlines hwarnings) (by decide)

/-! ## 6. Sort keys -/

theorem tinted_sortLine {k : SortKey} (h : '\x1b' ∉ k.column) (i : Nat) :
    Tinted (sortLine true k i) (sortLine false k i) := by
  have hnumber : Tinted (Text.decimal (i + 1) ++ ". ".toList) _ := .of_visible (by simp)
  have hdirection : Tinted (directionText true k.direction) (directionText false k.direction) := by
    cases k.direction with
    | ascending => exact (Tinted.refl (by decide)).paint .green
    | descending => exact (Tinted.refl (by decide)).paint .magenta
  exact (hnumber.append ((Tinted.refl h).paint .cyan)).join hdirection (by decide)

theorem tinted_sortTable {s : SortBy} (h : ∀ k ∈ s.keys, '\x1b' ∉ k.column) :
    Tinted (sortTable true s) (sortTable false s) := by
  unfold sortTable
  split
  · exact .refl (by decide)
  · exact .unlines (Tinted.numbered fun i k hk => tinted_sortLine (h k hk) i)

theorem notMem_sortText {s : SortBy} (h : ∀ k ∈ s.keys, '\x1b' ∉ k.column) : '\x1b' ∉ s.text := by
  refine Text.notMem_intercalate (by decide) (List.forall_mem_map.mpr fun k hk => ?_)
  have hdirection : '\x1b' ∉ k.direction.text := by cases k.direction <;> decide
  simp [SortKey.text, h k hk, hdirection]

/-! ## 7. Criteria -/

theorem tinted_labelled {label value : Text} (hlabel : '\x1b' ∉ label) (hvalue : '\x1b' ∉ value) :
    Tinted (labelled true label value) (labelled false label value) :=
  (tinted_heading (notMem_fill 9 hlabel)).join (.refl hvalue) (by decide)

theorem tinted_criteriaSections {c : Criteria} {clause : Text} {args : List Value} (fallback : Nat)
    (hfilter : Tinted (filterTree true c.filter) (filterTree false c.filter))
    (hsort : ∀ k ∈ c.sortBy.keys, '\x1b' ∉ k.column) (hclause : '\x1b' ∉ clause)
    (hargs : ∀ v ∈ args, ∀ t ∈ v.strings, '\x1b' ∉ t) :
    Tinted (criteriaSections true c clause args fallback)
      (criteriaSections false c clause args fallback) := by
  have htitle : Tinted (Style.bold.paint true "Filter:".toList) _ := tinted_heading (by decide)
  have hnumber : ∀ n : Nat, '\x1b' ∉ Text.decimal n :=
    fun n => (Text.visible_decimal n).notMem (by decide)
  have hrows : List.Forall₂ Tinted
      [labelled true "WHERE:".toList (orNone clause),
        labelled true "ORDER BY:".toList (orNone c.sortBy.text),
        labelled true "OFFSET:".toList (Text.decimal c.offset),
        labelled true "LIMIT:".toList (Text.decimal (c.size fallback))] _ :=
    .cons (tinted_labelled (by decide) (notMem_orNone hclause)) <|
      .cons (tinted_labelled (by decide) (notMem_orNone (notMem_sortText hsort))) <|
        .cons (tinted_labelled (by decide) (hnumber _)) <|
          .cons (tinted_labelled (by decide) (hnumber _)) .nil
  exact ((htitle.join hfilter (by decide)).join (.unlines hrows) (by decide)).append
    (tinted_argumentList hargs)

/-! ## 8. All reports -/

/-- What a report is about.  Criteria are reported with the clause of their filter, or with any
clause and values. -/
inductive Subject where
  | filter (f : Filter)
  | clause (written : Text) (args : List Value)
  | tokens (input : Text) (tokens : List Placed) (p : Postfix)
  | sort (s : SortBy)
  | criteria (c : Criteria) (fallback : Nat)
  | criteriaWith (c : Criteria) (written : Text) (args : List Value) (fallback : Nat)

namespace Subject

/-- The texts of criteria. -/
def criteriaTexts (c : Criteria) : List Text :=
  c.filter.texts ++ c.filter.strings ++ c.sortBy.keys.map SortKey.column

/-- The texts that a report quotes. -/
def texts : Subject → List Text
  | filter f => f.texts ++ f.strings
  | clause written args => written :: args.flatMap Value.strings
  | tokens input ts p =>
    input :: (ts ++ p.tokens).map (fun t => t.token.text) ++ p.errors.map FilterError.message
  | sort s => s.keys.map SortKey.column
  | criteria c _ => criteriaTexts c
  | criteriaWith c written args _ => criteriaTexts c ++ written :: args.flatMap Value.strings

/-- The report. -/
def report (colours : Bool) : Subject → Text
  | filter f => filterTree colours f
  | clause written args => clauseText colours written args
  | tokens input ts p => tokenTable colours input ts p
  | sort s => sortTable colours s
  | criteria c fallback => criteriaText colours c fallback
  | criteriaWith c written args fallback => criteriaSections colours c written args fallback

end Subject

theorem tinted_criteriaText {c : Criteria} (fallback : Nat)
    (h : ∀ t ∈ Subject.criteriaTexts c, '\x1b' ∉ t) :
    Tinted (criteriaText true c fallback) (criteriaText false c fallback) := by
  obtain ⟨hfilter, hsort⟩ := List.forall_mem_append.mp h
  obtain ⟨htexts, hstrings⟩ := List.forall_mem_append.mp hfilter
  rw [List.forall_mem_map] at hsort
  exact tinted_criteriaSections fallback (tinted_filterTree hfilter) hsort
    (Filter.notMem_clause (by decide) htexts)
    fun v hv t ht => hstrings t (Filter.strings_of_mem_arguments hv ht)

/-- **Colours never change the text.**  If no text that it quotes has an escape character, a
coloured report without its escape sequences is the plain report. -/
theorem strip_report (s : Subject) (h : ∀ t ∈ s.texts, '\x1b' ∉ t) :
    strip (s.report true) = s.report false := by
  refine Tinted.strip_eq ?_
  cases s with
  | filter f => exact tinted_filterTree h
  | clause written args =>
    simp only [Subject.texts, List.forall_mem_cons, List.forall_mem_flatMap] at h
    exact tinted_clauseText h.1 h.2
  | tokens input ts p =>
    simp only [Subject.texts, List.map_append, List.cons_append, List.forall_mem_cons,
      List.forall_mem_append, List.forall_mem_map] at h
    obtain ⟨hinput, ⟨htokens, hreordered⟩, herrors⟩ := h
    exact tinted_tokenTable hinput htokens hreordered herrors
  | sort s =>
    simp only [Subject.texts, List.forall_mem_map] at h
    exact tinted_sortTable h
  | criteria c fallback => exact tinted_criteriaText fallback h
  | criteriaWith c written args fallback =>
    obtain ⟨hcriteria, hwritten⟩ := List.forall_mem_append.mp h
    obtain ⟨hfilter, hsort⟩ := List.forall_mem_append.mp hcriteria
    rw [List.forall_mem_map] at hsort
    rw [List.forall_mem_cons, List.forall_mem_flatMap] at hwritten
    exact tinted_criteriaSections fallback (tinted_filterTree hfilter) hsort hwritten.1 hwritten.2

/-- A column and a string that look like sequences, but for the escape character, stay. -/
theorem strip_report_criteria :
    let column := "[1m".toList
    let f : Filter := ⟨.or, [.raw "x=1".toList, .group .empty [.condition
      ⟨column, .equal, some (.list [.int 2, .string "[0m".toList])⟩]]⟩
    let s : Subject := .criteria (.new f ⟨[⟨column, .descending⟩]⟩) 20
    (∀ t ∈ s.texts, '\x1b' ∉ t) ∧ s.report true ≠ s.report false ∧
      strip (s.report true) = Text.unlines ["Filter:".toList, "OR".toList, "├── raw: x=1".toList,
        "└── (group)".toList, "    └── [1m = [2, '[0m']".toList, [],
        "WHERE:    x=1 OR ([1m = (?))".toList, "ORDER BY: [1m DESC".toList, "OFFSET:   0".toList,
        "LIMIT:    20".toList, "Args:".toList, "  1: [2, '[0m'] (list)".toList] := by
  intro column f s
  have h : ∀ t ∈ s.texts, '\x1b' ∉ t := by decide
  exact ⟨h, by decide +kernel, (strip_report s h).trans (by decide +kernel)⟩

end Report

end Sieve
