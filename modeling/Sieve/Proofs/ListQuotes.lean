/-
# Quotes inside the words of a list

A quote inside a word is plain text to the lexer, and `a = O'Brien` compares with `O'Brien`.  The
cut of a list at its commas knows no words: a quote opens a span wherever it stands, and the
commas in the span do not cut.  So `a IN x'y'z, D'Arcy` is the list of `x'y'z` and `D'Arcy`,
while `a IN O'Brien, D'Arcy` is a list of one value.

* `Quoting`, `Quoting.behind`: how the cut goes through a text, one character at a time;
* `splitListFrom_eq_cutFrom`: it is the cut of the lists;
* `cutFrom_join`, `length_cutFrom_join`: words with commas between are cut apart if the quotes of
  each but the last are closed, and into fewer pieces otherwise;
* `read_quotes_in_list`: so the list has a value for each word, or fewer.
-/
import Sieve.Proofs.ListItems

namespace Sieve

/-! ## 1. The cut, one character at a time -/

/-- How a place of a text stands to the quotes in front of it: outside, in a span that the quote
has opened, or in it behind a backslash. -/
inductive Quoting where
  | outside
  | inside (quote : Char)
  | escaped (quote : Char)
  deriving DecidableEq, Repr

namespace Quoting

/-- One character on. -/
def next : Quoting → Char → Quoting
  | outside, c => if isQuote c then inside c else outside
  | inside q, c => if c = '\\' then escaped q else if c = q then outside else inside q
  | escaped q, _ => inside q

/-- How the end of a text stands to the quotes in it. -/
def behind (s : Text) : Quoting := s.foldl next outside

end Quoting

/-- Cuts at the commas outside quotes, one character at a time. -/
def cutFrom : Quoting → Text → List Text
  | _, [] => [[]]
  | k, c :: r =>
    if k = .outside ∧ c = ',' then [] :: cutFrom .outside r else pushFront c (cutFrom (k.next c) r)

/-- **The cut of a list** goes through it one character at a time. -/
theorem splitListFrom_eq_cutFrom (quote : Option Char) (s : Text) :
    splitListFrom quote s = cutFrom (quote.elim .outside .inside) s := by
  fun_induction splitListFrom quote s with
  | case1 => rfl
  | case2 r ih => simpa [cutFrom] using ih
  | case3 c r hc ih =>
    have hnext : Quoting.next .outside c =
        (if isQuote c then some c else none).elim .outside .inside := by
      cases hq : isQuote c <;> simp [Quoting.next, hq]
    rw [ih, ← hnext]
    simp [cutFrom, hc]
  | case4 => simp [cutFrom, pushFront]
  | case5 q d r ih => simp [cutFrom, Quoting.next, ih]
  | case6 q c r hslash hmore ih =>
    have hc : c ≠ '\\' := by
      rintro rfl
      cases r with
      | nil => exact hslash rfl rfl
      | cons d r => exact hmore d r rfl rfl
    have hnext : Quoting.next (.inside q) c =
        (if c = q then none else some q).elim .outside .inside := by
      by_cases hq : c = q
      · rw [Quoting.next, if_neg hc, if_pos hq, if_pos hq, Option.elim_none]
      · rw [Quoting.next, if_neg hc, if_neg hq, if_neg hq, Option.elim_some]
    rw [ih, ← hnext]
    simp [cutFrom]

theorem cutFrom_ne_nil (k : Quoting) (s : Text) : cutFrom k s ≠ [] := by
  fun_cases cutFrom k s <;> simp [pushFront_ne_nil]

/-! ## 2. Words with commas between -/

theorem length_pushFront (c : Char) {ps : List Text} (h : ps ≠ []) :
    (pushFront c ps).length = ps.length := by
  obtain ⟨p, ps, rfl⟩ := List.exists_cons_of_ne_nil h
  rfl

/-- What stands in front of the first piece makes no pieces. -/
theorem length_foldr_pushFront (u : Text) {ps : List Text} (h : ps ≠ []) :
    (u.foldr pushFront ps).length = ps.length := by
  obtain ⟨p, ps, rfl⟩ := List.exists_cons_of_ne_nil h
  rw [foldr_pushFront]
  rfl

/-- A text without commas is not cut. -/
theorem cutFrom_append {u : Text} (hu : ',' ∉ u) (k : Quoting) (r : Text) :
    cutFrom k (u ++ r) = u.foldr pushFront (cutFrom (u.foldl Quoting.next k) r) := by
  induction u generalizing k with
  | nil => rfl
  | cons c u ih =>
    obtain ⟨hc, hu⟩ := not_or.mp (mt List.mem_cons.mpr hu)
    rw [List.cons_append, cutFrom, if_neg fun h => hc h.2.symm, ih hu]
    rfl

/-- There are no more cuts than commas. -/
theorem length_cutFrom_le (k : Quoting) (s : Text) : (cutFrom k s).length ≤ s.count ',' + 1 := by
  fun_induction cutFrom k s with
  | case1 => simp
  | case2 k c r hc ih => simpa [hc.2] using ih
  | case3 k c r hc ih =>
    rw [length_pushFront c (cutFrom_ne_nil _ r)]
    have hle : r.count ',' ≤ (c :: r).count ',' := (List.sublist_cons_self c r).count_le ','
    omega

theorem count_join : ∀ {words : List Text}, (∀ w ∈ words, ',' ∉ w) →
    ([','].intercalate words).count ',' = words.length - 1
  | [], _ => rfl
  | [w], h => by simpa using List.count_eq_zero.mpr (h w List.mem_cons_self)
  | w :: v :: more, h => by
    have hrest := @count_join (v :: more) fun u hu => h u (List.mem_cons_of_mem w hu)
    have hzero := List.count_eq_zero.mpr (h w List.mem_cons_self)
    rw [List.intercalate_cons_cons, List.append_assoc, List.count_append, hzero,
      List.singleton_append, List.count_cons_self, hrest]
    simp

/-- The quotes of every word but the last are closed. -/
def QuotesClosed (words : List Text) : Prop := ∀ w ∈ words.dropLast, Quoting.behind w = .outside

instance (words : List Text) : Decidable (QuotesClosed words) :=
  inferInstanceAs (Decidable (∀ _ ∈ _, _))

/-- The first word and the comma behind it. -/
theorem cutFrom_join_cons {w : Text} (hw : ',' ∉ w) (v : Text) (more : List Text) :
    cutFrom .outside ([','].intercalate (w :: v :: more)) =
      w.foldr pushFront (cutFrom (Quoting.behind w) (',' :: [','].intercalate (v :: more))) := by
  rw [List.intercalate_cons_cons, List.append_assoc, cutFrom_append hw]
  rfl

/-- **Words whose quotes are closed are cut apart.** -/
theorem cutFrom_join : ∀ {words : List Text}, words ≠ [] → (∀ w ∈ words, ',' ∉ w) →
    QuotesClosed words → cutFrom .outside ([','].intercalate words) = words
  | [], hne, _, _ => absurd rfl hne
  | [w], _, h, _ => by
    have hcut := cutFrom_append (h w List.mem_cons_self) .outside []
    rw [List.append_nil, cutFrom, foldr_pushFront, List.append_nil] at hcut
    simpa using hcut
  | w :: v :: more, _, h, hclosed => by
    have hrest := @cutFrom_join (v :: more) (by simp) (fun u hu => h u (List.mem_cons_of_mem w hu))
      fun u hu => hclosed u (List.mem_cons_of_mem w hu)
    rw [cutFrom_join_cons (h w List.mem_cons_self), hclosed w List.mem_cons_self, cutFrom,
      if_pos ⟨rfl, rfl⟩, hrest, foldr_pushFront, List.append_nil]

/-- **Otherwise there are fewer pieces than words.** -/
theorem length_cutFrom_join : ∀ {words : List Text}, (∀ w ∈ words, ',' ∉ w) →
    ¬ QuotesClosed words → (cutFrom .outside ([','].intercalate words)).length < words.length
  | [], _, hopen => absurd (by simp [QuotesClosed]) hopen
  | [w], _, hopen => absurd (by simp [QuotesClosed]) hopen
  | w :: v :: more, h, hopen => by
    have hmore : ∀ u ∈ v :: more, ',' ∉ u := fun u hu => h u (List.mem_cons_of_mem w hu)
    rw [cutFrom_join_cons (h w List.mem_cons_self), length_foldr_pushFront w (cutFrom_ne_nil _ _),
      cutFrom]
    by_cases hw : Quoting.behind w = .outside
    · have hrest := length_cutFrom_join hmore fun hclosed => hopen ?_
      · rw [if_pos ⟨hw, rfl⟩]
        simpa using hrest
      · exact List.forall_mem_cons.mpr ⟨hw, hclosed⟩
    · -- the comma behind the word is lost
      have hrest := length_cutFrom_le ((Quoting.behind w).next ',') ([','].intercalate (v :: more))
      rw [count_join hmore] at hrest
      rw [if_neg (fun hk => hw hk.1), length_pushFront _ (cutFrom_ne_nil _ _)]
      simp only [List.length_cons, Nat.add_one_sub_one] at hrest ⊢
      omega

example : cutFrom .outside "O'Brien,D'Arcy,x".toList = ["O'Brien,D'Arcy".toList, ['x']] := by decide

/-! ## 3. Reading words with quotes -/

section

variable {column : Text} {op : Operator}

/-- A comparison with a closed word is read with the value of the word. -/
theorem read_comparison {literal : Text} (hop : op ∈ comparisons) (hliteral : IsClosedWord literal)
    (hcolumn : TokenAt (column ++ ' ' :: op.text ++ ' ' :: literal) 0 (.word column)) :
    Filter.read ⟨false⟩ (column ++ ' ' :: op.text ++ ' ' :: literal) =
      .ok (.leaf (.condition ⟨column, op, some (.scalar (cast literal))⟩)) := by
  have hassoc : column ++ ' ' :: op.text ++ ' ' :: literal =
      column ++ ' ' :: (op.text ++ ' ' :: literal) := by simp
  rw [hassoc, tokenAt_zero_iff] at hcolumn
  have hword : literal.tokens = [.word literal] := by
    simpa using (hliteral.leads_end (r := []) (by simp)).tokens
  refine read_operation (t := .compare op) (l := .comparison column op literal)
    (by simp [Token.precedence]) hop hcolumn hliteral.ends rfl ?_
  rw [hword]
  exact .refl _

/-- **Quotes inside the words of a list.**  Take words without commas that do not start with a
quote.  If the quotes of each but the last are closed, the list of them is read as the values of
the words; otherwise it has fewer values.  Compared with the column, each word is read as its
value, whatever its quotes. -/
theorem read_quotes_in_list {words : List Text} (hop : op ∈ memberships) (hne : words ≠ [])
    (hwords : ∀ w ∈ words, IsWord w ∧ (∀ c ∈ w.head?, isQuote c = false) ∧ ',' ∉ w)
    (hcolumn : TokenAt (listText column op [',', ' '] words) 0 (.word column)) :
    (∃ values, Filter.read ⟨false⟩ (listText column op [',', ' '] words) =
        .ok (.leaf (.condition ⟨column, op, some (.list values)⟩)) ∧
      (QuotesClosed words → values = words.map cast) ∧
      (¬ QuotesClosed words → values.length < words.length)) ∧
    ∀ w ∈ words, TokenAt (column ++ ' ' :: Operator.equal.text ++ ' ' :: w) 0 (.word column) →
      Filter.read ⟨false⟩ (column ++ ' ' :: Operator.equal.text ++ ' ' :: w) =
        .ok (.leaf (.condition ⟨column, .equal, some (.scalar (cast w))⟩)) := by
  have hclosed : ∀ w ∈ words, IsClosedWord w :=
    fun w hw => .of_bare (hwords w hw).1 (hwords w hw).2.1
  have hcommas : ∀ w ∈ words, ',' ∉ w := fun w hw => (hwords w hw).2.2
  refine ⟨?_, fun w hw h => read_comparison (by decide) (hclosed w hw) h⟩
  have hread := read_spaced hop hne hclosed hcolumn
  rw [splitList, splitListFrom_eq_cutFrom] at hread
  refine ⟨_, hread, fun hq => ?_, fun hq => ?_⟩
  · rw [Option.elim_none, cutFrom_join hne hcommas hq]
  · rw [List.length_map]
    exact length_cutFrom_join hcommas hq

end

/-- In `a IN x'y'z, D'Arcy` the quotes of the first word are closed. -/
theorem read_quotes_in_list_closed :
    let words : List Text := ["x'y'z".toList, "D'Arcy".toList]
    let s := "a IN x'y'z, D'Arcy".toList
    listText ['a'] .inList [',', ' '] words = s ∧ QuotesClosed words ∧
      Filter.read ⟨false⟩ s =
        .ok (.leaf (.condition ⟨['a'], .inList, some (.list (words.map cast))⟩)) := by
  intro words s
  have hwords : ∀ w ∈ words, IsWord w ∧ (∀ c ∈ w.head?, isQuote c = false) ∧ ',' ∉ w := by
    simp only [words, List.forall_mem_cons]
    refine ⟨⟨by decide +kernel, ?_, by decide⟩, ⟨by decide +kernel, ?_, by decide⟩, by simp⟩
    · simp [isQuote]
    · simp [isQuote]
  have hcolumn : IsColumn ['a'] :=
    ⟨by decide +kernel, List.forall_mem_singleton.mpr rfl, by decide⟩
  obtain ⟨⟨values, hread, hvalues, -⟩, -⟩ := @read_quotes_in_list ['a'] .inList words
    (by decide) (by simp [words]) hwords (tokenAt_listText (by decide) (Or.inl hcolumn))
  have hq : QuotesClosed words := by decide
  exact ⟨rfl, hq, hvalues hq ▸ hread⟩

/-- In `a IN O'Brien, D'Arcy` they are not: the quotes of both words pair up around the comma,
and the list has one value. -/
theorem read_quotes_in_list_open :
    let words : List Text := ["O'Brien".toList, "D'Arcy".toList]
    let s := "a IN O'Brien, D'Arcy".toList
    (∀ w ∈ words, IsWord w ∧ (∃ c ∈ w.head?, c.isAlphanum = true) ∧
        ∀ c ∈ w, endsBareWord c = false ∧ c ≠ ',' ∧ c ≠ '\\') ∧
      listText ['a'] .inList [',', ' '] words = s ∧
      Filter.read ⟨false⟩ s = .ok (.leaf (.condition
        ⟨['a'], .inList, some (.list [.string "O'Brien,D'Arcy".toList])⟩)) ∧
      Filter.read ⟨false⟩ s ≠
        .ok (.leaf (.condition ⟨['a'], .inList, some (.list (words.map cast))⟩)) := by
  intro words s
  have htokens : tokenize (Filter.prepare ⟨false⟩ s) = [⟨.word ['a'], 0⟩,
      ⟨.membership .inList, 2⟩, ⟨.word "O'Brien,".toList, 5⟩, ⟨.word "D'Arcy".toList, 14⟩] := by
    decide +kernel
  have hcast : (splitList "O'Brien,D'Arcy".toList).map cast = [.string "O'Brien,D'Arcy".toList] := by
    decide +kernel
  have hread : Filter.read ⟨false⟩ s = .ok (.leaf (.condition
      ⟨['a'], .inList, some (.list [.string "O'Brien,D'Arcy".toList])⟩)) := by
    rw [← hcast]
    exact Filter.read_of_ofTokens (by decide +kernel) htokens rfl
  refine ⟨?_, rfl, hread, ?_⟩
  · simp only [words, List.forall_mem_cons]
    refine ⟨⟨by decide +kernel, by simp, ?_⟩, ⟨by decide +kernel, by simp, ?_⟩, by simp⟩
    · simp [endsBareWord, isBlank]
    · simp [endsBareWord, isBlank]
  · rw [hread]
    simp [Filter.leaf, words]

end Sieve
