/-
# Blanks between the literals of a list

A list is recovered by running the words of the input together and cutting the result at the
commas.  With a blank behind every comma that gives the literals back.  Without blanks a bare
word does not end at a quote, so a quoted literal behind a comma is part of it, and is cut at
its first blank or parenthesis: `a IN 1,'b c'` is the list of `1` and `bc`.

* `splitList_intercalate`, `intercalate_splitList`: cutting at commas and joining with commas;
* `IsItem`: literals, quoted or bare;
* `Tight`: no literal but the first holds a blank or a parenthesis;
* `tokens_spaced`, `tokens_unspaced`: the words of a list with and without blanks;
* `read_operation`: a column, an operator and what the operator takes, read as their leaf;
* `read_list_spacing`: the list with blanks is read as its literals; the one without blanks is
  read alike if it is tight, and otherwise never has these literals.
-/
import Sieve.Proofs.Front
import Sieve.Proofs.Provenance

namespace Sieve

/-! ## 1. Cutting at commas -/

/-- A text in front of the first piece. -/
theorem foldr_pushFront (u piece : Text) (more : List Text) :
    u.foldr pushFront (piece :: more) = (u ++ piece) :: more := by
  induction u with
  | nil => rfl
  | cons c u ih => rw [List.foldr_cons, ih]; rfl

theorem pushFront_ne_nil (c : Char) (ps : List Text) : pushFront c ps ≠ [] := by
  cases ps <;> simp [pushFront]

theorem splitListFrom_ne_nil (quote : Option Char) (s : Text) : splitListFrom quote s ≠ [] := by
  fun_cases splitListFrom quote s <;> simp [pushFront_ne_nil]

/-- **Nothing is lost**: the pieces, with commas between, are the text. -/
theorem intercalate_splitListFrom (quote : Option Char) (s : Text) :
    [','].intercalate (splitListFrom quote s) = s := by
  have hpush : ∀ (c : Char) {ps : List Text}, ps ≠ [] →
      [','].intercalate (pushFront c ps) = c :: [','].intercalate ps := by
    intro c ps hps
    match ps with
    | [] => exact absurd rfl hps
    | [p] => simp [pushFront, List.intercalate]
    | p :: q :: more => simp [pushFront, List.intercalate]
  fun_induction splitListFrom quote s with
  | case1 => simp [List.intercalate]
  | case2 r ih =>
    obtain ⟨p, more, hp⟩ := List.exists_cons_of_ne_nil (splitListFrom_ne_nil none r)
    rw [hp] at ih ⊢
    rw [← ih]
    simp [List.intercalate]
  | case3 c r hc ih => rw [hpush c (splitListFrom_ne_nil _ r), ih]
  | case4 => simp [List.intercalate]
  | case5 q d r ih =>
    rw [hpush _ (pushFront_ne_nil d _), hpush d (splitListFrom_ne_nil _ r), ih]
  | case6 q c r _ _ ih => rw [hpush c (splitListFrom_ne_nil _ r), ih]

theorem intercalate_splitList (s : Text) : [','].intercalate (splitList s) = s :=
  intercalate_splitListFrom none s

/-- Inside quotes nothing is cut, up to the quote that closes them. -/
theorem splitListFrom_quoted {q : Char} {s : Text} {n : Nat}
    (h : Quoted.closing? (fun _ => true) q s = some n) :
    splitListFrom (some q) s = (s.take n).foldr pushFront (splitListFrom none (s.drop n)) := by
  fun_induction Quoted.closing? (fun _ => true) q s generalizing n with
  | case1 => cases h
  | case2 c hc =>
    obtain ⟨hb, rfl⟩ := hc
    obtain rfl : 1 = n := by simpa using h
    simp [splitListFrom, hb]
  | case3 => cases h
  | case4 d r hd ih =>
    obtain ⟨m, hm, rfl⟩ := Option.map_eq_some_iff.mp h
    rw [splitListFrom, ih hm]
    rfl
  | case5 d r hd => simp at hd
  | case6 d r hb =>
    obtain rfl : 1 = n := by simpa using h
    simp [splitListFrom, hb]
  | case7 c d r hb hq ih =>
    obtain ⟨m, hm, rfl⟩ := Option.map_eq_some_iff.mp h
    rw [splitListFrom, if_neg hq, ih hm]
    · rfl
    · simp [hb]
    · simp [hb]

/-! ## 2. Literals -/

/-- A literal of a list: a closed quoted string, or a word without blanks, parentheses, commas
and quotes that the lexer reads as a word. -/
inductive IsItem (i : Text) : Prop
  | quoted (h : quotedLength? i = some i.length)
  | bare (h : IsWord i) (hchars : ∀ c ∈ i, c ≠ ',' ∧ isQuote c = false ∧ endsBareWord c = false)

namespace IsItem

variable {i : Text}

/-- A literal in front is not cut. -/
theorem splitList_append (h : IsItem i) (r : Text) :
    splitList (i ++ r) = i.foldr pushFront (splitList r) := by
  cases h with
  | quoted h =>
    rw [quotedLength?_eq] at h
    obtain ⟨q, s, m, rfl, hq, hm, hlength⟩ := Quoted.length?_spec h
    obtain rfl : s.length = m := by simpa using hlength
    have hcomma : q ≠ ',' := ne_of_isQuote hq (by decide)
    rw [splitList, List.cons_append, splitListFrom, if_neg hcomma, if_pos hq,
      splitListFrom_quoted (Quoted.closing?_append hm r), List.take_left, List.drop_left]
    rfl
  | bare hword hchars =>
    clear hword
    induction i with
    | nil => rfl
    | cons c i ih =>
      obtain ⟨hcomma, hquote, -⟩ := hchars c List.mem_cons_self
      have hrest := ih fun d hd => hchars d (List.mem_cons_of_mem c hd)
      rw [splitList] at hrest
      rw [splitList, List.cons_append, splitListFrom, if_neg hcomma, hquote, if_neg (by simp),
        hrest]
      rfl

theorem isClosedWord (h : IsItem i) : IsClosedWord i := by
  cases h with
  | quoted h => exact .of_quoted h
  | bare h hchars => exact .of_bare h fun c hc => (hchars c (List.mem_of_mem_head? hc)).2.1

end IsItem

/-- **Literals with commas between are cut into the literals.** -/
theorem splitList_intercalate : ∀ {items : List Text}, items ≠ [] → (∀ i ∈ items, IsItem i) →
    splitList ([','].intercalate items) = items
  | [], hne, _ => absurd rfl hne
  | [i], _, h => by
    have hcut := (h i List.mem_cons_self).splitList_append []
    rw [List.append_nil] at hcut
    rw [List.intercalate_singleton, hcut]
    exact (foldr_pushFront i [] []).trans (by rw [List.append_nil])
  | i :: j :: more, _, h => by
    have hrest := @splitList_intercalate (j :: more) (by simp)
      fun k hk => h k (List.mem_cons_of_mem i hk)
    rw [List.intercalate_cons_cons, List.append_assoc, (h i List.mem_cons_self).splitList_append]
    change i.foldr pushFront ([] :: splitList ([','].intercalate (j :: more))) = _
    rw [hrest, foldr_pushFront, List.append_nil]

/-! ## 3. The words of a text -/

/-- A word has the characters that are read for it. -/
theorem Token.length_of_scan {s w : Text} (h : (Token.scan s).1.word? = some w) :
    w.length = (Token.scan s).2 := by
  cases hscan : Token.scan s with
  | mk t n =>
    rw [hscan] at h
    cases t with
    | word u =>
      obtain rfl : u = w := Option.some.inj h
      exact (Token.take_of_scan hscan).1.symm
    | and | or | compare | membership | nullTest | openParen | closeParen => cases h

namespace Text

/-- The words of a text. -/
def words (s : Text) : List Text := s.tokens.filterMap Token.word?

/-- The words are not longer than the text. -/
theorem length_words_le {n : Nat} : ∀ {s : Text}, s.length ≤ n →
    s.words.flatten.length ≤ s.length := by
  induction n with
  | zero =>
    intro s hs
    obtain rfl := List.length_eq_zero_iff.mp (Nat.le_zero.mp hs)
    simp [words]
  | succ n ih =>
    intro s hs
    have htrimmed := trimStart_length_le s
    rw [words, tokens_eq]
    cases htrim : trimStart s with
    | nil => simp
    | cons c r =>
      have hpos := Token.scan_length_pos (r := r) (not_isBlank_of_trimStart htrim)
      have hle := Token.scan_length_le (c :: r)
      rw [htrim] at htrimmed
      have hrest := @ih ((c :: r).drop (Token.scan (c :: r)).2) (by rw [List.length_drop]; omega)
      rw [words, List.length_drop] at hrest
      simp only [List.filterMap_cons]
      cases hword : (Token.scan (c :: r)).1.word? with
      | none =>
        simp only
        omega
      | some w =>
        have hlength := Token.length_of_scan hword
        simp only [List.flatten_cons, List.length_append]
        omega

/-- A blank or a parenthesis belongs to no word that begins with it. -/
theorem length_words_cons_le {c : Char} (hc : endsBareWord c = true) (s : Text) :
    (words (c :: s)).flatten.length ≤ s.length := by
  have hparen : ∀ {c : Char} {t : Token}, Leads [c] t s → t.word? = none →
      words (c :: s) = words s := by
    intro c t hlead ht
    have htokens := hlead.tokens
    rw [List.singleton_append] at htokens
    rw [words, htokens, List.filterMap_cons_none ht, words]
  have hwords : words (c :: s) = words s := by
    simp only [endsBareWord, Bool.or_eq_true, beq_iff_eq] at hc
    rcases hc with (hc | rfl) | rfl
    · rw [words, tokens_blank hc, words]
    · exact hparen (leads_openParen s) rfl
    · exact hparen (leads_closeParen s) rfl
  rw [hwords]
  exact length_words_le (Nat.le_refl _)

end Text

/-- The word that a text begins with is the one that is read off its front. -/
theorem tokenAt_zero_iff {u r : Text} : TokenAt (u ++ r) 0 (.word u) ↔ Leads u (.word u) r := by
  rw [tokenAt_iff]
  constructor
  · rintro ⟨n, hlex⟩
    have hscan := hlex.scan
    rw [List.drop_zero] at hscan
    obtain ⟨rfl, -⟩ := Token.take_of_scan hscan
    obtain ⟨c, hc, hb⟩ := hlex.exists_char
    have hpos := hlex.pos
    cases u with
    | nil => exact absurd hpos (Nat.lt_irrefl 0)
    | cons d u =>
      obtain rfl : d = c := by simpa using hc
      exact ⟨⟨d, u, rfl, hb⟩, hscan⟩
  · rintro ⟨⟨c, w, rfl, hc⟩, hscan⟩
    have hstart : nextStart (c :: w ++ r) 0 = 0 := by simp [nextStart, Text.gap, hc]
    exact ⟨_, ⟨0, .start, hstart.symm⟩, by simp, hscan⟩

/-! ## 4. The words of a list -/

/-- A bare word with a comma runs to the next blank or parenthesis. -/
theorem leads_comma {u w r : Text} (hu : ∀ c ∈ u, endsBareWord c = false)
    (hquote : ∀ c ∈ u.head?, isQuote c = false) (hsymbol : symbol? u = none)
    (hread : Keyword.read? (u ++ ',' :: (w ++ r)) = none) (hw : ∀ c ∈ w, endsBareWord c = false)
    (hr : ∀ c ∈ r.head?, endsBareWord c = true) :
    Leads (u ++ ',' :: w) (.word (u ++ ',' :: w)) r := by
  have hassoc : u ++ ',' :: w ++ r = u ++ ',' :: (w ++ r) := by simp
  refine leads_bare (by simp) ?_ hr ?_ ?_ (by rwa [hassoc])
  · intro c hc
    rcases List.mem_append.mp hc with hc | hc
    · exact hu c hc
    · rcases List.mem_cons.mp hc with rfl | hc
      · rfl
      · exact hw c hc
  · intro c hc
    cases u with
    | nil =>
      cases hc
      rfl
    | cons d u => exact hquote c hc
  · rw [hassoc, symbol?_append _ (by rintro c ⟨⟩; exact Or.inr rfl), hsymbol]

/-- A word in front of a comma is no keyword. -/
theorem IsWord.read?_comma {u : Text} (h : IsWord u) (hquote : ∀ c ∈ u.head?, isQuote c = false)
    (r : Text) : Keyword.read? (u ++ ',' :: r) = none := by
  by_cases hfree : ∀ c ∈ u, isQuote c = false
  · exact Keyword.read?_comma
      (fun c hc => endsWord_eq_false (h.endsBareWord_eq_false hquote c hc) (hfree c hc)) r
  · exact h.read?_append hquote (Or.inl (by simpa using hfree))

/-- A literal and the comma behind it come as one word or as two, with all that follows up to
the next blank or parenthesis. -/
theorem IsClosedWord.tokens_comma {i : Text} (h : IsClosedWord i) {w r : Text}
    (hw : ∀ c ∈ w, endsBareWord c = false) (hr : ∀ c ∈ r.head?, endsBareWord c = true) :
    ∃ first more, (first :: more).flatten = i ++ ',' :: w ∧
      (i ++ ',' :: (w ++ r)).tokens = (first :: more).map .word ++ r.tokens := by
  rcases h.quoted_or_bare with hq | hquote
  · have hcomma : Leads ([] ++ ',' :: w) (.word ([] ++ ',' :: w)) r :=
      leads_comma (by simp) (by simp) rfl (Keyword.read?_comma (by simp) _) hw hr
    refine ⟨i, [',' :: w], by simp, ?_⟩
    rw [(leads_quoted hq _).tokens, ← List.cons_append]
    exact congrArg _ hcomma.tokens
  · have hcomma : Leads (i ++ ',' :: w) (.word (i ++ ',' :: w)) r :=
      leads_comma (h.isWord.endsBareWord_eq_false hquote) hquote (Token.scan_word h.isWord.scan).1
        (h.isWord.read?_comma hquote _) hw hr
    refine ⟨i ++ ',' :: w, [], by simp, ?_⟩
    have hassoc : i ++ ',' :: (w ++ r) = i ++ ',' :: w ++ r := by simp
    rw [hassoc, hcomma.tokens]
    rfl

/-- With a blank behind every comma, the words of a list run together to the list without
blanks, also where a parenthesis is closed behind the list. -/
theorem tokens_spaced_append {r : Text} (hr : ∀ c ∈ r.head?, c = ')') : ∀ {items : List Text},
    items ≠ [] → (∀ i ∈ items, IsClosedWord i) →
    ∃ first more, (first :: more).flatten = [','].intercalate items ∧
      Text.tokens ([',', ' '].intercalate items ++ r) = (first :: more).map .word ++ r.tokens
  | [], hne, _ => absurd rfl hne
  | [i], _, h => by
    have hone := ((h i List.mem_cons_self).leads_end hr).tokens
    refine ⟨i, [], by simp, ?_⟩
    simpa using hone
  | i :: j :: more, _, h => by
    obtain ⟨first, rest, hflat, hrest⟩ := @tokens_spaced_append r hr (j :: more) (by simp)
      fun k hk => h k (List.mem_cons_of_mem i hk)
    obtain ⟨front, behind, hfront, hcomma⟩ := (h i List.mem_cons_self).tokens_comma
      (w := []) (r := ' ' :: ([',', ' '].intercalate (j :: more) ++ r)) (by simp)
      (by rintro c ⟨⟩; rfl)
    refine ⟨front, behind ++ first :: rest, ?_, ?_⟩
    · rw [← List.cons_append, List.flatten_append, hfront, hflat, List.intercalate_cons_cons,
        List.append_assoc]
    · have hassoc : [',', ' '].intercalate (i :: j :: more) ++ r =
          i ++ ',' :: ' ' :: ([',', ' '].intercalate (j :: more) ++ r) := by
        rw [List.intercalate_cons_cons]
        simp
      rw [List.nil_append, Text.tokens_space, hrest] at hcomma
      rw [hassoc, hcomma, ← List.cons_append, List.map_append, List.append_assoc]

theorem tokens_spaced {items : List Text} (hne : items ≠ []) (h : ∀ i ∈ items, IsItem i) :
    ∃ first more, (first :: more).flatten = [','].intercalate items ∧
      Text.tokens ([',', ' '].intercalate items) = (first :: more).map .word := by
  simpa using tokens_spaced_append (r := []) (by simp) hne fun i hi => (h i hi).isClosedWord

/-- No literal but the first holds a blank or a parenthesis. -/
def Tight (items : List Text) : Prop := ∀ i ∈ items.tail, ∀ c ∈ i, endsBareWord c = false

instance (items : List Text) : Decidable (Tight items) :=
  decidable_of_iff (items.tail.all fun i => i.all fun c => !endsBareWord c) (by simp [Tight])

theorem forall_mem_intercalate {p : Char → Prop} (hcomma : p ',') : ∀ {items : List Text},
    (∀ c ∈ [','].intercalate items, p c) ↔ ∀ i ∈ items, ∀ c ∈ i, p c
  | [] => by simp
  | [i] => by simp
  | i :: j :: more => by
    have hrest := @forall_mem_intercalate p hcomma (j :: more)
    rw [List.intercalate_cons_cons, List.append_assoc, List.forall_mem_append,
      List.forall_mem_append, hrest]
    simp [hcomma]

/-- Without blanks, the words of a list run together to its part in front of the first blank or
parenthesis that stands in a literal behind the first one, which is all of it if the list is
tight. -/
theorem tokens_unspaced {items : List Text} (hne : items ≠ []) (h : ∀ i ∈ items, IsItem i) :
    ∃ first more, ∃ rest : Text, (first :: more).flatten ++ rest = [','].intercalate items ∧
      Text.tokens ([','].intercalate items) = (first :: more).map .word ++ rest.tokens ∧
      (∀ c ∈ rest.head?, endsBareWord c = true) ∧ (rest = [] ↔ Tight items) := by
  match items with
  | [i] =>
    have hone := (h i List.mem_cons_self).isClosedWord.isWord.leads.tokens
    refine ⟨i, [], [], by simp, ?_, by simp, by simp [Tight]⟩
    simpa using hone
  | i :: j :: more =>
    obtain ⟨w, rest, hcut, hw, hrest⟩ := exists_run endsBareWord ([','].intercalate (j :: more))
    obtain ⟨first, behind, hflat, htokens⟩ :=
      (h i List.mem_cons_self).isClosedWord.tokens_comma hw hrest
    have hjoin : [','].intercalate (i :: j :: more) = i ++ ',' :: (w ++ rest) := by
      rw [List.intercalate_cons_cons, hcut]
      simp
    refine ⟨first, behind, rest, ?_, ?_, hrest, ?_⟩
    · rw [hflat, hjoin, List.append_assoc, List.cons_append]
    · rw [hjoin, htokens]
    · rw [Tight, List.tail_cons, ← forall_mem_intercalate (p := (endsBareWord · = false)) rfl,
        hcut, List.forall_mem_append, and_iff_right hw]
      cases rest with
      | nil => simp
      | cons c rest => simp [hrest c rfl]

/-! ## 5. Reading lists -/

/-- A membership test with a list of literals, written with a separator between them. -/
def listText (column : Text) (op : Operator) (sep : Text) (items : List Text) : Text :=
  column ++ ' ' :: op.text ++ ' ' :: sep.intercalate items

/-- The literals of a text that is a column and a list: the words behind the first one, run
together and cut at the commas. -/
def Text.listItems (s : Text) : List Text := splitList s.words.tail.flatten

section

variable {column body : Text} {t : Token}

/-- Behind a column and an operator, the tokens are those of what follows. -/
theorem tokens_operation (ht : t.precedence ≠ none) (hk : t.Known)
    (hcolumn : Leads column (.word column) (' ' :: (t.text ++ ' ' :: body))) :
    (column ++ ' ' :: t.text ++ ' ' :: body).tokens = .word column :: t :: body.tokens := by
  have hlead : Leads t.text t (' ' :: body) := leads_operator ht hk rfl
  have htext : column ++ ' ' :: t.text ++ ' ' :: body =
      column ++ (' ' :: (t.text ++ (' ' :: body))) := by simp
  rw [htext, hcolumn.tokens, Text.tokens_space, hlead.tokens, Text.tokens_space]

theorem prepare_operation (hcolumn : Leads column (.word column) (' ' :: (t.text ++ ' ' :: body)))
    (hbody : ∃ u c, body = u ++ [c] ∧ isBlank c = false) :
    Filter.prepare ⟨false⟩ (column ++ ' ' :: t.text ++ ' ' :: body) =
      column ++ ' ' :: t.text ++ ' ' :: body := by
  obtain ⟨c, w, hcons, hc⟩ := hcolumn.starts
  obtain ⟨u, d, rfl, hd⟩ := hbody
  refine Text.trim_eq_self ?_ ?_
  · rw [hcons]
    simpa using hc
  · simpa [List.getLast?_append, List.getLast?_cons] using hd

/-- A column, an operator and what the operator takes, up to parentheses around words, are read
as their leaf. -/
theorem read_operation (ht : t.precedence ≠ none) (hk : t.Known)
    (hcolumn : Leads column (.word column) (' ' :: (t.text ++ ' ' :: body)))
    (hbody : ∃ u c, body = u ++ [c] ∧ isBlank c = false) {l : Leaf} (hl : l.isFragment = false)
    (htokens : Unbracketed (.word column :: t :: body.tokens) l.tokens) :
    Filter.read ⟨false⟩ (column ++ ' ' :: t.text ++ ' ' :: body) = .ok (Expr.leaf l).filter := by
  have hprepare := prepare_operation hcolumn hbody
  obtain ⟨c, w, hcons, -⟩ := hcolumn.starts
  refine Filter.read_of_writing (w := .leaf l) ?_ ?_ htokens trivial ?_
  · rw [hprepare, hcons]
    simp
  · rw [hprepare]
    exact tokens_operation ht hk hcolumn
  · simpa [Writing.expr, Expr.Plain, Expr.leaves] using hl

/-- A list whose tokens are words, up to parentheses around them, is read as the literals that
come of these words. -/
theorem read_membership {op : Operator} (hop : op ∈ memberships)
    (hcolumn : Leads column (.word column) (' ' :: (op.text ++ ' ' :: body)))
    (hbody : ∃ u c, body = u ++ [c] ∧ isBlank c = false) {first : Text} {more : List Text}
    (hwords : Unbracketed body.tokens ((first :: more).map .word)) :
    Filter.read ⟨false⟩ (column ++ ' ' :: op.text ++ ' ' :: body) = .ok (.leaf (.condition
      ⟨column, op, some (.list ((splitList (first :: more).flatten).map cast))⟩)) :=
  read_operation (t := .membership op) (l := .membership column op first more)
    (by simp [Token.precedence]) hop hcolumn hbody rfl (.keep _ (.keep _ hwords))

end

section

variable {column sep : Text} {op : Operator} {items : List Text}

theorem tokenAt_listText_iff : TokenAt (listText column op sep items) 0 (.word column) ↔
    Leads column (.word column) (' ' :: (op.text ++ ' ' :: sep.intercalate items)) := by
  have htext : listText column op sep items =
      column ++ (' ' :: (op.text ++ ' ' :: sep.intercalate items)) := by simp [listText]
  rw [htext, tokenAt_zero_iff]

/-- A list begins with its column if that has no quotes, or is one quoted string. -/
theorem tokenAt_listText (hop : op ∈ memberships)
    (h : IsColumn column ∨ quotedLength? column = some column.length) :
    TokenAt (listText column op sep items) 0 (.word column) := by
  rw [tokenAt_listText_iff]
  rcases h with h | h
  · exact h.leads (t := .membership op) (by simp [Token.precedence]) hop _
  · exact leads_quoted h _

theorem tokens_listText (hop : op ∈ memberships)
    (hcolumn : TokenAt (listText column op sep items) 0 (.word column)) :
    (listText column op sep items).tokens =
      .word column :: .membership op :: Text.tokens (sep.intercalate items) :=
  tokens_operation (t := .membership op) (by simp [Token.precedence]) hop
    (tokenAt_listText_iff.mp hcolumn)

/-- Where no piece ends with a blank, the pieces with anything between do not. -/
theorem intercalate_ends (sep : Text) (hne : items ≠ [])
    (hitems : ∀ i ∈ items, ∃ u c, i = u ++ [c] ∧ isBlank c = false) :
    ∃ u c, sep.intercalate items = u ++ [c] ∧ isBlank c = false := by
  induction items with
  | nil => exact absurd rfl hne
  | cons i more ih =>
    cases more with
    | nil =>
      obtain ⟨u, c, hi, hc⟩ := hitems i List.mem_cons_self
      exact ⟨u, c, by simpa using hi, hc⟩
    | cons j more =>
      obtain ⟨u, c, hrest, hc⟩ := ih (by simp) fun k hk => hitems k (List.mem_cons_of_mem i hk)
      refine ⟨i ++ (sep ++ u), c, ?_, hc⟩
      rw [List.intercalate_cons_cons, hrest]
      simp

theorem prepare_listText (hne : items ≠ []) (hitems : ∀ i ∈ items, IsItem i)
    (hcolumn : TokenAt (listText column op sep items) 0 (.word column)) :
    Filter.prepare ⟨false⟩ (listText column op sep items) = listText column op sep items :=
  prepare_operation (t := .membership op) (tokenAt_listText_iff.mp hcolumn)
    (intercalate_ends sep hne fun i hi => (hitems i hi).isClosedWord.ends)

theorem read_listText (hop : op ∈ memberships) (hne : items ≠ []) (hitems : ∀ i ∈ items, IsItem i)
    (hcolumn : TokenAt (listText column op sep items) 0 (.word column)) {first : Text}
    {more : List Text} (hwords : Text.tokens (sep.intercalate items) = (first :: more).map .word) :
    Filter.read ⟨false⟩ (listText column op sep items) = .ok (.leaf (.condition
      ⟨column, op, some (.list ((splitList (first :: more).flatten).map cast))⟩)) :=
  read_membership hop (tokenAt_listText_iff.mp hcolumn)
    (intercalate_ends sep hne fun i hi => (hitems i hi).isClosedWord.ends) (hwords ▸ .refl _)

end

/-- **The values of a list are those of its literals**, whatever the text looks like. -/
theorem values_of_read {options : ReadOptions} {s column : Text} {op : Operator}
    {values : List Scalar}
    (h : Filter.read options s = .ok (.leaf (.condition ⟨column, op, some (.list values)⟩))) :
    values = (Filter.prepare options s).listItems.map cast := by
  obtain ⟨-, hbuild⟩ := Filter.ofTokens_eq_ok_iff.mp (Filter.ofTokens_of_read h rfl)
  obtain ⟨e, ⟨hfilter, -⟩, hwords, -⟩ := Filter.exists_expr_of_build hbuild
  rw [reorder_words] at hwords
  have hall : e.words = (Filter.prepare options s).words := by
    rw [hwords, Text.words, Text.tokens, List.filterMap_map]
    rfl
  cases e with
  | join c left right =>
    have hop : Operator.empty = c.operator := congrArg Filter.operator hfilter
    cases c <;> cases hop
  | leaf l =>
    cases l with
    | comparison | nullTest | fragment => cases hfilter
    | membership column' op' first more =>
      cases hfilter
      rw [Text.listItems, ← hall]
      simp [Expr.words, Expr.leaves, Leaf.words]

/-! ## 6. Both spacings -/

/-- **Blanks between literals.**  With a blank behind every comma, a list is read as its
literals.  Without blanks it is read alike if it is tight.  If it is not, then what comes
behind the column is cut into other literals, and any list that is read has their values. -/
theorem read_list_spacing {column : Text} {op : Operator} {items : List Text}
    (hop : op ∈ memberships) (hne : items ≠ []) (hitems : ∀ i ∈ items, IsItem i)
    (hspaced : TokenAt (listText column op [',', ' '] items) 0 (.word column))
    (hunspaced : TokenAt (listText column op [','] items) 0 (.word column)) :
    Filter.read ⟨false⟩ (listText column op [',', ' '] items) =
        .ok (.leaf (.condition ⟨column, op, some (.list (items.map cast))⟩)) ∧
      (Tight items → Filter.read ⟨false⟩ (listText column op [','] items) =
        Filter.read ⟨false⟩ (listText column op [',', ' '] items)) ∧
      (¬ Tight items → (listText column op [','] items).listItems ≠ items ∧
        ∀ column' op' values, Filter.read ⟨false⟩ (listText column op [','] items) =
            .ok (.leaf (.condition ⟨column', op', some (.list values)⟩)) →
          values = (listText column op [','] items).listItems.map cast) := by
  obtain ⟨first, more, hflat, hwords⟩ := tokens_spaced hne hitems
  have hread := read_listText hop hne hitems hspaced hwords
  rw [hflat, splitList_intercalate hne hitems] at hread
  obtain ⟨first', more', rest, hall, htokens, hends, htight⟩ := tokens_unspaced hne hitems
  refine ⟨hread, fun ht => ?_, fun ht => ⟨fun heq => ?_, fun column' op' values h => ?_⟩⟩
  · obtain rfl := htight.mpr ht
    rw [List.append_nil] at hall
    rw [Text.tokens_nil, List.append_nil] at htokens
    rw [hread, read_listText hop hne hitems hunspaced htokens, hall,
      splitList_intercalate hne hitems]
  · -- the first blank or parenthesis of `rest` is in no word
    obtain ⟨c, r, rfl⟩ := List.exists_cons_of_ne_nil (mt htight.mp ht)
    have hshort := Text.length_words_cons_le (hends c rfl) r
    have hlist : (listText column op [','] items).words.tail =
        (first' :: more') ++ Text.words (c :: r) := by
      have hkeep : ((first' :: more').map Token.word).filterMap Token.word? = first' :: more' := by
        rw [List.filterMap_map]
        exact List.filterMap_some
      rw [Text.words, tokens_listText hop hunspaced, htokens]
      change List.filterMap Token.word? ((first' :: more').map .word ++ Text.tokens (c :: r)) = _
      rw [List.filterMap_append, hkeep]
      rfl
    have hjoin := congrArg List.length (congrArg ([','].intercalate) heq)
    rw [Text.listItems, intercalate_splitList, hlist, ← hall, List.flatten_append,
      List.length_append, List.length_append, List.length_cons] at hjoin
    omega
  · rw [values_of_read h, prepare_listText hne hitems hunspaced]

/-- In `a NOT IN '(b c)',2,"d"` the blank and the parentheses are in the first literal. -/
theorem read_list_spacing_tight :
    let items : List Text := ["'(b c)'".toList, ['2'], "\"d\"".toList]
    let s := "a NOT IN '(b c)',2,\"d\"".toList
    listText ['a'] .notInList [','] items = s ∧ Filter.read ⟨false⟩ s =
      .ok (.leaf (.condition ⟨['a'], .notInList, some (.list (items.map cast))⟩)) := by
  intro items s
  have hitems : ∀ i ∈ items, IsItem i := by
    simp only [items, List.forall_mem_cons]
    refine ⟨.quoted (by decide), .bare (by decide +kernel) ?_, .quoted (by decide), by simp⟩
    exact List.forall_mem_singleton.mpr (by decide)
  have hop : Operator.notInList ∈ memberships := by decide
  have ha : IsColumn ['a'] := ⟨by decide +kernel, List.forall_mem_singleton.mpr rfl, by decide⟩
  have h := read_list_spacing hop (by simp [items]) hitems (tokenAt_listText hop (Or.inl ha))
    (tokenAt_listText hop (Or.inl ha))
  exact ⟨rfl, (h.2.1 (by decide)).trans h.1⟩

/-- In `a IN 1,'b c'` they are in the second, and the list is read as `1` and `bc`. -/
theorem read_list_spacing_loose :
    let items : List Text := [['1'], "'b c'".toList]
    (∀ i ∈ items, IsItem i) ∧
      Filter.read ⟨false⟩ (listText ['a'] .inList [',', ' '] items) =
        .ok (.leaf (.condition ⟨['a'], .inList, some (.list [.int 1, .string "b c".toList])⟩)) ∧
      Filter.read ⟨false⟩ (listText ['a'] .inList [','] items) =
        .ok (.leaf (.condition ⟨['a'], .inList, some (.list [.int 1, .string "bc".toList])⟩)) ∧
      Filter.read ⟨false⟩ (listText ['a'] .inList [','] items) ≠
        Filter.read ⟨false⟩ (listText ['a'] .inList [',', ' '] items) := by
  intro items
  have hspaced : tokenize (Filter.prepare ⟨false⟩ (listText ['a'] .inList [',', ' '] items)) =
      [⟨.word ['a'], 0⟩, ⟨.membership .inList, 2⟩, ⟨.word "1,".toList, 5⟩,
        ⟨.word "'b c'".toList, 8⟩] := by decide +kernel
  have hunspaced : tokenize (Filter.prepare ⟨false⟩ (listText ['a'] .inList [','] items)) =
      [⟨.word ['a'], 0⟩, ⟨.membership .inList, 2⟩, ⟨.word "1,'b".toList, 5⟩,
        ⟨.word "c'".toList, 10⟩] := by decide +kernel
  have hcast : (splitList "1,'b c'".toList).map cast = [.int 1, .string "b c".toList] ∧
      (splitList "1,'bc'".toList).map cast = [.int 1, .string "bc".toList] := by decide +kernel
  have hread : Filter.read ⟨false⟩ (listText ['a'] .inList [',', ' '] items) =
      .ok (.leaf (.condition ⟨['a'], .inList, some (.list [.int 1, .string "b c".toList])⟩)) := by
    rw [← hcast.1]
    exact Filter.read_of_ofTokens (by decide +kernel) hspaced rfl
  have hread' : Filter.read ⟨false⟩ (listText ['a'] .inList [','] items) =
      .ok (.leaf (.condition ⟨['a'], .inList, some (.list [.int 1, .string "bc".toList])⟩)) := by
    rw [← hcast.2]
    exact Filter.read_of_ofTokens (by decide +kernel) hunspaced rfl
  refine ⟨?_, hread, hread', ?_⟩
  · simp only [items, List.forall_mem_cons]
    refine ⟨.bare (by decide +kernel) ?_, .quoted (by decide), by simp⟩
    exact List.forall_mem_singleton.mpr (by decide)
  · rw [hread, hread']
    simp [Filter.leaf]

end Sieve
