/-
# Reading off the front

What the lexer reads first depends on little of what follows.  An operator is read wherever a
keyword may end behind it; a bare word, wherever a blank or a parenthesis ends it, unless it is
`IS` or `NOT` and a keyword comes of it.  So the tokens of a text can be read off its front one
by one, with the rest as a variable.

* `comparisons`, `memberships`, `nullTests`, `Token.Known`: the operators the lexer knows;
* `Text.tokens`: the tokens of a text without their places;
* `Leads`: what is read off the front of a text;
* `leads_operator`, `leads_quoted`, `leads_bare`: operators, strings and bare words;
* `IsWord`, `IsColumn.leads`: a text that is one word alone is one in front of an operator.
* `IsClosedWord`: one word alone, a closed string if it starts with a quote; `IsClosedWord.leads`,
  `IsClosedWord.leads_end`: it is one in front of an operator and at the end of a list.
-/
import Sieve.Proofs.QuotedWord

namespace Sieve

/-! ## 1. The operators the lexer knows -/

/-- The operators of comparisons. -/
def comparisons : List Operator := symbols ++ [.like, .notLike, .ilike, .notIlike]

/-- The operators of membership tests. -/
def memberships : List Operator := [.inList, .notInList]

/-- The operators of null tests. -/
def nullTests : List Operator := [.is, .isNot]

/-- The operator of the token is one of the language. -/
def Token.Known : Token → Prop
  | compare op => op ∈ comparisons
  | membership op => op ∈ memberships
  | nullTest op => op ∈ nullTests
  | _ => True

theorem Token.known_scan (s : Text) : (Token.scan s).1.Known := by
  unfold Token.scan
  split
  · rename_i op hop
    exact List.mem_append_left _ (List.mem_of_find?_eq_some hop)
  split
  · rename_i k n hk
    cases k <;> simp [Keyword.token, Token.Known, comparisons, memberships, nullTests]
  split <;> exact trivial

/-- The lexer knows no other operators. -/
theorem known_of_mem_tokenizeFrom {position : Nat} {s : Text} :
    ∀ t ∈ tokenizeFrom position s, t.token.Known := by
  fun_induction tokenizeFrom position s with
  | case1 => simp
  | case2 position s c r h start found span ih =>
    intro t ht
    rcases List.mem_cons.mp ht with rfl | ht
    · exact Token.known_scan _
    · exact ih t ht

/-! ## 2. Tokens without places -/

namespace Text

/-- The tokens of a text, without their places. -/
def tokens (s : Text) : List Token := (tokenize s).map Placed.token

/-- The tokens do not depend on where the text stands. -/
theorem map_token_tokenizeFrom (p q : Nat) (s : Text) :
    (tokenizeFrom p s).map Placed.token = (tokenizeFrom q s).map Placed.token := by
  fun_induction tokenizeFrom p s generalizing q with
  | case1 p s h =>
    rw [tokenizeFrom]
    split
    · rfl
    · rename_i h'
      rw [h] at h'
      cases h'
  | case2 p s c r h start found span ih =>
    rw [tokenizeFrom.eq_def q]
    split
    · rename_i h'
      rw [h] at h'
      cases h'
    · rename_i c' r' h'
      rw [h] at h'
      cases h'
      simp only [List.map_cons]
      exact congrArg _ (ih _)

/-- One token and the tokens of the rest. -/
theorem tokens_eq (s : Text) : tokens s =
    match trimStart s with
    | [] => []
    | c :: r => (Token.scan (c :: r)).1 :: tokens ((c :: r).drop (Token.scan (c :: r)).2) := by
  rw [tokens, tokenize, tokenizeFrom]
  split
  · rename_i h
    rw [h]
    rfl
  · rename_i c r h
    obtain ⟨k, hk⟩ := Nat.exists_eq_add_of_le'
      (Token.scan_length_pos (r := r) (not_isBlank_of_trimStart h))
    rw [h]
    simp only [hk, List.drop_succ_cons, Nat.add_sub_cancel, List.map_cons]
    exact congrArg _ (map_token_tokenizeFrom _ _ _)

@[simp] theorem tokens_nil : tokens [] = [] := by
  rw [tokens_eq]
  rfl

/-- Blanks between tokens do not count. -/
theorem tokens_blank {c : Char} (hc : isBlank c = true) (s : Text) :
    tokens (c :: s) = tokens s := by
  have htrim : trimStart (c :: s) = trimStart s := by simp [trimStart, hc]
  rw [tokens_eq, tokens_eq s, htrim]

@[simp] theorem tokens_space (s : Text) : tokens (' ' :: s) = tokens s := tokens_blank rfl s

end Text

/-- The lexer reads `u` as the token `t` when `r` follows. -/
structure Leads (u : Text) (t : Token) (r : Text) : Prop where
  starts : ∃ c w, u = c :: w ∧ isBlank c = false
  scan : Token.scan (u ++ r) = (t, u.length)

theorem Leads.tokens {u r : Text} {t : Token} (h : Leads u t r) :
    (u ++ r).tokens = t :: r.tokens := by
  obtain ⟨⟨c, w, rfl, hc⟩, hscan⟩ := h
  have htrim : Text.trimStart (c :: w ++ r) = c :: (w ++ r) := by simp [Text.trimStart, hc]
  rw [List.cons_append] at hscan
  rw [Text.tokens_eq, htrim]
  simp only [hscan]
  rw [← List.cons_append, List.drop_left]

/-! ## 3. Keywords and symbols -/

/-- A text up to the first character of a kind. -/
theorem exists_run (p : Char → Bool) (s : Text) :
    ∃ u v, s = u ++ v ∧ (∀ c ∈ u, p c = false) ∧ ∀ c ∈ v.head?, p c = true := by
  refine ⟨s.takeWhile fun c => !p c, s.dropWhile fun c => !p c,
    List.takeWhile_append_dropWhile.symm, fun c hc => ?_, fun c hc => ?_⟩
  · simpa using List.mem_takeWhile_imp hc
  · have hhead := List.head?_dropWhile_not (fun c => !p c) s
    rw [Option.mem_def.mp hc] at hhead
    simpa using hhead

/-- Whether a keyword may end depends on one character. -/
theorem endsWord_cons {c : Char} {r : Text} : endsWord (c :: r) = endsWord [c] := rfl

theorem endsWord_head? {r : Text} (h : endsWord r = true) :
    ∀ c ∈ r.head?, (!endsWord [c]) = false := by
  intro c hc
  cases r with
  | nil => cases hc
  | cons d r =>
    cases hc
    rw [endsWord_cons.symm.trans h]
    rfl

theorem endsWord_of_head? {r : Text} (h : ∀ c ∈ r.head?, endsWord [c] = true) :
    endsWord r = true := by
  cases r with
  | nil => rfl
  | cons c r => exact h c rfl

theorem endsWord_eq_false {c : Char} (hbare : endsBareWord c = false) (hquote : isQuote c = false) :
    endsWord [c] = false := by
  change (endsBareWord c || isQuote c) = false
  rw [hbare, hquote]
  rfl

theorem endsWord_of_endsBareWord {c : Char} (hc : endsBareWord c = true) : endsWord [c] = true := by
  change (endsBareWord c || isQuote c) = true
  rw [hc, Bool.true_or]

theorem endsWord_of_isQuote {c : Char} (hc : isQuote c = true) : endsWord [c] = true := by
  change (endsBareWord c || isQuote c) = true
  rw [hc, Bool.or_true]

namespace Keyword

theorem closedPhrase?_text (k : Keyword) {r : Text} (hr : endsWord r = true) :
    closedPhrase? (· == ·) k.words (k.token.text ++ r) = some k.token.text.length := by
  have hm : phraseLength? (· == ·) k.words (k.token.text ++ r) = some k.token.text.length := by
    cases k <;> rfl
  rw [closedPhrase?, hm, Option.filter_some, List.drop_left, if_pos hr]

/-- A keyword is read wherever it may end. -/
theorem read?_text (k : Keyword) {r : Text} (hr : endsWord r = true) :
    read? (k.token.text ++ r) = some (k, k.token.text.length) := by
  refine List.findSome?_eq_some_iff.mpr
    ⟨all.takeWhile (· ≠ k), k, (all.dropWhile (· ≠ k)).tail, ?_, ?_, ?_⟩
  · cases k <;> decide
  · rw [closedPhrase?_text k hr]
    rfl
  · -- the keywords that are tried before differ from it in their letters
    intro k' hk'
    have hm : phraseLength? (· == ·) k'.words (k.token.text ++ r) = none := by
      cases k <;> cases k' <;> first | rfl | exact absurd hk' (by decide)
    rw [closedPhrase?, hm]
    rfl

theorem startsWith_iff {w s : Text} : startsWith (· == ·) w s = true ↔ w <+: s := by
  induction w generalizing s with
  | nil => simp [startsWith]
  | cons a w ih =>
    cases s with
    | nil => simp [startsWith]
    | cons c s => simp [startsWith, ih, List.cons_prefix_cons]

/-- A phrase starts with its first word, which ends where a keyword may end, and at a blank if
the phrase has more words. -/
theorem first_of_closedPhrase? {ws : List Text} {s : Text} {n : Nat} (hws : ws ≠ [])
    (h : closedPhrase? (· == ·) ws s = some n) :
    ∃ w r, ws.head? = some w ∧ s = w ++ r ∧ endsWord r = true ∧
      (ws = [w] ∨ ∃ c ∈ r.head?, isBlank c = true) := by
  obtain ⟨hm, hends⟩ := Option.filter_eq_some_iff.mp h
  match ws with
  | [] => exact absurd rfl hws
  | [w] =>
    rw [phraseLength?] at hm
    split at hm
    · rename_i hstarts
      obtain ⟨r, rfl⟩ := startsWith_iff.mp hstarts
      cases hm
      rw [List.drop_left] at hends
      exact ⟨w, r, rfl, rfl, hends, Or.inl rfl⟩
    · cases hm
  | w :: next :: more =>
    rw [phraseLength?] at hm
    split at hm
    · rename_i hstarts
      obtain ⟨r, rfl⟩ := startsWith_iff.mp hstarts
      rw [List.drop_left] at hm
      obtain ⟨c, r, rfl, hc⟩ : ∃ c r', r = c :: r' ∧ isBlank c = true := by
        cases r with
        | nil => simp [Text.gap] at hm
        | cons c r =>
          refine ⟨c, r, rfl, ?_⟩
          by_contra hc
          simp [Text.gap, hc] at hm
      exact ⟨w, c :: r, rfl, rfl, by simp [endsWord, hc], Or.inr ⟨c, rfl, hc⟩⟩
    · cases hm

/-- **Where a keyword is read**, the text up to the next place where a keyword may end is its
first word, and its only word if no blank stands there. -/
theorem words_of_read? {u r : Text} {k : Keyword} {n : Nat}
    (hu : ∀ c ∈ u, endsWord [c] = false) (hr : endsWord r = true)
    (h : read? (u ++ r) = some (k, n)) :
    k.words.head? = some u ∧ ((∀ c ∈ r.head?, isBlank c = false) → k.words = [u]) := by
  have hphrase := capitals_of_mem_phrases (words_mem_phrases k)
  obtain ⟨w, r', hw, heq, hr', hmore⟩ :=
    first_of_closedPhrase? hphrase.1 (closedPhrase?_of_read? h)
  have hletters : ∀ c ∈ w, endsWord [c] = false := by
    intro c hc
    exact (isLetter_of_isCapital ((hphrase.2 w (List.mem_of_mem_head? hw)).2 c hc)).not_endsWord []
  obtain ⟨rfl, rfl⟩ := run_unique (p := fun c => !endsWord [c]) (by simpa using hu)
    (by simpa using hletters) (endsWord_head? hr) (endsWord_head? hr') heq
  refine ⟨hw, fun hblank => hmore.resolve_right ?_⟩
  rintro ⟨c, hc, hb⟩
  rw [hblank c hc] at hb
  cases hb

/-- What runs on with a comma is no keyword. -/
theorem read?_comma {u : Text} (hu : ∀ c ∈ u, endsWord [c] = false) (r : Text) :
    read? (u ++ ',' :: r) = none := by
  by_contra hread
  obtain ⟨⟨k, n⟩, hk⟩ := Option.ne_none_iff_exists'.mp hread
  obtain ⟨v, rest, rfl, hv, hrest⟩ := exists_run (fun c => endsWord [c]) r
  have hrun : ∀ c ∈ u ++ ',' :: v, endsWord [c] = false := by
    intro c hc
    rcases List.mem_append.mp hc with hc | hc
    · exact hu c hc
    · rcases List.mem_cons.mp hc with rfl | hc
      · rfl
      · exact hv c hc
  have hassoc : u ++ ',' :: (v ++ rest) = u ++ ',' :: v ++ rest := by simp
  rw [hassoc] at hk
  obtain ⟨hfirst, -⟩ := words_of_read? hrun (endsWord_of_head? hrest) hk
  -- the comma would be a letter of a keyword
  have hcapital := ((capitals_of_mem_phrases (words_mem_phrases k)).2 _
    (List.mem_of_mem_head? hfirst)).2 ',' (by simp)
  exact absurd hcapital (by decide)

theorem text_token_eq (k : Keyword) : k.token.text = [' '].intercalate k.words := by
  cases k <;> rfl

end Keyword

/-- No symbol runs across a comma or a place where a keyword may end. -/
theorem symbol?_append (u : Text) {r : Text}
    (hr : ∀ c ∈ r.head?, endsWord [c] = true ∨ c = ',') : symbol? (u ++ r) = symbol? u := by
  have hchars : ∀ op ∈ symbols, ∀ c ∈ op.text, ¬ (endsWord [c] = true ∨ c = ',') := by
    have hall : ∀ op ∈ symbols,
        (op.text.all fun c => decide (¬ (endsWord [c] = true ∨ c = ','))) = true := by decide
    intro op hop c hc
    exact of_decide_eq_true (List.all_eq_true.mp (hall op hop) c hc)
  refine List.find?_congr fun op hop => ?_
  rw [Bool.eq_iff_iff, List.isPrefixOf_iff_prefix, List.isPrefixOf_iff_prefix]
  constructor
  · intro hstarts
    rcases List.prefix_or_prefix_of_prefix hstarts (List.prefix_append u r) with h | ⟨more, hmore⟩
    · exact h
    · cases more with
      | nil => exact ⟨[], by rw [List.append_nil, ← hmore, List.append_nil]⟩
      | cons c more =>
        -- the symbol would hold the character behind `u`
        rw [← hmore, List.prefix_append_right_inj] at hstarts
        obtain ⟨r, rfl⟩ := hstarts
        exact absurd (hr c rfl) (hchars op hop c (by rw [← hmore]; simp))
  · exact fun h => h.trans (List.prefix_append u r)

/-! ## 4. What is read off the front -/

theorem leads_openParen (r : Text) : Leads ['('] .openParen r :=
  ⟨⟨_, _, rfl, by decide⟩, rfl⟩

theorem leads_closeParen (r : Text) : Leads [')'] .closeParen r :=
  ⟨⟨_, _, rfl, by decide⟩, rfl⟩

/-- An operator of the language is a symbol or a keyword. -/
theorem Token.Known.eq_symbol_or_keyword {t : Token} (hk : t.Known) (ht : t.precedence ≠ none) :
    (∃ op ∈ symbols, t = .compare op) ∨ ∃ k : Keyword, t = k.token := by
  cases t with
  | openParen | closeParen | word => exact absurd rfl ht
  | and => exact Or.inr ⟨.and, rfl⟩
  | or => exact Or.inr ⟨.or, rfl⟩
  | compare op =>
    rcases List.mem_append.mp hk with hop | hop
    · exact Or.inl ⟨op, hop, rfl⟩
    · simp only [List.mem_cons, List.not_mem_nil, or_false] at hop
      rcases hop with rfl | rfl | rfl | rfl
      exacts [Or.inr ⟨.like, rfl⟩, Or.inr ⟨.notLike, rfl⟩, Or.inr ⟨.ilike, rfl⟩,
        Or.inr ⟨.notIlike, rfl⟩]
  | membership op =>
    simp only [Known, memberships, List.mem_cons, List.not_mem_nil, or_false] at hk
    rcases hk with rfl | rfl
    exacts [Or.inr ⟨.inList, rfl⟩, Or.inr ⟨.notInList, rfl⟩]
  | nullTest op =>
    simp only [Known, nullTests, List.mem_cons, List.not_mem_nil, or_false] at hk
    rcases hk with rfl | rfl
    exacts [Or.inr ⟨.isNull, rfl⟩, Or.inr ⟨.isNotNull, rfl⟩]

/-- **An operator of the language is read** wherever a keyword may end behind it. -/
theorem leads_operator {t : Token} (ht : t.precedence ≠ none) (hk : t.Known) {r : Text}
    (hr : endsWord r = true) : Leads t.text t r := by
  rcases hk.eq_symbol_or_keyword ht with ⟨op, hop, rfl⟩ | ⟨k, rfl⟩
  · have hsymbol : symbol? op.text = some op ∧ ∃ c w, op.text = c :: w ∧ isBlank c = false := by
      simp only [symbols, List.mem_cons, List.not_mem_nil, or_false] at hop
      rcases hop with rfl | rfl | rfl | rfl | rfl | rfl | rfl <;>
        exact ⟨rfl, _, _, rfl, by decide⟩
    have hends : ∀ c ∈ r.head?, endsWord [c] = true ∨ c = ',' := by
      intro c hc
      cases r with
      | nil => cases hc
      | cons d r =>
        cases hc
        exact Or.inl hr
    refine ⟨hsymbol.2, ?_⟩
    unfold Token.scan
    rw [Token.text, symbol?_append _ hends, hsymbol.1]
  · obtain ⟨c, w, htext, hc⟩ : ∃ c w, k.token.text = c :: w ∧ Keyword.IsLetter c := by
      cases k <;> exact ⟨_, _, rfl, by decide⟩
    have hread := Keyword.read?_text k hr
    refine ⟨⟨c, w, htext, hc.not_isBlank⟩, ?_⟩
    rw [htext, List.cons_append] at hread ⊢
    unfold Token.scan
    rw [symbol?_eq_none (Or.inl hc), hread]

/-- A closed quoted string is read as a word, whatever follows. -/
theorem leads_quoted {q : Text} (hq : quotedLength? q = some q.length) (r : Text) :
    Leads q (.word q) r := by
  refine ⟨?_, Token.scan_quoted hq r⟩
  rw [quotedLength?_eq] at hq
  obtain ⟨c, w, m, rfl, hc, -, -⟩ := Quoted.length?_spec hq
  exact ⟨c, w, rfl, Keyword.not_isBlank_of_isQuote hc⟩

/-- A bare word is read up to a blank or a parenthesis, if what starts there is neither a symbol
nor a keyword nor a quoted string. -/
theorem leads_bare {u r : Text} (hne : u ≠ []) (hu : ∀ c ∈ u, endsBareWord c = false)
    (hr : ∀ c ∈ r.head?, endsBareWord c = true) (hquote : ∀ c ∈ u.head?, isQuote c = false)
    (hsymbol : symbol? (u ++ r) = none) (hread : Keyword.read? (u ++ r) = none) :
    Leads u (.word u) r := by
  cases u with
  | nil => exact absurd rfl hne
  | cons c w =>
    have hc := hu c List.mem_cons_self
    simp only [endsBareWord, Bool.or_eq_false_iff, beq_eq_false_iff_ne] at hc
    have hlength : wordLength (c :: w ++ r) = (c :: w).length := by
      rw [wordLength, quotedLength?_eq_none (by simpa using hquote), Option.getD_none,
        Keyword.takeWhile_run (by simpa using hu) (by simpa using hr)]
    refine ⟨⟨c, w, rfl, hc.1.1⟩, ?_⟩
    rw [List.cons_append] at hsymbol hread hlength ⊢
    rw [Token.scan_eq_word hsymbol hread hc.1.2 hc.2, hlength, ← List.cons_append, List.take_left]

/-! ## 5. Texts that are one word -/

/-- Alone, the text is one word. -/
def IsWord (u : Text) : Prop := tokenize u = [⟨.word u, 0⟩]

instance (u : Text) : Decidable (IsWord u) := inferInstanceAs (Decidable (_ = _))

theorem IsWord.leads {u : Text} (h : IsWord u) : Leads u (.word u) [] := by
  have htokens : u.tokens = [.word u] := by
    rw [Text.tokens, h]
    rfl
  rw [Text.tokens_eq] at htokens
  cases htrim : Text.trimStart u with
  | nil =>
    rw [htrim] at htokens
    cases htokens
  | cons c r =>
    rw [htrim] at htokens
    obtain ⟨hscan, -⟩ := List.cons.inj htokens
    have hpair : Token.scan (c :: r) = (.word u, (Token.scan (c :: r)).2) := by rw [← hscan]
    obtain ⟨hlength, htake⟩ := Token.take_of_scan hpair
    -- a word as long as the text leaves no blanks in front of it
    have hsuffix : c :: r <:+ u := htrim ▸ List.dropWhile_suffix isBlank
    have hle : u.length ≤ (c :: r).length := by
      rw [← htake, List.length_take]
      exact Nat.min_le_right _ _
    obtain rfl := hsuffix.eq_of_length_le hle
    refine ⟨⟨c, r, rfl, Text.not_isBlank_of_trimStart htrim⟩, ?_⟩
    rw [List.append_nil, hpair, hlength]

/-- What is read as one word, to the end of the text, is all of the text. -/
theorem isWord_of_leads {u : Text} (h : Leads u (.word u) []) : IsWord u := by
  have htokens : (tokenize u).map Placed.token = [.word u] := by
    have := h.tokens
    rwa [List.append_nil, Text.tokens_nil] at this
  obtain ⟨⟨t, b⟩, htokenize, ht⟩ := List.map_eq_singleton_iff.mp htokens
  obtain rfl : t = .word u := ht
  obtain ⟨i, n, hlex, rfl⟩ := mem_tokenize_iff.mp (htokenize ▸ List.mem_singleton_self _)
  -- a token as long as the text begins with it
  have hle := hlex.add_le_length
  obtain ⟨rfl, -⟩ := Token.take_of_scan hlex.scan
  obtain rfl : i = 0 := by omega
  exact htokenize

theorem IsWord.scan {u : Text} (h : IsWord u) : Token.scan u = (.word u, u.length) := by
  have hscan := h.leads.scan
  rwa [List.append_nil] at hscan

/-- What is read as a word is neither a symbol nor a keyword. -/
theorem Token.scan_word {s w : Text} {n : Nat} (h : Token.scan s = (.word w, n)) :
    symbol? s = none ∧ Keyword.read? s = none ∧ n = wordLength s := by
  unfold Token.scan at h
  split at h
  · cases h
  rename_i hsymbol
  split at h
  · rename_i k m hk
    cases k <;> cases h
  rename_i hread
  split at h
  · cases h
  · cases h
  · cases h
    exact ⟨hsymbol, hread, rfl⟩

/-- A text that is one word and starts with no quote has no blanks and no parentheses. -/
theorem IsWord.endsBareWord_eq_false {u : Text} (h : IsWord u)
    (hquote : ∀ c ∈ u.head?, isQuote c = false) : ∀ c ∈ u, endsBareWord c = false := by
  obtain ⟨-, -, hlength⟩ := Token.scan_word h.scan
  rw [wordLength, quotedLength?_eq_none hquote, Option.getD_none] at hlength
  have hall := (List.takeWhile_prefix fun c => !endsBareWord c).eq_of_length hlength.symm
  intro c hc
  rw [← hall] at hc
  simpa using List.mem_takeWhile_imp hc

/-- A word that starts with no quote is read in front of a blank or a parenthesis, if no keyword
is. -/
theorem IsWord.leads_append {u r : Text} (h : IsWord u) (hquote : ∀ c ∈ u.head?, isQuote c = false)
    (hr : ∀ c ∈ r.head?, endsBareWord c = true) (hread : Keyword.read? (u ++ r) = none) :
    Leads u (.word u) r := by
  obtain ⟨c, w, hcons, -⟩ := h.leads.starts
  obtain ⟨hsymbol, -, -⟩ := Token.scan_word h.scan
  refine leads_bare (by simp [hcons]) (h.endsBareWord_eq_false hquote) hr hquote ?_ hread
  rw [symbol?_append _ fun c hc => Or.inl (endsWord_of_endsBareWord (hr c hc)), hsymbol]

/-- A word that starts with no quote is no keyword with what follows, if it holds a quote or if
no blank follows. -/
theorem IsWord.read?_append {u r : Text} (h : IsWord u) (hquote : ∀ c ∈ u.head?, isQuote c = false)
    (hr : (∃ c ∈ u, isQuote c = true) ∨ (endsWord r = true ∧ ∀ c ∈ r.head?, isBlank c = false)) :
    Keyword.read? (u ++ r) = none := by
  have hbare := h.endsBareWord_eq_false hquote
  obtain ⟨-, hnone, -⟩ := Token.scan_word h.scan
  obtain ⟨v, w, rfl, hv, hw⟩ := exists_run (fun c => endsWord [c]) u
  have hbehind : endsWord (w ++ r) = true ∧ ∀ c ∈ (w ++ r).head?, isBlank c = false := by
    cases w with
    | nil =>
      refine hr.resolve_left ?_
      rintro ⟨c, hc, hq⟩
      rw [List.append_nil] at hc
      exact absurd (endsWord_of_isQuote hq) (by simp [hv c hc])
    | cons c w =>
      refine ⟨hw c rfl, ?_⟩
      rintro d ⟨⟩
      have hc := hbare c (by simp)
      simp only [endsBareWord, Bool.or_eq_false_iff] at hc
      exact hc.1.1
  -- a keyword would be the first run of the word, and would be read where the word stands alone
  by_contra hread
  obtain ⟨⟨k, n⟩, hk⟩ := Option.ne_none_iff_exists'.mp hread
  rw [List.append_assoc] at hk
  have hwords := (Keyword.words_of_read? hv hbehind.1 hk).2 hbehind.2
  have htext : k.token.text = v := by
    rw [Keyword.text_token_eq, hwords, List.intercalate_singleton]
  have hfound := Keyword.read?_text k (endsWord_of_head? hw)
  rw [htext, hnone] at hfound
  cases hfound

/-- A column that is read as it stands: one word without quotes, and not the word that begins
`NOT IN` and `NOT LIKE`. -/
structure IsColumn (column : Text) : Prop where
  isWord : IsWord column
  unquoted : ∀ c ∈ column, isQuote c = false
  ne_not : column ≠ "NOT".toList

namespace IsColumn

variable {column : Text}

theorem endsBareWord_eq_false (h : IsColumn column) : ∀ c ∈ column, endsBareWord c = false :=
  h.isWord.endsBareWord_eq_false fun c hc => h.unquoted c (List.mem_of_mem_head? hc)

/-- A column is no keyword with what follows, unless it is the other word that only begins
keywords. -/
theorem read?_eq_none (h : IsColumn column) (his : column ≠ "IS".toList) {r : Text}
    (hr : endsWord r = true) : Keyword.read? (column ++ r) = none := by
  by_contra hread
  obtain ⟨⟨k, n⟩, hk⟩ := Option.ne_none_iff_exists'.mp hread
  obtain ⟨hfirst, -⟩ := Keyword.words_of_read?
    (fun c hc => endsWord_eq_false (h.endsBareWord_eq_false c hc) (h.unquoted c hc)) hr hk
  obtain ⟨-, hnone, -⟩ := Token.scan_word h.isWord.scan
  have hnot := h.ne_not
  -- a keyword of one word would be read where the column stands alone
  cases k
  case isNotNull | isNull => exact his (Option.some.inj hfirst).symm
  case notIlike | notLike | notInList => exact hnot (Option.some.inj hfirst).symm
  all_goals
    obtain rfl := Option.some.inj hfirst
    cases hnone

end IsColumn

/-- `IS` begins no keyword in front of another operator. -/
theorem Keyword.read?_is {t : Token} (ht : t.precedence ≠ none) (hk : t.Known) (r : Text) :
    read? ("IS".toList ++ ' ' :: (t.text ++ r)) = none := by
  rcases hk.eq_symbol_or_keyword ht with ⟨op, hop, rfl⟩ | ⟨k, rfl⟩
  · simp only [symbols, List.mem_cons, List.not_mem_nil, or_false] at hop
    rcases hop with rfl | rfl | rfl | rfl | rfl | rfl | rfl <;> rfl
  · cases k <;> rfl

/-- **A column is read** in front of every operator. -/
theorem IsColumn.leads {column : Text} (h : IsColumn column) {t : Token} (ht : t.precedence ≠ none)
    (hk : t.Known) (r : Text) : Leads column (.word column) (' ' :: (t.text ++ r)) := by
  refine h.isWord.leads_append (fun c hc => h.unquoted c (List.mem_of_mem_head? hc)) ?_ ?_
  · rintro d ⟨⟩
    rfl
  · by_cases his : column = "IS".toList
    · rw [his]
      exact Keyword.read?_is ht hk r
    · exact h.read?_eq_none his rfl

/-! ## 6. Closed words -/

/-- A text that is one word alone, and a closed string if it starts with a quote.  Behind its
first character a word may hold any quotes. -/
structure IsClosedWord (u : Text) : Prop where
  isWord : IsWord u
  closed : ∀ c ∈ u.head?, isQuote c = true → quotedLength? u ≠ none

namespace IsClosedWord

variable {u r : Text}

theorem of_quoted (h : quotedLength? u = some u.length) : IsClosedWord u :=
  ⟨isWord_of_leads (leads_quoted h []), fun _ _ _ hnone => by simp [hnone] at h⟩

theorem of_bare (h : IsWord u) (hquote : ∀ c ∈ u.head?, isQuote c = false) : IsClosedWord u :=
  ⟨h, fun c hc hq => by simp [hquote c hc] at hq⟩

/-- A closed word is a quoted string or starts with no quote. -/
theorem quoted_or_bare (h : IsClosedWord u) :
    quotedLength? u = some u.length ∨ ∀ c ∈ u.head?, isQuote c = false := by
  by_cases hquote : ∀ c ∈ u.head?, isQuote c = false
  · exact Or.inr hquote
  · simp only [not_forall, Bool.not_eq_false] at hquote
    obtain ⟨c, hc, hq⟩ := hquote
    obtain ⟨n, hn⟩ := Option.ne_none_iff_exists'.mp (h.closed c hc hq)
    obtain ⟨-, -, hlength⟩ := Token.scan_word h.isWord.scan
    rw [wordLength, hn, Option.getD_some] at hlength
    exact Or.inl (by rw [hn, hlength])

/-- A closed word is read at the end of the text and in front of a closing parenthesis. -/
theorem leads_end (h : IsClosedWord u) (hr : ∀ c ∈ r.head?, c = ')') : Leads u (.word u) r := by
  rcases h.quoted_or_bare with hq | hquote
  · exact leads_quoted hq r
  · refine h.isWord.leads_append hquote (fun c hc => by rw [hr c hc]; rfl) ?_
    refine h.isWord.read?_append hquote (Or.inr ⟨?_, fun c hc => by rw [hr c hc]; rfl⟩)
    cases r with
    | nil => rfl
    | cons c r =>
      obtain rfl := hr c rfl
      rfl

/-- **A closed word is read** in front of every operator, unless it begins `NOT IN` and
`NOT LIKE`. -/
theorem leads (h : IsClosedWord u) (hnot : u ≠ "NOT".toList) {t : Token} (ht : t.precedence ≠ none)
    (hk : t.Known) (r : Text) : Leads u (.word u) (' ' :: (t.text ++ r)) := by
  rcases h.quoted_or_bare with hq | hquote
  · exact leads_quoted hq _
  · by_cases hfree : ∀ c ∈ u, isQuote c = false
    · exact IsColumn.leads ⟨h.isWord, hfree, hnot⟩ ht hk r
    · refine h.isWord.leads_append hquote (by rintro d ⟨⟩; rfl) (h.isWord.read?_append hquote ?_)
      exact Or.inl (by simpa using hfree)

/-- A closed word ends with no blank. -/
theorem ends (h : IsClosedWord u) : ∃ v c, u = v ++ [c] ∧ isBlank c = false := by
  have hne : u ≠ [] := by
    obtain ⟨c, w, rfl, -⟩ := h.isWord.leads.starts
    simp
  refine ⟨u.dropLast, u.getLast hne, (List.dropLast_append_getLast hne).symm, ?_⟩
  rcases h.quoted_or_bare with hq | hquote
  · rw [quotedLength?_eq] at hq
    obtain ⟨q, hquote, -, hlast⟩ := Quoted.length?_quotes hq
    have hlast' : u.getLast hne = q := by
      rw [List.getLast_eq_getElem]
      exact (List.getElem?_eq_some_iff.mp hlast).2
    rw [hlast']
    exact Keyword.not_isBlank_of_isQuote hquote
  · have hc := h.isWord.endsBareWord_eq_false hquote _ (List.getLast_mem hne)
    simp only [endsBareWord, Bool.or_eq_false_iff] at hc
    exact hc.1.1

end IsClosedWord

/-! ## 7. Texts without blanks around them -/

/-- A text that neither starts nor ends with a blank is not cut. -/
theorem Text.trim_eq_self {s : Text} (hstart : ∀ c ∈ s.head?, isBlank c = false)
    (hend : ∀ c ∈ s.getLast?, isBlank c = false) : Text.trim s = s := by
  have hkeep : ∀ {t : Text}, (∀ c ∈ t.head?, isBlank c = false) → Text.trimStart t = t := by
    intro t ht
    cases t with
    | nil => rfl
    | cons c t => simp [Text.trimStart, ht c rfl]
  rw [Text.trim, hkeep hstart, hkeep (by simpa [List.head?_reverse] using hend),
    List.reverse_reverse]

end Sieve
