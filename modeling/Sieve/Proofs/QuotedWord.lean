/-
# Quoted strings in a rewritten text

A quoted string is data, and putting keywords in capitals is meant to leave it alone.  Two
readers have to agree for that: the one that copies quoted spans and the lexer, which also
starts a string right behind a keyword or behind another string.  They do not always agree, and
here is exactly when a string of the text is a string of the rewritten text, at the same place.

* `TokenAt`: a token at a place, counted in characters;
* `Rewritten`: a phrase with a letter that is put in capitals;
* `RunsAcross`: a token that begins before a place and reaches beyond it;
* `StandApart`: no word is a keyword with a quote right behind it;
* `quoted_kept_iff`: the condition under which a quoted string is kept.
-/
import Sieve.Proofs.Recasing

namespace Sieve

open Keyword

/-! ## 1. Reading a quoted string -/

/-- No keyword starts with a quote. -/
theorem read?_eq_none {c : Char} {r : Text} (hc : isQuote c = true) :
    Keyword.read? (c :: r) = none := by
  by_contra hread
  obtain ⟨⟨k, n⟩, hk⟩ := Option.ne_none_iff_exists'.mp hread
  have hl := (read?_spec (b := 0) hk).head rfl
  rw [hl.not_isQuote] at hc
  cases hc

/-- What starts with a quote is read as a word. -/
theorem Token.scan_quote {q : Char} (hq : isQuote q = true) (r : Text) :
    Token.scan (q :: r) = (.word ((q :: r).take (wordLength (q :: r))), wordLength (q :: r)) :=
  Token.scan_eq_word (symbol?_eq_none (Or.inr hq)) (read?_eq_none hq)
    (ne_of_isQuote hq (by decide)) (ne_of_isQuote hq (by decide))

/-- A closed quoted string is read as one word, whatever follows. -/
theorem Token.scan_quoted {q : Text} (hq : quotedLength? q = some q.length) (r : Text) :
    Token.scan (q ++ r) = (.word q, q.length) := by
  rw [quotedLength?_eq] at hq
  have hlength : wordLength (q ++ r) = q.length := by
    rw [wordLength, quotedLength?_eq, Quoted.length?_append hq, Option.getD_some]
  obtain ⟨c, s, m, rfl, hc, -, -⟩ := Quoted.length?_spec hq
  rw [List.cons_append] at hlength ⊢
  rw [Token.scan_quote hc, hlength, ← List.cons_append, List.take_left]

/-- A word that is read stands at the front of the text. -/
theorem Token.take_of_scan {s w : Text} {n : Nat} (h : Token.scan s = (.word w, n)) :
    n = w.length ∧ s.take n = w := by
  have hword : s.take (wordLength s) = w ∧ wordLength s = n := by
    unfold Token.scan at h
    split at h
    · cases h
    split at h
    · rename_i k m hk
      cases k <;> cases h
    split at h
    · cases h
    · cases h
    · obtain ⟨hw, hn⟩ := Prod.mk.inj h
      exact ⟨Token.word.inj hw, hn⟩
  obtain ⟨hw, rfl⟩ := hword
  refine ⟨?_, hw⟩
  rw [← hw, List.length_take, Nat.min_eq_left (wordLength_le s)]

/-! ## 2. What stands at a letter -/

/-- A token that starts with a letter is a keyword or a bare word. -/
theorem Token.scan_letter {c : Char} {r : Text} (hc : IsLetter c) :
    (∃ k, Keyword.read? (c :: r) = some (k, (Token.scan (c :: r)).2) ∧
      (Token.scan (c :: r)).1 = k.token) ∨
      ∃ n, n = ((c :: r).takeWhile fun d => !endsBareWord d).length ∧
        Token.scan (c :: r) = (.word ((c :: r).take n), n) := by
  have hsymbol := symbol?_eq_none (r := r) (Or.inl hc)
  cases hread : Keyword.read? (c :: r) with
  | some found =>
    left
    refine ⟨found.1, ?_⟩
    unfold Token.scan
    rw [hsymbol, hread]
    exact ⟨rfl, rfl⟩
  | none =>
    right
    have hlength : wordLength (c :: r) = ((c :: r).takeWhile fun d => !endsBareWord d).length := by
      rw [wordLength, quotedLength?, hc.not_isQuote]
      rfl
    refine ⟨_, rfl, ?_⟩
    rw [← hlength]
    exact Token.scan_eq_word hsymbol hread (hc.ne (by decide)) (hc.ne (by decide))

variable {s : Text} {x i j m n : Nat} {t : Token} {ws : List Text}

theorem Lexeme.letter (h : Lexeme s i t n) {c : Char} (hc : s[i]? = some c) (hl : IsLetter c) :
    (∃ k, Keyword.read? (s.drop i) = some (k, n) ∧ t = k.token) ∨
      (n = ((s.drop i).takeWhile fun d => !endsBareWord d).length ∧
        t = .word ((s.drop i).take n)) := by
  have hcons := drop_eq_cons hc
  rcases Token.scan_letter (r := s.drop (i + 1)) hl with ⟨k, hk, ht⟩ | ⟨m, hm, hscan⟩
  · rw [← hcons, h.scan] at hk ht
    exact Or.inl ⟨k, hk, ht⟩
  · rw [← hcons] at hscan hm
    obtain ⟨rfl, rfl⟩ := Prod.mk.inj (h.scan.symm.trans hscan)
    exact Or.inr ⟨hm, rfl⟩

/-- Behind a token that starts with a letter stands no letter. -/
theorem Lexeme.not_isLetter_behind (h : Lexeme s i t n) {c d : Char} (hc : s[i]? = some c)
    (hl : IsLetter c) (hd : s[i + n]? = some d) : ¬ IsLetter d := by
  intro hd'
  rcases h.letter hc hl with ⟨k, hk, -⟩ | ⟨hn, -⟩
  · have hends := (read?_spec hk).ends
    rw [drop_eq_cons hd, hd'.not_endsWord] at hends
    cases hends
  · rw [← List.getElem?_drop, hn] at hd
    have hends := not_of_takeWhile hd
    rw [hd'.not_endsBareWord] at hends
    cases hends

/-- A token that starts inside a phrase starts with a word of it. -/
theorem Lexeme.isBlank_before (h : Lexeme s i t n) (hx : Stop s x)
    (hstands : Stands ws s (nextStart s x) m) (hlt : nextStart s x < i)
    (him : i < nextStart s x + m) {d : Char} (hd : s[i - 1]? = some d) : isBlank d = true := by
  rcases hstands.letter_or_blank (p := i - 1) (by omega) (by omega) hd with hl | hb
  · -- The token with that letter would end between two letters.
    have hxi : x ≤ i - 1 := by
      have := le_nextStart s x
      omega
    obtain ⟨j, u, k, hj, hxj, hji, hij⟩ := hx.exists_lexeme hd hl.not_isBlank hxi
    have hfrom := hj.nextStart_le hxj
    have hend := hj.add_le_of_lt h (by omega)
    obtain ⟨c, hc, hcb⟩ := hj.exists_char
    obtain ⟨e, he, heb⟩ := h.exists_char
    have hcl := hstands.isLetter hfrom (by omega) hc hcb
    have hel := hstands.isLetter (Nat.le_of_lt hlt) him he heb
    rw [Nat.le_antisymm (by omega) hend] at he
    exact absurd hel (hj.not_isLetter_behind hc hcl he)
  · exact hb

/-! ## 3. Behind a phrase the lexer stops -/

/-- No word of the text is a keyword with a quote right behind it, as `in'x'` is. -/
def StandApart (s : Text) : Prop :=
  ∀ w b, ⟨.word w, b⟩ ∈ tokenize s → ∀ n, foldedLength? w = some n → n = w.length

/-- Where a bare word reaches beyond a phrase that ends in it, the phrase is glued to a quote. -/
theorem Lexeme.not_word_beyond (h : Lexeme s i t n) (hs : StandApart s) {b : Nat}
    (hws : ws ∈ phrases) (hstands : Stands ws s b m) (hbi : b ≤ i) (him : i < b + m)
    (hlt : b + m < i + n) (hstart : ∀ d, b < i → s[i - 1]? = some d → isBlank d = true)
    (hn : n = ((s.drop i).takeWhile fun d => !endsBareWord d).length)
    (ht : t = .word ((s.drop i).take n)) : False := by
  have hbare : ∀ {p : Nat} {c : Char}, i ≤ p → p < i + n → s[p]? = some c →
      endsBareWord c = false := by
    intro p c hip hp hc
    have hfree := of_lt_takeWhile (p := fun d => !endsBareWord d) (s := s.drop i) (j := p - i)
      (by omega) (by rwa [List.getElem?_drop, Nat.add_sub_of_le hip])
    simpa using hfree
  have hnle : n ≤ (s.drop i).length := by
    rw [hn]
    exact (List.takeWhile_prefix _).length_le
  -- The end of the phrase, from `i` on, is one word of it.
  obtain ⟨v, hv, hword⟩ := hstands.word_from hws hbi him hstart (fun p d hip hpm hd => by
    have hfree := hbare hip (by omega) hd
    simp only [endsBareWord, Bool.or_eq_false_iff] at hfree
    exact hfree.1.1)
  -- So the token starts with a phrase, and would have to be that phrase.
  have hfound := foldedLength?_of_stands hv (hword.take (n := n) (by omega))
  have hwhole := hs _ _ (mem_tokenize_iff.mpr ⟨i, n, ht ▸ h, rfl⟩) _ hfound
  rw [List.drop_zero, List.length_take, Nat.min_eq_left hnle] at hwhole
  omega

/-- **Behind a phrase the lexer stops**, in whatever case the phrase is written: keywords that
are not in capitals are read as words, and a word that ends a phrase ends there. -/
theorem Stop.behind_phrase (hx : Stop s x) (hs : StandApart s) (hws : ws ∈ phrases)
    (hstands : Stands ws s (nextStart s x) m) : Stop s (nextStart s x + m) := by
  have hpos := hstands.pos
  have hle := hstands.le_length
  obtain ⟨c, hc⟩ : ∃ c, s[nextStart s x + m - 1]? = some c :=
    ⟨_, List.getElem?_eq_getElem (by omega)⟩
  have hxle := le_nextStart s x
  obtain ⟨i, t, n, h, hxi, hip, hpi⟩ :=
    hx.exists_lexeme hc (hstands.last hc).not_isBlank (by omega)
  have hbi := h.nextStart_le hxi
  have him : i < nextStart s x + m := by omega
  have hstart : ∀ d, nextStart s x < i → s[i - 1]? = some d → isBlank d = true :=
    fun d hlt hd => h.isBlank_before hx hstands hlt him hd
  -- The token of the last letter ends with it.
  suffices hend : i + n ≤ nextStart s x + m by
    have hstop := h.stop_behind
    rwa [Nat.le_antisymm hend (by omega)] at hstop
  obtain ⟨d, hd, hdb⟩ := h.exists_char
  rcases h.letter hd (hstands.isLetter hbi him hd hdb) with ⟨k, hk, -⟩ | ⟨hn, ht⟩
  · exact hstands.add_le_add hws (read?_spec hk) (words_mem_phrases k) hbi him hstart
  · by_contra hlt
    exact h.not_word_beyond hs hws hstands hbi him (by omega) hstart hn ht

/-! ## 4. The stops of a rewritten text -/

theorem nextStart_recased {s s' : Text} (h : List.Forall₂ Recased s s') (x : Nat) :
    nextStart s' x = nextStart s x := by
  rw [nextStart, nextStart, gap_recased (List.forall₂_drop x h)]

/-- **Where the lexer stops in a rewritten text, it stopped before.** -/
theorem Stop.of_recased {s s' : Text} (h : List.Forall₂ Recased s s') (hs : StandApart s)
    {x : Nat} (hx : Stop s' x) : Stop s x := by
  induction hx with
  | start => exact .start
  | @behind x _ hlt ih =>
    rw [nextStart_recased h] at hlt ⊢
    rw [← h.length_eq] at hlt
    rcases Token.scan_recased (List.forall₂_drop (nextStart s x) h) with hsame | ⟨k, hk⟩
    · rw [hsame]
      exact ih.behind hlt
    · have hstands := (read?_spec hk).of_recased h
      exact ih.behind_phrase hs (words_mem_phrases k) hstands

/-- A token of the text begins before the place and reaches beyond it. -/
def RunsAcross (s : Text) (i : Nat) : Prop := ∃ j t n, Lexeme s j t n ∧ j < i ∧ i < j + n

/-- No token runs across the beginning of a token. -/
theorem Lexeme.not_runsAcross (h : Lexeme s i t n) : ¬ RunsAcross s i := by
  rintro ⟨j, u, m, h', hji, hij⟩
  have := h'.add_le_of_lt h hji
  omega

/-- **Where keywords stand apart, no token of the rewritten text runs across the beginning of a
quoted string.** -/
theorem not_runsAcross_of_recased {s s' : Text} (h : List.Forall₂ Recased s s')
    (hs : StandApart s) {i n : Nat} {t : Token} (ht : Lexeme s i t n) {c : Char}
    (hc : s[i]? = some c) (hq : isQuote c = true) : ¬ RunsAcross s' i := by
  rintro ⟨j, u, m, h', hji, hij⟩
  obtain ⟨x, hx, rfl⟩ := h'.stop
  have hlt := h'.lt_length
  have hscan := h'.scan
  rw [nextStart_recased h] at hji hij hscan hlt
  rw [← h.length_eq] at hlt
  have hstop := (hx.of_recased h hs).lexeme hlt
  rcases Token.scan_recased (List.forall₂_drop (nextStart s x) h) with hsame | ⟨k, hk⟩
  · -- The token was there before, and ran across.
    rw [hscan] at hsame
    have := hstop.add_le_of_lt ht hji
    omega
  · -- A keyword holds no quote.
    rw [hscan] at hk
    have hstands := (read?_spec hk).of_recased h
    rw [hstands.not_isQuote (Nat.le_of_lt hji) hij hc] at hq
    cases hq

/-! ## 5. The characters of a quoted string -/

/-- The phrase of `m` characters at place `a` is put in capitals, and was not in capitals. -/
structure Rewritten (s : Text) (a m : Nat) : Prop where
  phrase : PhraseAt s a m
  notCopied : copied s a = false
  changes : ((s.drop a).take m).map capital ≠ (s.drop a).take m

theorem take_drop_eq_iff {s s' : Text} {i n : Nat} :
    (s'.drop i).take n = (s.drop i).take n ↔ ∀ p, i ≤ p → p < i + n → s'[p]? = s[p]? := by
  constructor
  · intro h p hip hp
    have hat : ∀ u : Text, u[p]? = ((u.drop i).take n)[p - i]? := by
      intro u
      rw [List.getElem?_take_of_lt (by omega), List.getElem?_drop, Nat.add_sub_of_le hip]
    rw [hat s', hat s, h]
  · intro h
    refine List.ext_getElem? fun p => ?_
    rcases Nat.lt_or_ge p n with hp | hp
    · rw [List.getElem?_take_of_lt hp, List.getElem?_take_of_lt hp, List.getElem?_drop,
        List.getElem?_drop]
      exact h (i + p) (Nat.le_add_right i p) (by omega)
    · rw [List.getElem?_take_eq_none hp, List.getElem?_take_eq_none hp]

/-- What stands between two quotes stays as it is if and only if no phrase in it changes: a
phrase holds no quote, so it lies between them or outside. -/
theorem take_capitalize_iff {s : Text} {i n : Nat} {c : Char} (hn : 0 < n)
    (hquote : isQuote c = true) (hfirst : s[i]? = some c) (hlast : s[i + n - 1]? = some c) :
    ((capitalize s).drop i).take n = (s.drop i).take n ↔
      ∀ a m, Rewritten s a m → ¬ (i < a ∧ a + m < i + n) := by
  rw [take_drop_eq_iff]
  constructor
  · rintro h a m ⟨hphrase, hcopied, hchanges⟩ ⟨hia, ham⟩
    refine hchanges (List.ext_getElem? fun p => ?_)
    rw [List.getElem?_map]
    rcases Nat.lt_or_ge p m with hp | hp
    · have hraised : Raised s (a + p) :=
        ⟨a, m, hphrase, hcopied, Nat.le_add_right a p, Nat.add_lt_add_left hp a⟩
      rw [List.getElem?_take_of_lt hp, List.getElem?_drop,
        ← capitalize_getElem?_of_raised hraised]
      exact h (a + p) (by omega) (by omega)
    · rw [List.getElem?_take_eq_none hp]
      rfl
  · intro h p hip hp
    by_cases hraised : Raised s p
    · obtain ⟨a, m, hphrase, hcopied, hap, hpm⟩ := hraised
      -- The phrase of the character holds neither of the two quotes.
      obtain ⟨ws, -, hstands⟩ := hphrase.stands
      have houtside : ∀ {j : Nat}, s[j]? = some c → ¬ (a ≤ j ∧ j < a + m) := by
        rintro j hj ⟨haj, hjm⟩
        rw [hstands.not_isQuote haj hjm hj] at hquote
        cases hquote
      have hbefore := houtside hfirst
      have hbehind := houtside hlast
      have hin : i < a ∧ a + m < i + n := by omega
      have hsame : ((s.drop a).take m).map capital = (s.drop a).take m := by
        by_contra hchanges
        exact h a m ⟨hphrase, hcopied, hchanges⟩ hin
      have hat := congrArg (fun u : Text => u[p - a]?) hsame
      rw [List.getElem?_map, List.getElem?_take_of_lt (by omega), List.getElem?_drop,
        Nat.add_sub_of_le hap] at hat
      rw [capitalize_getElem?_of_raised ⟨a, m, hphrase, hcopied, hap, hpm⟩, hat]
    · exact capitalize_getElem?_of_not_raised hraised

/-! ## 6. When a quoted string is kept -/

/-- The token `t` stands at place `i` of the text. -/
def TokenAt (s : Text) (i : Nat) (t : Token) : Prop :=
  ⟨t, Text.utf8Size (s.take i)⟩ ∈ tokenize s

instance (s : Text) (i : Nat) (t : Token) : Decidable (TokenAt s i t) :=
  inferInstanceAs (Decidable (_ ∈ _))

theorem tokenAt_iff : TokenAt s i t ↔ ∃ n, Lexeme s i t n := by
  rw [TokenAt, mem_tokenize_iff]
  constructor
  · rintro ⟨j, n, h, hb⟩
    obtain rfl := utf8Size_take_inj h.lt_length hb.symm
    exact ⟨n, h⟩
  · rintro ⟨n, h⟩
    exact ⟨i, n, h, rfl⟩

/-- A quoted string that is read starts and ends with a quote. -/
theorem Lexeme.quoted {q : Text} (h : Lexeme s i (.word q) n)
    (hq : quotedLength? q = some q.length) : n = q.length ∧ (s.drop i).take q.length = q ∧
      ∃ c, isQuote c = true ∧ s[i]? = some c ∧ s[i + q.length - 1]? = some c := by
  obtain ⟨rfl, htake⟩ := Token.take_of_scan h.scan
  refine ⟨rfl, htake, ?_⟩
  rw [quotedLength?_eq] at hq
  obtain ⟨c, hquote, hfirst, hlast⟩ := Quoted.length?_quotes hq
  have hpos := Quoted.length?_pos hq
  have hat : ∀ p < q.length, s[i + p]? = q[p]? := by
    intro p hp
    rw [← List.getElem?_drop, ← List.getElem?_take_of_lt hp, htake]
  refine ⟨c, hquote, (hat 0 hpos).trans hfirst, ?_⟩
  rw [Nat.add_sub_assoc hpos, hat (q.length - 1) (by omega)]
  exact hlast

/-- A quoted string is a token where its characters stand and no token runs across its
beginning. -/
theorem tokenAt_quoted_iff {q : Text} (hq : quotedLength? q = some q.length) :
    TokenAt s i (.word q) ↔ (s.drop i).take q.length = q ∧ ¬ RunsAcross s i := by
  rw [tokenAt_iff]
  constructor
  · rintro ⟨n, h⟩
    exact ⟨(h.quoted hq).2.1, h.not_runsAcross⟩
  · rintro ⟨htake, hacross⟩
    have hscan : Token.scan (s.drop i) = (.word q, q.length) := by
      rw [← List.take_append_drop q.length (s.drop i), htake]
      exact Token.scan_quoted hq _
    rw [quotedLength?_eq] at hq
    obtain ⟨c, hquote, hfirst, -⟩ := Quoted.length?_quotes hq
    have hat : s[i]? = some c := by
      rw [← hfirst, ← htake, List.getElem?_take_of_lt (Quoted.length?_pos hq), List.getElem?_drop]
      rfl
    obtain ⟨j, u, k, h, -, hji, hij⟩ :=
      Stop.start.exists_lexeme hat (not_isBlank_of_isQuote hquote) (Nat.zero_le i)
    obtain rfl : j = i := by
      by_contra hne
      exact hacross ⟨j, u, k, h, Nat.lt_of_le_of_ne hji hne, hij⟩
    exact ⟨q.length, h.stop, h.lt_length, hscan⟩

/-- **When a quoted string is kept.**  Putting the keywords of a text in capitals keeps a
quoted string of it, character by character and as a token at the same place, if and only if no
phrase inside it is rewritten and no token of the rewritten text runs across its beginning.
Where keywords stand apart from quotes, only the first can go wrong. -/
theorem quoted_kept_iff {q : Text} (hq : quotedLength? q = some q.length)
    (ht : TokenAt s i (.word q)) :
    (TokenAt (capitalize s) i (.word q) ↔
      (∀ a m, Rewritten s a m → ¬ (i < a ∧ a + m < i + q.length)) ∧
        ¬ RunsAcross (capitalize s) i) ∧
    (StandApart s → (TokenAt (capitalize s) i (.word q) ↔
      ∀ a m, Rewritten s a m → ¬ (i < a ∧ a + m < i + q.length))) := by
  obtain ⟨n, h⟩ := tokenAt_iff.mp ht
  obtain ⟨rfl, htake, c, hquote, hfirst, hlast⟩ := h.quoted hq
  have hchars := take_capitalize_iff h.pos hquote hfirst hlast
  rw [htake] at hchars
  have hkept := tokenAt_quoted_iff (s := capitalize s) (i := i) hq
  rw [hchars] at hkept
  refine ⟨hkept, fun hs => ?_⟩
  have hacross := not_runsAcross_of_recased (capitalize_recased s) hs h hfirst hquote
  exact hkept.trans (and_iff_left hacross)

/-- In `a = 'x and y' or b` the string is kept: it is copied, and the `or` behind it is not
inside it. -/
theorem quoted_kept_behind_blank :
    let s := "a = 'x and y' or b".toList
    let q := "'x and y'".toList
    quotedLength? q = some q.length ∧ TokenAt s 4 (.word q) ∧
      capitalize s = "a = 'x and y' OR b".toList ∧ TokenAt (capitalize s) 4 (.word q) := by
  intro s q
  have hq : quotedLength? q = some q.length := by decide
  have ht : TokenAt s 4 (.word q) := by decide +kernel
  have hs : StandApart s := by
    have htokens : tokenize s = [⟨.word ['a'], 0⟩, ⟨.compare .equal, 2⟩, ⟨.word q, 4⟩,
        ⟨.word ['o', 'r'], 14⟩, ⟨.word ['b'], 17⟩] := by decide +kernel
    have hall : ∀ w ∈ [['a'], q, ['o', 'r'], ['b']], ∀ n ∈ foldedLength? w, n = w.length := by
      decide
    intro w b hmem n hn
    refine hall w ?_ n hn
    rw [htokens] at hmem
    simp only [List.mem_cons, Placed.mk.injEq, Token.word.injEq, reduceCtorEq, false_and,
      List.not_mem_nil, or_false, false_or] at hmem ⊢
    rcases hmem with h | h | h | h
    · exact Or.inl h.1
    · exact Or.inr (Or.inl h.1)
    · exact Or.inr (Or.inr (Or.inl h.1))
    · exact Or.inr (Or.inr (Or.inr h.1))
  refine ⟨hq, ht, by decide +kernel, ((quoted_kept_iff hq ht).2 hs).mpr ?_⟩
  rintro a m ⟨-, hcopied, -⟩ ⟨hia, ham⟩
  have hall : ∀ a < 13, 4 < a → copied s a = true := by decide
  rw [hall a (by have : q.length = 9 := rfl; omega) hia] at hcopied
  cases hcopied

/-- In `a IN'x and y'` it is not: the lexer starts a string behind the keyword, and the reader
that copies spans does not. -/
theorem quoted_changed_behind_keyword :
    let s := "a IN'x and y'".toList
    let q := "'x and y'".toList
    quotedLength? q = some q.length ∧ TokenAt s 4 (.word q) ∧
      capitalize s = "a IN'x AND y'".toList ∧ ¬ TokenAt (capitalize s) 4 (.word q) := by
  intro s q
  have hq : quotedLength? q = some q.length := by decide
  have ht : TokenAt s 4 (.word q) := by decide +kernel
  have hs : capitalize s = "a IN'x AND y'".toList := by decide +kernel
  refine ⟨hq, ht, hs, ?_⟩
  rw [hs]
  decide +kernel

end Sieve
