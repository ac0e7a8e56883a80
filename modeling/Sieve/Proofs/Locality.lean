/-
# The lexer is local

A text behind a blank does not change the tokens in front of the blank, and is itself read as if it
stood alone, its places counted on.  Two kinds of word are not settled by what they hold.  A quote
that is not closed may be closed by any text that follows, however far behind.  And `IS` or `NOT` at
the end may become a keyword with the tokens that follow.  In these cases some text that follows
does change the tokens, so they are the only ones.

* `Keyword.read?_append`: a keyword that is read is read in front of more text;
* `Leads.append`: what is read off the front is read off the front of more text;
* `Settled`: the tokens that no text can change;
* `tokenizeFrom_append`: behind them the lexer starts anew;
* `not_completes_of_tokens`: the tokens of a text never make a keyword of a word in front of them;
* `tokenize_append_iff`: which texts are settled.
-/
import Sieve.Proofs.Reprint

namespace Sieve

/-! ## 1. Keywords in front of more text -/

theorem Text.gap_add_length (s : Text) : gap s + (trimStart s).length = s.length := by
  rw [gap, trimStart, ← List.length_append, List.takeWhile_append_dropWhile]

namespace Keyword

variable {k k' : Keyword} {s : Text} {n n' : Nat}

/-- At one place stands one keyword. -/
theorem closedPhrase?_unique (h : closedPhrase? (· == ·) k.words s = some n)
    (h' : closedPhrase? (· == ·) k'.words s = some n') : k = k' ∧ n = n' := by
  have hstands := stands_of_closedPhrase? (b := 0) h
  have hstands' := stands_of_closedPhrase? (b := 0) h'
  have hle := hstands.add_le_add (words_mem_phrases k) hstands' (words_mem_phrases k')
    (Nat.le_refl 0) (by simpa using hstands.pos) (by simp)
  have hge := hstands'.add_le_add (words_mem_phrases k') hstands (words_mem_phrases k)
    (Nat.le_refl 0) (by simpa using hstands'.pos) (by simp)
  obtain rfl : n = n' := by omega
  have htext := (collapse_of_closedPhrase? h).1.symm.trans (collapse_of_closedPhrase? h').1
  refine ⟨?_, rfl⟩
  cases k <;> cases k' <;> first | rfl | exact absurd htext (by decide)

theorem read?_eq_some_iff : read? s = some (k, n) ↔
    closedPhrase? (· == ·) k.words s = some n := by
  refine ⟨closedPhrase?_of_read?, fun h => ?_⟩
  cases hread : read? s with
  | none =>
    rw [read?_eq_none_iff.mp hread k] at h
    cases h
  | some found =>
    obtain ⟨rfl, rfl⟩ := closedPhrase?_unique (closedPhrase?_of_read? hread) h
    rfl

theorem endsWord_append {r x : Text} (hr : endsWord r = true) (hx : endsWord x = true) :
    endsWord (r ++ x) = true := by
  cases r with
  | nil => exact hx
  | cons c r => exact hr

/-- More text behind a phrase does not change it, where a keyword may end. -/
theorem closedPhrase?_append {x : Text} (hx : endsWord x = true) {ws : List Text} :
    ∀ {w : Text}, (∀ v ∈ ws, v ≠ []) → closedPhrase? (· == ·) (w :: ws) s = some n →
      closedPhrase? (· == ·) (w :: ws) (s ++ x) = some n := by
  induction ws generalizing s n with
  | nil =>
    intro w _ h
    obtain ⟨v, r, hv, rfl, hr, -⟩ := first_of_closedPhrase? (by simp) h
    obtain rfl := Option.some.inj hv
    rw [closedPhrase?_last, if_pos hr] at h
    rw [List.append_assoc, closedPhrase?_last, if_pos (endsWord_append hr hx), h]
  | cons next ws ih =>
    intro w hne h
    obtain ⟨hnext, hws⟩ := List.forall_mem_cons.mp hne
    obtain ⟨v, r, hv, rfl, -, -⟩ := first_of_closedPhrase? (by simp) h
    obtain rfl := Option.some.inj hv
    rw [closedPhrase?_cons] at h
    split at h
    · cases h
    rename_i hgap
    obtain ⟨m, hm, rfl⟩ := Option.map_eq_some_iff.mp h
    -- the next word ends the blanks, so they do not go on in `x`
    obtain ⟨v, r', hv, hfront, -, -⟩ := first_of_closedPhrase? (by simp) hm
    obtain rfl := Option.some.inj hv
    have hnonempty : Text.trimStart r ≠ [] := by simp [hfront, hnext]
    have htrim : Text.trimStart (r ++ x) = Text.trimStart r ++ x := by
      rw [Text.trimStart, List.dropWhile_append, if_neg (by simpa [Text.trimStart] using hnonempty)]
      rfl
    have hsame : Text.gap (r ++ x) = Text.gap r := by
      have hlength := congrArg List.length htrim
      have hr := Text.gap_add_length r
      have hrx := Text.gap_add_length (r ++ x)
      simp only [List.length_append] at hlength hrx
      omega
    rw [List.append_assoc, closedPhrase?_cons, hsame, if_neg hgap, htrim, ih hws hm]
    rfl

/-- **A keyword that is read** is read in front of more text, where a keyword may end. -/
theorem read?_append {x : Text} (hx : endsWord x = true) (h : read? s = some (k, n)) :
    read? (s ++ x) = some (k, n) := by
  rw [read?_eq_some_iff] at h ⊢
  obtain ⟨w, ws, hwords⟩ :=
    List.exists_cons_of_ne_nil (capitals_of_mem_phrases (words_mem_phrases k)).1
  rw [hwords] at h ⊢
  refine closedPhrase?_append hx (fun v hv => ?_) h
  exact (letters_of_mem_words (k := k) (by simp [hwords, hv])).1

end Keyword

/-! ## 2. Tokens in front of more text -/

/-- A token that is no word is a symbol, a keyword or a parenthesis. -/
theorem Token.scan_cases {s : Text} {t : Token} {n : Nat} (h : Token.scan s = (t, n)) :
    (∃ op, symbol? s = some op ∧ (t, n) = (compare op, op.text.length)) ∨
    (symbol? s = none ∧ ∃ k, Keyword.read? s = some (k, n) ∧ t = k.token) ∨
    (∃ r, s = '(' :: r ∧ (t, n) = (openParen, 1)) ∨ (∃ r, s = ')' :: r ∧ (t, n) = (closeParen, 1)) ∨
    ∃ w, t = word w := by
  unfold Token.scan at h
  split at h
  · rename_i op hop
    exact Or.inl ⟨op, hop, h.symm⟩
  rename_i hsymbol
  split at h
  · rename_i k m hk
    cases h
    exact Or.inr (Or.inl ⟨hsymbol, k, hk, rfl⟩)
  split at h
  · exact Or.inr (Or.inr (Or.inl ⟨_, rfl, h.symm⟩))
  · exact Or.inr (Or.inr (Or.inr (Or.inl ⟨_, rfl, h.symm⟩)))
  · exact Or.inr (Or.inr (Or.inr (Or.inr ⟨_, (Prod.mk.inj h).1.symm⟩)))

section

variable {u r x : Text} {t : Token}

/-- **What is read off the front** is read off the front of more text, unless it is a word that
starts with a quote that is not closed, or one of which the tokens of the text make a keyword. -/
theorem Leads.append (h : Leads u t r) (hx : ∀ c ∈ x.head?, isBlank c = true)
    (hclosed : t = .word u → (∃ c ∈ u.head?, isQuote c = true) → quotedLength? u = some u.length)
    (htokens : t = .word u → Keyword.Completes u (r ++ x).tokens → Keyword.Completes u r.tokens) :
    Leads u t (r ++ x) := by
  have hbare : ∀ c ∈ x.head?, endsBareWord c = true := fun c hc => by simp [endsBareWord, hx c hc]
  have hends : ∀ c ∈ x.head?, endsWord [c] = true :=
    fun c hc => endsWord_of_endsBareWord (hbare c hc)
  have hsymbol : symbol? (u ++ (r ++ x)) = symbol? (u ++ r) := by
    rw [← List.append_assoc, symbol?_append _ fun c hc => Or.inl (hends c hc)]
  rcases Token.scan_cases h.scan with ⟨op, hop, heq⟩ | ⟨hnone, k, hk, rfl⟩ | ⟨r', hs, heq⟩ |
    ⟨r', hs, heq⟩ | ⟨w, rfl⟩
  · refine ⟨h.starts, ?_⟩
    unfold Token.scan
    rw [hsymbol, hop, heq]
  · have hread := Keyword.read?_append (endsWord_of_head? hends) hk
    rw [List.append_assoc] at hread
    refine ⟨h.starts, ?_⟩
    unfold Token.scan
    rw [hsymbol, hnone, hread]
  · obtain ⟨rfl, hlength⟩ := Prod.mk.inj heq
    obtain ⟨c, rfl⟩ := List.length_eq_one_iff.mp hlength
    cases hs
    exact leads_openParen _
  · obtain ⟨rfl, hlength⟩ := Prod.mk.inj heq
    obtain ⟨c, rfl⟩ := List.length_eq_one_iff.mp hlength
    cases hs
    exact leads_closeParen _
  · obtain rfl := h.eq_word
    by_cases hquoted : quotedLength? u = some u.length
    · exact leads_quoted hquoted _
    have hquote : ∀ c ∈ u.head?, isQuote c = false := by
      intro c hc
      by_contra hq
      exact hquoted (hclosed rfl ⟨c, hc, by simpa using hq⟩)
    refine h.behind hquote (fun c hc => ?_) (htokens rfl)
    cases r with
    | nil => exact hbare c hc
    | cons d r => exact (h.bare hquoted).2 c hc

end

/-! ## 3. Tokens and places -/

section

variable {g u r : Text} {t : Token}

theorem tokenizeFrom_blanks (hg : ∀ c ∈ g, isBlank c = true) (p : Nat) : tokenizeFrom p g = [] := by
  rw [tokenizeFrom]
  split
  · rfl
  · rename_i h
    rw [Text.trimStart_blanks hg] at h
    cases h

/-- A token behind blanks, with its place, and the tokens behind it. -/
theorem tokenizeFrom_lead (hg : ∀ c ∈ g, isBlank c = true) (h : Leads u t r) (p : Nat) :
    tokenizeFrom p (g ++ (u ++ r)) =
      ⟨t, p + Text.utf8Size g⟩ :: tokenizeFrom (p + Text.utf8Size g + Text.utf8Size u) r := by
  have htrim := Text.trimStart_append hg (u ++ r)
  rw [h.trimStart] at htrim
  obtain ⟨⟨c, w, rfl, hc⟩, hscan⟩ := h
  have hgap : (g ++ (c :: w ++ r)).take (Text.gap (g ++ (c :: w ++ r))) = g := by
    rw [Text.gap, Keyword.takeWhile_run hg (by simpa using hc), List.take_left]
  rw [tokenizeFrom]
  split
  · rename_i hnil
    rw [htrim] at hnil
    cases hnil
  · rename_i d r' hcons
    rw [htrim, List.cons_append] at hcons
    obtain ⟨rfl, rfl⟩ := List.cons.inj hcons
    rw [List.cons_append] at hscan
    simp only [hgap, hscan, List.length_cons, Nat.add_sub_cancel, List.take_left, List.drop_left]

/-- Blanks in front of a text count for the places alone. -/
theorem tokenizeFrom_append_blanks (hg : ∀ c ∈ g, isBlank c = true) (p : Nat) (s : Text) :
    tokenizeFrom p (g ++ s) = tokenizeFrom (p + Text.utf8Size g) s := by
  have happend : ∀ {g' : Text}, (∀ c ∈ g', isBlank c = true) → ∀ c ∈ g ++ g', isBlank c = true :=
    fun hg' c hc => (List.mem_append.mp hc).elim (hg c) (hg' c)
  induction s using Text.lead_induction with
  | blanks g' hg' => rw [tokenizeFrom_blanks (happend hg'), tokenizeFrom_blanks hg']
  | token g' u r t hg' h _ =>
    rw [← List.append_assoc g, tokenizeFrom_lead (happend hg') h, tokenizeFrom_lead hg' h,
      Text.utf8Size_append, ← Nat.add_assoc p]

end

/-- A token so many bytes on. -/
def Placed.shift (n : Nat) (t : Placed) : Placed := ⟨t.token, t.position + n⟩

/-- Where a text stands counts for the places alone. -/
theorem tokenizeFrom_eq_map_shift (s : Text) :
    ∀ p, tokenizeFrom p s = (tokenize s).map (.shift p) := by
  unfold tokenize
  induction s using Text.lead_induction with
  | blanks g hg =>
    intro p
    rw [tokenizeFrom_blanks hg, tokenizeFrom_blanks hg, List.map_nil]
  | token g u r t hg h ih =>
    intro p
    rw [tokenizeFrom_lead hg h, tokenizeFrom_lead hg h, List.map_cons, ih, ih (0 + _ + _),
      List.map_map]
    have hshift : ∀ n m : Nat, Placed.shift n ∘ Placed.shift m = Placed.shift (n + m) := by
      intro n m
      funext t
      simp only [Function.comp_apply, Placed.shift, Placed.mk.injEq, true_and]
      omega
    rw [hshift, Nat.zero_add, Placed.shift, Nat.add_comm g.utf8Size p, Nat.add_assoc]

/-! ## 4. Settled tokens -/

/-- No text that follows can change the tokens: a word that starts with a quote is a closed string,
and the last token is not the word `IS` or `NOT`. -/
structure Settled (ts : List Token) : Prop where
  closed : ∀ w, .word w ∈ ts → (∃ c ∈ w.head?, isQuote c = true) →
    quotedLength? w = some w.length
  not_is : ts.getLast? ≠ some (.word "IS".toList)
  not_not : ts.getLast? ≠ some (.word "NOT".toList)

theorem Settled.tail {t : Token} {ts : List Token} (h : Settled (t :: ts)) : Settled ts := by
  refine ⟨fun w hw => h.closed w (List.mem_cons_of_mem t hw), ?_, ?_⟩
  · intro hlast
    exact h.not_is (by simp [List.getLast?_cons, hlast])
  · intro hlast
    exact h.not_not (by simp [List.getLast?_cons, hlast])

namespace Keyword

/-- Words that are more than the tokens in front of others reach up to the last of these. -/
theorem Begins.of_append {us : List Token} : ∀ {ws : List Text} {ts : List Token} {w : Text},
    Begins ws (ts ++ us) → Begins ws ts ∨
      ∃ v ∈ (w :: ws).dropLast, (Token.word w :: ts).getLast? = some (.word v)
  | [], ts, w, h => by simp [Begins] at h
  | next :: ws, [], w, _ => Or.inr ⟨w, by simp, rfl⟩
  | [v], t :: ts, w, h => Or.inl h
  | v :: next :: ws, t :: ts, w, h => by
    obtain ⟨rfl, h⟩ := h
    rcases Begins.of_append (w := v) h with h | ⟨x, hx, hlast⟩
    · exact Or.inl ⟨rfl, h⟩
    · refine Or.inr ⟨x, ?_, by rw [List.getLast?_cons_cons, hlast]⟩
      rw [List.dropLast_cons_cons]
      exact List.mem_cons_of_mem w hx

/-- **More tokens make no keyword** of the tokens in front of them, unless the last of these is `IS`
or `NOT`. -/
theorem Completes.of_append {u : Text} {ts us : List Token} (hts : Settled (.word u :: ts))
    (h : Completes u (ts ++ us)) : Completes u ts := by
  obtain ⟨k, ws, hk, h⟩ := h
  rcases h.of_append (w := u) with h | ⟨v, hv, hlast⟩
  · exact ⟨k, ws, hk, h⟩
  · have hall : ∀ k : Keyword, ∀ v ∈ k.words.dropLast, v = "IS".toList ∨ v = "NOT".toList := by
      intro k
      cases k <;> decide
    rcases hall k v (hk ▸ hv) with rfl | rfl
    · exact absurd hlast hts.not_is
    · exact absurd hlast hts.not_not

end Keyword

/-- **Behind settled tokens the lexer starts anew**, where a blank follows. -/
theorem tokenizeFrom_append {x : Text} (hx : ∀ c ∈ x.head?, isBlank c = true) (a : Text) :
    Settled a.tokens → ∀ p, tokenizeFrom p (a ++ x) =
      tokenizeFrom p a ++ tokenizeFrom (p + Text.utf8Size a) x := by
  induction a using Text.lead_induction with
  | blanks g hg =>
    intro _ p
    rw [tokenizeFrom_append_blanks hg, tokenizeFrom_blanks hg, List.nil_append]
  | token g u r t hg h ih =>
    intro hsettled p
    rw [h.tokens_append hg] at hsettled
    have ih := ih hsettled.tail
    have htokens : (r ++ x).tokens = r.tokens ++ x.tokens := by
      rw [Text.tokens, tokenize, ih 0, List.map_append, Text.map_token_tokenizeFrom _ 0 x]
      rfl
    have hlead : Leads u t (r ++ x) := by
      refine h.append hx ?_ ?_
      · rintro rfl
        exact hsettled.closed u List.mem_cons_self
      · rintro rfl hcompletes
        rw [htokens] at hcompletes
        exact hcompletes.of_append hsettled
    have hassoc : g ++ (u ++ r) ++ x = g ++ (u ++ (r ++ x)) := by simp only [List.append_assoc]
    have hsize : p + Text.utf8Size (g ++ (u ++ r)) =
        p + Text.utf8Size g + Text.utf8Size u + Text.utf8Size r := by
      simp only [Text.utf8Size_append, Nat.add_assoc]
    rw [hassoc, tokenizeFrom_lead hg hlead, ih, tokenizeFrom_lead hg h, List.cons_append, hsize]

/-! ## 5. Tokens that are not settled -/

/-- **The tokens of a text** never make a keyword of a bare word in front of them: the keyword would
have been read. -/
theorem not_completes_of_tokens {u : Text} (hquote : ∀ c ∈ u.head?, isQuote c = false)
    {ts : List Token} (s : Text) : ∀ pre : List Token, s.tokens = pre ++ .word u :: ts →
      ¬ Keyword.Completes u ts := by
  induction s using Text.lead_induction with
  | blanks g hg =>
    intro pre h
    rw [Text.tokens_blanks hg] at h
    simp at h
  | token g v r t hg h ih =>
    intro pre hts
    rw [h.tokens_append hg] at hts
    cases pre with
    | cons t' pre => exact ih pre (List.cons.inj hts).2
    | nil =>
      obtain ⟨rfl, rfl⟩ := List.cons.inj hts
      obtain rfl := h.eq_word
      have hread := (Token.scan_word h.scan).2.1
      obtain ⟨hu, hr⟩ := h.bare (by simp [quotedLength?_eq_none hquote])
      exact ((Keyword.read?_bare_eq_none_iff hu hr).mp hread).2

open Quoting in
/-- A quote behind a blank closes every span that is open. -/
theorem not_staysOpen_quote {q : Char} (hq : isQuote q = true) (v : Text) :
    ¬ StaysOpen (.inside q) (v ++ [' ', q]) := by
  intro h
  obtain ⟨hv, hrest⟩ := staysOpen_append.mp h
  have hopen : StaysOpen (.inside q) [' ', q] := by
    rcases hv.behind (Or.inl rfl) with hk | hk
    · rwa [hk] at hrest
    · rw [hk] at hrest
      exact (staysOpen_escaped hq (by rintro c ⟨⟩; rfl)).mp hrest
  have hspace : Plain [' '] := by decide
  have hquote : StaysOpen (.inside q) [q] := (staysOpen_plain hq hspace).mp hopen
  have hslash : q ≠ '\\' := ne_of_isQuote hq (by decide)
  exact hquote.2 (by simp [next, hslash])

/-- A word that starts with a quote and stays as it is in front of a blank and that quote is a
closed string. -/
theorem quotedLength?_of_mem_append {a w : Text} {q : Char} {b : Nat} (hq : isQuote q = true)
    (hw : w.head? = some q) (h : ⟨.word w, b⟩ ∈ tokenize a)
    (h' : ⟨.word w, b⟩ ∈ tokenize (a ++ [' ', q])) : quotedLength? w = some w.length := by
  obtain ⟨i, n, hlexeme, rfl⟩ := mem_tokenize_iff.mp h
  have hlt := hlexeme.lt_length
  have htake : (a ++ [' ', q]).take i = a.take i := List.take_append_of_le_length (Nat.le_of_lt hlt)
  rw [← htake] at h'
  obtain ⟨m, hlexeme'⟩ := tokenAt_iff.mp h'
  have hscan := hlexeme'.scan
  rw [List.drop_append_of_le_length (Nat.le_of_lt hlt)] at hscan
  -- the text at this place starts with the quote
  obtain ⟨v, hv⟩ : ∃ v, a.drop i = q :: v := by
    obtain ⟨-, htake⟩ := Token.take_of_scan hlexeme.scan
    obtain ⟨w, rfl⟩ := List.head?_eq_some_iff.mp hw
    obtain ⟨r, hr⟩ : q :: w <+: a.drop i := htake ▸ List.take_prefix n (a.drop i)
    exact ⟨w ++ r, hr.symm⟩
  have hclosed : Quoted.closing? (fun _ => true) q (v ++ [' ', q]) ≠ none :=
    fun hnone => not_staysOpen_quote hq v (Quoted.closing?_eq_none_iff.mp hnone)
  obtain ⟨k, hk⟩ := Option.ne_none_iff_exists'.mp hclosed
  refine quotedLength?_of_scan hscan (m := k + 1) ?_
  rw [hv, List.cons_append, quotedLength?, if_pos hq, hk, Option.map_some]

/-- A last word of which tokens behind a blank make a keyword is changed by them. -/
theorem getLast?_ne_of_completes {a b u : Text} (hquote : ∀ c ∈ u.head?, isQuote c = false)
    (hb : Keyword.Completes u b.tokens) (h : (a ++ [' '] ++ b).tokens = a.tokens ++ b.tokens) :
    a.tokens.getLast? ≠ some (.word u) := by
  intro hlast
  obtain ⟨pre, hpre⟩ := List.getLast?_eq_some_iff.mp hlast
  rw [hpre] at h
  exact not_completes_of_tokens hquote _ pre (h.trans (List.append_assoc pre [_] _)) hb

/-- **The lexer is local.**  Whatever stands behind a blank, the tokens in front of it are those of
the text in front of it, and those behind it are those of the text behind it, counted on by the
bytes in front of it, if and only if the tokens of the first text are settled: no word of it starts
with a quote and is no closed string, and its last token is neither the word `IS` nor `NOT`. -/
theorem tokenize_append_iff (a : Text) :
    (∀ gap b : Text, gap ≠ [] → (∀ c ∈ gap, isBlank c = true) → tokenize (a ++ gap ++ b) =
      tokenize a ++ (tokenize b).map (.shift (Text.utf8Size (a ++ gap)))) ↔ Settled a.tokens := by
  constructor
  · intro h
    have hspace := fun b => h [' '] b (by decide) (List.forall_mem_singleton.mpr rfl)
    have htokens : ∀ b : Text, (a ++ [' '] ++ b).tokens = a.tokens ++ b.tokens := by
      intro b
      rw [Text.tokens, hspace b, List.map_append, List.map_map]
      rfl
    refine ⟨?_, ?_, ?_⟩
    · rintro w hw ⟨q, hq, hquote⟩
      obtain ⟨⟨t, b⟩, ht, rfl⟩ := List.mem_map.mp hw
      refine quotedLength?_of_mem_append hquote hq ht ?_
      have hmem :=
        List.mem_append_left ((tokenize [q]).map (.shift (Text.utf8Size (a ++ [' '])))) ht
      rwa [← hspace, List.append_assoc] at hmem
    · have hnull : Text.tokens "NULL".toList = [.word "NULL".toList] := by decide +kernel
      refine getLast?_ne_of_completes (by rintro c ⟨⟩; rfl) ?_ (htokens "NULL".toList)
      rw [hnull]
      exact ⟨.isNull, _, rfl, rfl⟩
    · have hin : Text.tokens "IN".toList = [.membership .inList] := by decide +kernel
      refine getLast?_ne_of_completes (by rintro c ⟨⟩; rfl) ?_ (htokens "IN".toList)
      rw [hin]
      exact ⟨.notInList, _, rfl, rfl⟩
  · intro h gap b hne hgap
    have hx : ∀ c ∈ (gap ++ b).head?, isBlank c = true := by
      intro c hc
      cases gap with
      | nil => exact absurd rfl hne
      | cons d gap =>
        obtain rfl : d = c := Option.some.inj hc
        exact hgap d List.mem_cons_self
    rw [List.append_assoc, tokenize, tokenizeFrom_append hx a h, tokenizeFrom_append_blanks hgap,
      tokenizeFrom_eq_map_shift b, Nat.zero_add, ← Text.utf8Size_append]
    rfl

/-- The tokens of `it's IN 'b c'` are settled: a quote inside a word opens nothing, and the string
is closed. -/
theorem tokenize_append_closed :
    let a : Text := "it's IN 'b c'".toList
    Settled a.tokens ∧ ∀ gap b : Text, gap ≠ [] → (∀ c ∈ gap, isBlank c = true) →
      tokenize (a ++ gap ++ b) =
        tokenize a ++ (tokenize b).map (.shift (Text.utf8Size (a ++ gap))) := by
  intro a
  have htokens : a.tokens =
      [.word "it's".toList, .membership .inList, .word "'b c'".toList] := by decide +kernel
  have hsettled : Settled a.tokens := by
    rw [htokens]
    refine ⟨?_, by decide, by decide⟩
    rintro w hw ⟨c, hc, hq⟩
    simp only [List.mem_cons, Token.word.injEq, reduceCtorEq, List.not_mem_nil, or_false,
      false_or] at hw
    rcases hw with rfl | rfl
    · cases hc
      cases hq
    · decide
  exact ⟨hsettled, (tokenize_append_iff a).mpr hsettled⟩

end Sieve
