/-
# Tokens, written out and read again

The tokens of any text, written with a space between, are read as these tokens.  Nothing is asked
of the text: its words may hold quotes that are never closed, and keywords may be written with any
blanks.

Two things that the lexer looks at could change.  A bare word may begin a keyword, which is told by
the tokens behind it, and these are the same.  And a quote that is not closed may be closed by what
is written in place of the rest.  It is not: between quotes and backslashes nothing is taken away
or added but blanks, keywords and symbols, and a backslash at the end of a word protects a blank or
a parenthesis in the text and a space here.

* `Quoting.StaysOpen`, `Quoted.closing?_eq_none_iff`: spans that are not closed;
* `staysOpen_spaced`: a span that the text does not close is not closed by its tokens;
* `Leads.spaced`: so each token is read again;
* `Text.tokens_reprint`: all tokens are.
-/
import Sieve.Proofs.ListQuotes
import Sieve.Proofs.Lookahead
import Sieve.Proofs.Print

namespace Sieve

/-! ## 1. Spans that stay open -/

namespace Quoting

/-- The span is not closed to the end of the text. -/
def StaysOpen : Quoting → Text → Prop
  | k, [] => k ≠ outside
  | k, c :: s => k ≠ outside ∧ StaysOpen (k.next c) s

variable {k : Quoting} {q : Char} {u r : Text}

theorem StaysOpen.ne_outside (h : StaysOpen k r) : k ≠ outside := by
  cases r with
  | nil => exact h
  | cons c r => exact h.1

theorem staysOpen_append : StaysOpen k (u ++ r) ↔
    StaysOpen k u ∧ StaysOpen (u.foldl next k) r := by
  induction u generalizing k with
  | nil => exact ⟨fun h => ⟨h.ne_outside, h⟩, fun h => h.2⟩
  | cons c u ih => rw [List.cons_append, StaysOpen, StaysOpen, ih, List.foldl_cons, and_assoc]

/-- Behind a text that leaves the span open, a character may or may not be protected. -/
theorem StaysOpen.behind (h : StaysOpen k u) (hk : k = inside q ∨ k = escaped q) :
    u.foldl next k = inside q ∨ u.foldl next k = escaped q := by
  induction u generalizing k with
  | nil => exact hk
  | cons c u ih =>
    refine ih h.2 ?_
    have hnext := h.2.ne_outside
    rcases hk with rfl | rfl
    · by_cases hslash : c = '\\'
      · exact Or.inr (if_pos hslash)
      · have hc : c ≠ q := fun hc => hnext (by rw [next, if_neg hslash, if_pos hc])
        exact Or.inl (by rw [next, if_neg hslash, if_neg hc])
    · exact Or.inl rfl

/-- The text holds neither quotes nor backslashes. -/
def Plain (u : Text) : Prop := ∀ c ∈ u, isQuote c = false ∧ c ≠ '\\'

instance (u : Text) : Decidable (Plain u) :=
  List.decidableBAll (fun c => isQuote c = false ∧ c ≠ '\\') u

/-- Such a text does not matter to a span. -/
theorem staysOpen_plain (hq : isQuote q = true) (hu : Plain u) :
    StaysOpen (inside q) (u ++ r) ↔ StaysOpen (inside q) r := by
  induction u with
  | nil => rfl
  | cons c u ih =>
    obtain ⟨⟨hc, hslash⟩, hu⟩ := List.forall_mem_cons.mp hu
    have hnext : next (inside q) c = inside q := by
      simp [next, hslash, (ne_of_isQuote hq hc).symm]
    rw [List.cons_append, StaysOpen, hnext, ih hu]
    exact and_iff_right (by simp)

theorem plain_of_endsBareWord (hu : ∀ c ∈ u, endsBareWord c = true) : Plain u := by
  intro c hc
  have hends := hu c hc
  simp only [endsBareWord, Bool.or_eq_true, beq_iff_eq] at hends
  rcases hends with (hblank | rfl) | rfl
  · refine ⟨Keyword.not_isQuote_of_isBlank hblank, ?_⟩
    rintro rfl
    exact absurd hblank (by decide)
  · decide
  · decide

theorem plain_of_isBlank (hu : ∀ c ∈ u, isBlank c = true) : Plain u :=
  plain_of_endsBareWord fun c hc => by simp [endsBareWord, hu c hc]

/-- A blank or a parenthesis does not close a span, protected or not. -/
theorem staysOpen_escaped (hq : isQuote q = true) (hr : ∀ c ∈ r.head?, endsBareWord c = true) :
    StaysOpen (escaped q) r ↔ StaysOpen (inside q) r := by
  cases r with
  | nil => simp [StaysOpen]
  | cons c r =>
    have hc : Plain [c] := plain_of_endsBareWord (by simpa using hr)
    have hplain : StaysOpen (inside q) (c :: r) ↔ StaysOpen (inside q) r := staysOpen_plain hq hc
    rw [hplain, StaysOpen, next]
    exact and_iff_right (by simp)

end Quoting

open Quoting

/-- A span that is never closed stays open. -/
theorem Quoted.closing?_eq_none_iff {q : Char} {s : Text} :
    closing? (fun _ => true) q s = none ↔ StaysOpen (.inside q) s := by
  fun_induction closing? (fun _ => true) q s with
  | case1 => simp [StaysOpen]
  | case2 c hc =>
    obtain ⟨hslash, rfl⟩ := hc
    simp [StaysOpen, next, hslash]
  | case3 c hc =>
    by_cases hslash : c = '\\'
    · simp [StaysOpen, next, hslash]
    · have hne : c ≠ q := fun h => hc ⟨hslash, h⟩
      simp [StaysOpen, next, hslash, hne]
  | case4 d r _ ih => simp [StaysOpen, next, ih]
  | case5 d r hp => exact absurd rfl hp
  | case6 d r hslash => simp [StaysOpen, next, hslash]
  | case7 c d r hslash hc ih => rw [StaysOpen, next, if_neg hslash, if_neg hc, ← ih]; simp

/-! ## 2. A span that the text leaves open -/

theorem Keyword.Apart.endsBareWord {y : Text} (h : Keyword.Apart y) :
    ∀ c ∈ y.head?, endsBareWord c = true := by
  intro c hc
  rw [h c hc]
  rfl

/-- Where blanks are collapsed, no other character is left out. -/
theorem Text.mem_collapse {s : Text} {c : Char} (hc : c ∈ s) (hblank : isBlank c = false) :
    c ∈ collapse s := by
  induction s with
  | nil => cases hc
  | cons d r ih =>
    rw [collapse]
    rcases List.mem_cons.mp hc with rfl | hc
    · simp [hblank]
    · have hmem := ih hc
      split_ifs <;> simp [hmem]

section

variable {q : Char} {u r y : Text} {t : Token}

/-- A word leaves a span open in front of `y` if it does in front of the text behind it, as long
as what it protects there and in `y` is no quote. -/
theorem Quoting.StaysOpen.of_bare (hq : isQuote q = true)
    (hr : ∀ c ∈ r.head?, endsBareWord c = true) (hy : ∀ c ∈ y.head?, endsBareWord c = true)
    (hrest : StaysOpen (.inside q) r → StaysOpen (.inside q) y)
    (h : StaysOpen (.inside q) (u ++ r)) : StaysOpen (.inside q) (u ++ y) := by
  obtain ⟨hu, hopen⟩ := staysOpen_append.mp h
  refine staysOpen_append.mpr ⟨hu, ?_⟩
  rcases hu.behind (Or.inl rfl) with hk | hk
  · rw [hk] at hopen ⊢
    exact hrest hopen
  · rw [hk] at hopen ⊢
    exact (staysOpen_escaped hq hy).mpr (hrest ((staysOpen_escaped hq hr).mp hopen))

/-- A closed string that leaves a span open protects nothing behind it. -/
theorem Quoting.StaysOpen.of_quoted {w : Text} (hw : quotedLength? w = some w.length)
    (hrest : StaysOpen (.inside q) r → StaysOpen (.inside q) y)
    (h : StaysOpen (.inside q) (w ++ r)) : StaysOpen (.inside q) (w ++ y) := by
  obtain ⟨hopen, hr⟩ := staysOpen_append.mp h
  refine staysOpen_append.mpr ⟨hopen, ?_⟩
  suffices hk : w.foldl next (.inside q) = .inside q by
    rw [hk] at hr ⊢
    exact hrest hr
  -- its last character is a quote
  rw [quotedLength?_eq] at hw
  obtain ⟨c, hc, -, hlast⟩ := Quoted.length?_quotes hw
  obtain ⟨v, rfl⟩ : ∃ v, w = v ++ [c] := by
    rw [← List.getLast?_eq_getElem?] at hlast
    obtain ⟨v, hv⟩ := List.getLast?_eq_some_iff.mp hlast
    exact ⟨v, hv⟩
  rw [List.foldl_append] at hr ⊢
  have hslash : c ≠ '\\' := ne_of_isQuote hc (by decide)
  rcases (staysOpen_append.mp hopen).1.behind (Or.inl rfl) with hk | hk
  · rw [hk] at hr ⊢
    have hne := hr.ne_outside
    have hcq : c ≠ q := fun hcq => hne (by simp [next, hcq ▸ hslash, hcq])
    simp [next, hslash, hcq]
  · rw [hk]
    rfl

/-- **A token leaves a span open** as it is written, if it does as it stands in the text. -/
theorem Token.IsSpan.staysOpen (h : t.IsSpan u r) (hq : isQuote q = true)
    (hy : ∀ c ∈ y.head?, endsBareWord c = true)
    (hrest : StaysOpen (.inside q) r → StaysOpen (.inside q) y)
    (hopen : StaysOpen (.inside q) (u ++ r)) : StaysOpen (.inside q) (t.text ++ y) := by
  have hplain : Plain u → Plain t.text → StaysOpen (.inside q) (t.text ++ y) := fun hu ht =>
    (staysOpen_plain hq ht).mpr (hrest ((staysOpen_plain hq hu).mp hopen))
  cases h with
  | quoted hw => exact hopen.of_quoted hw hrest
  | bare _ hr => exact hopen.of_bare hq hr hy hrest
  | openParen | closeParen => exact hplain (by decide) (by decide)
  | @symbol op hop =>
    have hall : ∀ op ∈ symbols, Plain op.text := by decide
    exact hplain (hall op hop) (hall op hop)
  | keyword k hcollapse =>
    have htext : Plain k.token.text := by cases k <;> decide
    refine hplain (fun c hc => ?_) htext
    cases hblank : isBlank c with
    | true => exact plain_of_isBlank (u := [c]) (by simpa using hblank) c List.mem_cons_self
    | false => exact htext c (hcollapse ▸ Text.mem_collapse hc hblank)

end

/-- **What the text leaves open** its tokens leave open, with a space in front of each. -/
theorem staysOpen_spaced {q : Char} (hq : isQuote q = true) (s : Text) :
    StaysOpen (.inside q) s → StaysOpen (.inside q) (Keyword.spaced (s.tokens.map Token.text)) := by
  induction s using Text.lead_induction with
  | blanks g hg =>
    intro _
    rw [Text.tokens_blanks hg]
    exact Quoting.noConfusion
  | token g u r t hg h ih =>
    intro hopen
    rw [staysOpen_plain hq (plain_of_isBlank hg)] at hopen
    have hbehind := h.isSpan.staysOpen hq (Keyword.apart_spaced _).endsBareWord ih hopen
    have hspace : Plain [' '] := by decide
    rw [h.tokens_append hg]
    exact (staysOpen_plain hq hspace).mpr hbehind

/-! ## 3. Token after token -/

/-- A word that starts with a quote and is no closed string is read again, since no quote behind it
closes it. -/
theorem Leads.spaced_open {q : Char} {v r y : Text} (h : Leads (q :: v) (.word (q :: v)) r)
    (hq : isQuote q = true) (hopen : quotedLength? (q :: v) ≠ some (q :: v).length)
    (hy : y = Keyword.spaced (r.tokens.map Token.text)) : Leads (q :: v) (.word (q :: v)) y := by
  obtain ⟨hbare, hr⟩ := h.bare hopen
  have hy' : ∀ c ∈ y.head?, endsBareWord c = true := hy ▸ (Keyword.apart_spaced _).endsBareWord
  have hnone : Quoted.closing? (fun _ => true) q (v ++ r) = none := by
    by_contra hsome
    obtain ⟨m, hm⟩ := Option.ne_none_iff_exists'.mp hsome
    -- the lexer would have read a closed string
    have hquoted : quotedLength? (q :: v ++ r) = some (m + 1) := by
      rw [List.cons_append, quotedLength?, if_pos hq, hm, Option.map_some]
    exact hopen (quotedLength?_of_scan h.scan hquoted)
  rw [Quoted.closing?_eq_none_iff] at hnone
  have hstays : StaysOpen (.inside q) (v ++ y) := by
    refine hnone.of_bare hq hr hy' fun hrest => ?_
    rw [hy]
    exact staysOpen_spaced hq r hrest
  have hlength : wordLength (q :: v ++ y) = (q :: v).length := by
    rw [wordLength, List.cons_append, quotedLength?, if_pos hq,
      Quoted.closing?_eq_none_iff.mpr hstays, Option.map_none, Option.getD_none, ← List.cons_append,
      Keyword.takeWhile_run (by simpa using hbare) (by simpa using hy')]
  refine ⟨h.starts, ?_⟩
  rw [List.cons_append] at hlength ⊢
  rw [Token.scan_quote hq, hlength, ← List.cons_append, List.take_left]

/-- **A token is read again** as it is written, in front of the tokens behind it. -/
theorem Leads.spaced {u r y : Text} {t : Token} (h : Leads u t r)
    (hy : y = Keyword.spaced (r.tokens.map Token.text)) (htokens : y.tokens = r.tokens) :
    Leads t.text t y := by
  have hknown : t.Known := by
    have hk := Token.known_scan (u ++ r)
    rwa [h.scan] at hk
  have hapart : Keyword.Apart y := hy ▸ Keyword.apart_spaced _
  cases ht : t.precedence with
  | some tier =>
    exact leads_operator (by rw [ht]; exact Option.some_ne_none tier) hknown hapart.endsWord
  | none =>
    cases t with
    | openParen => exact leads_openParen y
    | closeParen => exact leads_closeParen y
    | word w =>
      obtain rfl := h.eq_word
      by_cases hquoted : quotedLength? u = some u.length
      · exact leads_quoted hquoted y
      obtain ⟨c, v, rfl, -⟩ := h.starts
      cases hc : isQuote c with
      | true => exact h.spaced_open hc hquoted hy
      | false =>
        refine h.behind (by simpa using hc) hapart.endsBareWord fun hcompletes => ?_
        rwa [htokens] at hcompletes
    | and | or | compare | membership | nullTest => cases ht

/-- The tokens with a space in front of each. -/
theorem Text.tokens_spaced (s : Text) :
    (Keyword.spaced (s.tokens.map Token.text)).tokens = s.tokens := by
  induction s using Text.lead_induction with
  | blanks g hg =>
    rw [Text.tokens_blanks hg]
    exact Text.tokens_nil
  | token g u r t hg h ih =>
    have hcons : Keyword.spaced ((t :: r.tokens).map Token.text) =
        ' ' :: (t.text ++ Keyword.spaced (r.tokens.map Token.text)) := rfl
    rw [h.tokens_append hg, hcons, Text.tokens_space, (h.spaced rfl ih).tokens, ih]

/-- The tokens of a text as they are written, with a space between. -/
def Text.reprint (s : Text) : Text := [' '].intercalate (s.tokens.map Token.text)

/-- **Tokens are read again.**  The tokens of a text, as they are written and with a space between,
are read as these tokens, whatever the text is. -/
theorem Text.tokens_reprint (s : Text) : s.reprint.tokens = s.tokens := by
  have hspaced := Text.tokens_spaced s
  rw [Text.reprint]
  cases hts : s.tokens with
  | nil => exact Text.tokens_nil
  | cons t ts =>
    rw [hts] at hspaced
    rwa [List.map_cons, Keyword.intercalate_eq_spaced, ← Text.tokens_space]

/-- Blanks in a keyword become one space, and a space is put where none was.  It is protected where
a blank was, so the quote in front stays open. -/
example : Text.reprint "'a\\ IS \t NOT  NULL(b".toList = "'a\\ IS NOT NULL ( b".toList := by
  decide +kernel

end Sieve
