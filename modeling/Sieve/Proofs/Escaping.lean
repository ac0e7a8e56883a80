/-
# Strings with their quotes escaped

A string is written as a literal between two quotes, with a backslash in front of every quote of
that kind inside it.  Casting undoes just that, so the literal stands for the string, whatever the
string is.  The lexer takes more for an escape: to it a backslash protects any character, another
backslash too.  Where backslashes come in pairs this makes no difference.  An odd one in front of a
quote leaves that quote bare and the literal ends there; an odd one at the end protects the closing
quote, and the literal is a bare word then, which is cut at its first blank or parenthesis.

* `Text.escape`, `Text.quote`: a string as a literal;
* `Text.backslashes`, `Text.PairedBefore`: backslashes at the end, and in front of quotes;
* `Quoted.closing?_escape`: where the lexer finds the closing quote;
* `isWord_quote_iff_and_cast_quote`: when the literal is one word, and what it stands for.
-/
import Sieve.Literal.Cast
import Sieve.Proofs.LiteralText
import Sieve.Proofs.Print
import Mathlib.Algebra.Group.Nat.Even

namespace Sieve

/-! ## 1. A string as a literal -/

namespace Text

/-- A backslash in front of every quote `q`. -/
def escape (q : Char) : Text → Text
  | [] => []
  | c :: r => if c = q then '\\' :: c :: escape q r else c :: escape q r

/-- The text between two quotes `q`, those inside it escaped. -/
def quote (q : Char) (s : Text) : Text := q :: (escape q s ++ [q])

variable {q c d : Char} {s : Text}

theorem escape_quote (q : Char) (s : Text) : escape q (q :: s) = '\\' :: q :: escape q s := by
  simp [escape]

theorem escape_cons (h : c ≠ q) (s : Text) : escape q (c :: s) = c :: escape q s := by
  simp [escape, h]

theorem escape_eq_self (h : q ∉ s) : escape q s = s := by
  induction s with
  | nil => rfl
  | cons c r ih =>
    rw [escape_cons (Ne.symm (List.ne_of_not_mem_cons h)), ih (List.not_mem_of_not_mem_cons h)]

/-- Escaping adds backslashes and nothing else. -/
theorem mem_escape_iff : c ∈ escape q s ↔ c ∈ s ∨ (c = '\\' ∧ q ∈ s) := by
  induction s with
  | nil => simp [escape]
  | cons d r ih =>
    by_cases hd : d = q
    · subst hd
      rw [escape_quote, List.mem_cons, List.mem_cons, ih]
      grind
    · rw [escape_cons hd, List.mem_cons, ih]
      grind

/-- No escaped text starts with the quote. -/
theorem head?_escape_ne (hq : q ≠ '\\') (s : Text) : (escape q s).head? ≠ some q := by
  cases s with
  | nil => simp [escape]
  | cons c r =>
    by_cases hc : c = q
    · subst hc
      simpa [escape_quote] using Ne.symm hq
    · simpa [escape_cons hc] using hc

theorem unescape_cons (h : ¬ (c = '\\' ∧ s.head? = some q)) :
    unescape q (c :: s) = c :: unescape q s := by
  cases s with
  | nil => rfl
  | cons d r => simp_all [unescape]

/-- **Escaping is undone.** -/
theorem unescape_escape (hq : q ≠ '\\') (s : Text) : unescape q (escape q s) = s := by
  induction s with
  | nil => rfl
  | cons c r ih =>
    by_cases hc : c = q
    · subst hc
      simp [escape_quote, unescape, ih]
    · rw [escape_cons hc, unescape_cons fun h => head?_escape_ne hq r h.2, ih]

/-! ## 2. Backslashes in pairs -/

/-- The number of backslashes that the text ends with. -/
def backslashes (s : Text) : Nat := (s.reverse.takeWhile (· == '\\')).length

/-- In front of every quote `q` stands an even number of backslashes. -/
def PairedBefore (q : Char) (s : Text) : Prop := ∀ u r, s = u ++ q :: r → Even (backslashes u)

instance (q : Char) (s : Text) : Decidable (PairedBefore q s) :=
  decidable_of_iff (∀ i < s.length, s[i]? = some q → Even (backslashes (s.take i))) <| by
    constructor
    · rintro h u r rfl
      simpa using h u.length (by simp) (by simp)
    · intro h i _ hi
      exact h (s.take i) (s.drop (i + 1)) (by rw [← drop_eq_cons hi, List.take_append_drop])

theorem backslashes_cons (c : Char) (s : Text) : backslashes (c :: s) =
    if backslashes s = s.length ∧ c = '\\' then s.length + 1 else backslashes s := by
  unfold backslashes
  rw [List.reverse_cons, List.takeWhile_append, List.length_reverse]
  by_cases hs : (s.reverse.takeWhile (· == '\\')).length = s.length
  · by_cases hc : c = '\\'
    · simp [hs, hc]
    · simp [hs, hc]
  · simp [hs]

theorem backslashes_cons_of_ne (hc : c ≠ '\\') (s : Text) :
    backslashes (c :: s) = backslashes s := by
  simp [backslashes_cons, hc]

theorem backslashes_le (s : Text) : backslashes s ≤ s.length :=
  (List.takeWhile_prefix _).length_le.trans_eq List.length_reverse

/-- A backslash and what it protects do not count for what comes behind them. -/
theorem even_backslashes_protected (d : Char) (s : Text) :
    Even (backslashes ('\\' :: d :: s)) ↔ Even (backslashes s) := by
  have hle := backslashes_le s
  by_cases hall : backslashes s = s.length ∧ d = '\\'
  · have hpair : backslashes ('\\' :: d :: s) = backslashes s + 2 := by
      simp [backslashes_cons, hall]
    rw [hpair, Nat.even_add, iff_true_right even_two]
  · have hsame : backslashes ('\\' :: d :: s) = backslashes s := by
      have hne : backslashes s ≠ s.length + 1 := by omega
      simp [backslashes_cons, hall, hne]
    rw [hsame]

theorem pairedBefore_nil (q : Char) : PairedBefore q [] := by
  intro u r h
  simp at h

theorem pairedBefore_cons (hc : c ≠ '\\') : PairedBefore q (c :: s) ↔ PairedBefore q s := by
  constructor
  · intro h u r hs
    have heven := h (c :: u) r (by rw [hs, List.cons_append])
    rwa [backslashes_cons_of_ne hc] at heven
  · intro h u r hs
    cases u with
    | nil => exact Even.zero
    | cons d u =>
      obtain ⟨rfl, hu⟩ := List.cons.inj hs
      rw [backslashes_cons_of_ne hc]
      exact h u r hu

theorem pairedBefore_protected (hd : d ≠ q) :
    PairedBefore q ('\\' :: d :: s) ↔ PairedBefore q s := by
  constructor
  · intro h u r hs
    exact (even_backslashes_protected d u).mp (h ('\\' :: d :: u) r (by rw [hs]; rfl))
  · intro h u r hs
    match u with
    | [] => exact Even.zero
    | [_] => exact absurd (List.cons.inj (List.cons.inj hs).2).1 hd
    | b :: e :: u =>
      obtain ⟨hb, htail⟩ := List.cons.inj hs
      rw [← hb, even_backslashes_protected]
      exact h u r (List.cons.inj htail).2

theorem pairedBefore_singleton (q c : Char) : PairedBefore q [c] := by
  intro u r h
  cases u with
  | nil => exact Even.zero
  | cons d u => simp at h

/-- A single backslash does not leave a quote paired. -/
theorem not_pairedBefore (q : Char) (s : Text) : ¬ PairedBefore q ('\\' :: q :: s) := by
  intro h
  exact absurd (h ['\\'] s rfl) (by decide)

end Text

/-! ## 3. The closing quote -/

namespace Quoted

open Text

variable {q : Char}

theorem closing?_protected (d : Char) (s : Text) :
    closing? (fun _ => true) q ('\\' :: d :: s) = (closing? (fun _ => true) q s).map (· + 2) := by
  simp [closing?]

theorem closing?_cons {c : Char} (hc : c ≠ '\\') (hq : c ≠ q) (s : Text) :
    closing? (fun _ => true) q (c :: s) = (closing? (fun _ => true) q s).map (· + 1) := by
  cases s <;> simp [closing?, hc, hq]

theorem closing?_quote (hq : q ≠ '\\') (s : Text) :
    closing? (fun _ => true) q (q :: s) = some 1 := by
  cases s <;> simp [closing?, hq]

/-- **The closing quote is found** at the end if every quote and the end stand behind backslashes
in pairs, and nowhere if only the end does not. -/
theorem closing?_escape (hq : q ≠ '\\') : ∀ s : Text, PairedBefore q s →
    closing? (fun _ => true) q (escape q s ++ [q]) =
      if Even (backslashes s) then some ((escape q s).length + 1) else none
  | [], _ => by simp [escape, closing?, hq, backslashes]
  | c :: s, h => by
    by_cases hc : c = '\\'
    · subst hc
      rw [escape_cons (Ne.symm hq)]
      cases s with
      | nil => simp [escape, closing?, backslashes]
      | cons d s =>
        have hd : d ≠ q := fun hd => not_pairedBefore q s (hd ▸ h)
        rw [escape_cons hd, List.cons_append, List.cons_append, closing?_protected,
          closing?_escape hq s ((pairedBefore_protected hd).mp h)]
        simp only [even_backslashes_protected]
        split_ifs <;> simp
    · have ih := closing?_escape hq s ((pairedBefore_cons hc).mp h)
      rw [backslashes_cons_of_ne hc]
      by_cases hcq : c = q
      · subst hcq
        rw [escape_quote, List.cons_append, List.cons_append, closing?_protected, ih]
        split_ifs <;> simp
      · rw [escape_cons hcq, List.cons_append, closing?_cons hc hcq, ih]
        split_ifs <;> simp

/-- A quote that an odd backslash leaves bare is taken for the closing one. -/
theorem closing?_escape_early (hq : q ≠ '\\') : ∀ s : Text, ¬ PairedBefore q s →
    ∃ n ≤ (escape q s).length, closing? (fun _ => true) q (escape q s ++ [q]) = some n
  | [], h => absurd (pairedBefore_nil q) h
  | c :: s, h => by
    by_cases hc : c = '\\'
    · subst hc
      rw [escape_cons (Ne.symm hq)]
      cases s with
      | nil => exact absurd (pairedBefore_singleton q '\\') h
      | cons d s =>
        by_cases hd : d = q
        · subst hd
          rw [escape_quote, List.cons_append, List.cons_append, closing?_protected,
            List.cons_append, closing?_quote hq]
          exact ⟨3, by simp, rfl⟩
        · obtain ⟨n, hn, hclosing⟩ :=
            closing?_escape_early hq s fun hs => h ((pairedBefore_protected hd).mpr hs)
          rw [escape_cons hd, List.cons_append, List.cons_append, closing?_protected, hclosing]
          exact ⟨n + 2, by simpa using hn, rfl⟩
    · obtain ⟨n, hn, hclosing⟩ :=
        closing?_escape_early hq s fun hs => h ((pairedBefore_cons hc).mpr hs)
      by_cases hcq : c = q
      · subst hcq
        rw [escape_quote, List.cons_append, List.cons_append, closing?_protected, hclosing]
        exact ⟨n + 2, by simpa using hn, rfl⟩
      · rw [escape_cons hcq, List.cons_append, closing?_cons hc hcq, hclosing]
        exact ⟨n + 1, by simpa using hn, rfl⟩

end Quoted

/-! ## 4. The word -/

open Text

/-- A text that starts with a quote is one word if the word at its front is as long. -/
theorem isWord_iff_wordLength {q : Char} (hq : isQuote q = true) (r : Text) :
    IsWord (q :: r) ↔ wordLength (q :: r) = (q :: r).length := by
  constructor
  · intro h
    exact (Token.scan_word h.scan).2.2.symm
  · intro h
    refine isWord_of_leads ⟨⟨q, r, rfl, Keyword.not_isBlank_of_isQuote hq⟩, ?_⟩
    rw [List.append_nil, Token.scan_quote hq, h, List.take_length]

theorem quotedLength?_cons {q : Char} (hq : isQuote q = true) (r : Text) :
    quotedLength? (q :: r) = (Quoted.closing? (fun _ => true) q r).map (· + 1) := by
  simp [quotedLength?, hq]

theorem endsBareWord_of_isQuote {q : Char} (hq : isQuote q = true) : endsBareWord q = false := by
  rcases isQuote_iff.mp hq with rfl | rfl <;> decide

/-- A blank or a parenthesis of the literal is one of the string. -/
theorem endsBareWord_quote_iff {q : Char} (hq : isQuote q = true) (s : Text) :
    (∀ c ∈ quote q s, endsBareWord c = false) ↔ ∀ c ∈ s, endsBareWord c = false := by
  have hquote := endsBareWord_of_isQuote hq
  have hslash : endsBareWord '\\' = false := by decide
  constructor
  · intro h c hc
    exact h c (by simp [quote, mem_escape_iff, hc])
  · intro h c hc
    simp only [quote, List.mem_cons, List.mem_append, mem_escape_iff, List.not_mem_nil,
      or_false] at hc
    rcases hc with rfl | (hc | ⟨rfl, -⟩) | rfl
    exacts [hquote, h c hc, hslash, hquote]

theorem length_takeWhile_eq_iff (p : Char → Bool) (s : Text) :
    (s.takeWhile p).length = s.length ↔ ∀ c ∈ s, p c = true := by
  rw [← List.takeWhile_eq_self_iff]
  exact ⟨(List.takeWhile_prefix p).eq_of_length, congrArg List.length⟩

/-- **When the literal is one word.** -/
theorem isWord_quote {q : Char} (hq : isQuote q = true) (s : Text) :
    IsWord (quote q s) ↔ PairedBefore q s ∧
      (Even (backslashes s) ∨ ∀ c ∈ s, endsBareWord c = false) := by
  have hslash : q ≠ '\\' := ne_of_isQuote hq (by decide)
  rw [← endsBareWord_quote_iff hq, quote, isWord_iff_wordLength hq, wordLength,
    quotedLength?_cons hq]
  by_cases hpaired : PairedBefore q s
  · rw [Quoted.closing?_escape hslash s hpaired]
    by_cases heven : Even (backslashes s)
    · simp [heven, hpaired]
    · -- the closing quote is protected, so the literal is read as a bare word
      simp only [heven, hpaired, if_false, Option.map_none, Option.getD_none, true_and, false_or]
      rw [length_takeWhile_eq_iff]
      simp
  · obtain ⟨n, hn, hclosing⟩ := Quoted.closing?_escape_early hslash s hpaired
    rw [hclosing]
    simp only [Option.map_some, Option.getD_some, List.length_cons, List.length_append,
      List.length_nil, hpaired, false_and, iff_false]
    omega

/-! ## 5. The literal -/

/-- Between quotes the escaped string stands for the string. -/
theorem castQuoted_escape {q : Char} (hq : isQuote q = true) (s : Text) :
    castQuoted q (escape q s) =
      (((Uuid.read? s).map Scalar.uuid).or ((Timestamp.read? s).map Scalar.timestamp)).getD
        (.string s) := by
  have hslash : q ≠ '\\' := ne_of_isQuote hq (by decide)
  unfold castQuoted
  rw [unescape_escape hslash]
  by_cases hmem : q ∈ s
  · -- neither the quote nor its backslash is used by identifiers and timestamps
    have hquote : Uuid.isPart q = false ∧ Timestamp.isPart q = false := by
      rcases isQuote_iff.mp hq with rfl | rfl <;> decide
    have hescaped : '\\' ∈ escape q s := mem_escape_iff.mpr (Or.inr ⟨rfl, hmem⟩)
    rw [Uuid.read?_eq_none (by decide) hescaped, Timestamp.read?_eq_none (by decide) hescaped,
      Uuid.read?_eq_none hquote.1 hmem, Timestamp.read?_eq_none hquote.2 hmem]
    rfl
  · rw [escape_eq_self hmem]
    cases Uuid.read? s with
    | some u => rfl
    | none => cases Timestamp.read? s <;> rfl

theorem cast_quote {q : Char} (hq : isQuote q = true) (s : Text) :
    cast (quote q s) = castQuoted q (escape q s) := by
  have hblank := Keyword.not_isBlank_of_isQuote hq
  have htrim : trim (quote q s) = quote q s := by
    refine trim_eq_self ?_ ?_
    · rintro c ⟨⟩
      exact hblank
    · intro c hc
      rw [quote, ← List.cons_append, List.getLast?_concat] at hc
      cases hc
      exact hblank
  have hunquote : unquote? (quote q s) = some (q, escape q s) := by
    simp [unquote?, quote, hq]
  unfold cast
  simp only [htrim, hunquote]
  rfl

/-- **A string as a literal.**  The literal stands for the string, unless the string itself is an
identifier or a timestamp.  The lexer reads it as one word if backslashes stand in pairs in front
of every quote of that kind and at the end of the string; an odd one at the end does no harm
where the string has no blank and no parenthesis. -/
theorem isWord_quote_iff_and_cast_quote {q : Char} (hq : isQuote q = true) (s : Text) :
    (IsWord (quote q s) ↔ PairedBefore q s ∧
      (Even (backslashes s) ∨ ∀ c ∈ s, endsBareWord c = false)) ∧
    cast (quote q s) =
      (((Uuid.read? s).map Scalar.uuid).or ((Timestamp.read? s).map Scalar.timestamp)).getD
        (.string s) :=
  ⟨isWord_quote hq s, (cast_quote hq s).trans (castQuoted_escape hq s)⟩

/-- Quotes, blanks, parentheses and backslashes in pairs do no harm. -/
theorem isWord_quote_and_cast_quote_pairs :
    let s := "it's (a\\\\' b) \\\\".toList
    quote '\'' s = "'it\\'s (a\\\\\\' b) \\\\'".toList ∧
      IsWord (quote '\'' s) ∧ cast (quote '\'' s) = .string s := by
  intro s
  obtain ⟨hword, hcast⟩ := isWord_quote_iff_and_cast_quote (q := '\'') (by decide) s
  exact ⟨rfl, hword.mpr ⟨by decide, Or.inl (by decide)⟩, hcast.trans (by decide +kernel)⟩

/-- One backslash in front of a quote does: the literal ends at that quote. -/
theorem not_isWord_quote_backslash :
    let s := "\\'".toList
    tokenize (quote '\'' s) = [⟨.word "'\\\\'".toList, 0⟩, ⟨.word ['\''], 4⟩] ∧
      ¬ IsWord (quote '\'' s) := by
  decide +kernel

end Sieve
