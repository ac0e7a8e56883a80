/-
# Texts whose strings are kept

A text is well quoted when its quoted strings stand where the copying reader looks for them: at
the beginning or behind a blank, a parenthesis or a symbol, with no line feed protected in them
and no quote in any other word.  On such a text the copying reader and the lexer go side by
side, every string is copied, and putting the keywords in capitals keeps it.

* `WellQuoted`: where quotes may stand;
* `Stop.aligned`: wherever the lexer stops, the copying reader is between spans too;
* `quoted_kept`: every quoted string is kept.
-/
import Sieve.Proofs.QuotedWord

namespace Sieve

open Keyword

variable {s : Text} {x i n : Nat} {t : Token}

/-! ## 1. The copying reader at a place -/

/-- Whether a quote at place `x` opens a span: at the beginning, or behind a character that
opens spans. -/
def opensAt (s : Text) (x : Nat) : Bool := x == 0 || s[x - 1]?.any opensSpan

/-- How many characters are copied from place `x` on, if no span reaches it from before. -/
def spanAt (s : Text) (x : Nat) : Nat :=
  (if opensAt s x then spanLength? (s.drop x) else none).getD 0

/-- The copying reader begins afresh at place `x`: no span reaches it from before. -/
def Aligned (s : Text) (x : Nat) : Prop :=
  ∀ p, copied s (x + p) = copiedFrom (spanAt s x) (s.drop x) p

theorem aligned_zero (s : Text) : Aligned s 0 := by
  intro p
  rw [Nat.zero_add, List.drop_zero]
  rfl

theorem spanAt_eq_zero (h : ∀ c, s[x]? = some c → isQuote c = false) : spanAt s x = 0 := by
  have hnone : spanLength? (s.drop x) = none := by
    rw [spanLength?_eq]
    exact Quoted.length?_eq_none fun c hc => h c (by rwa [List.getElem?_drop] at hc)
  rw [spanAt, hnone, ite_self]
  rfl

/-- One character on, where no span opens. -/
theorem Aligned.succ (h : Aligned s x) (hx : x < s.length) (hzero : spanAt s x = 0) :
    Aligned s (x + 1) := by
  intro p
  obtain ⟨c, hc⟩ : ∃ c, s[x]? = some c := ⟨_, List.getElem?_eq_getElem hx⟩
  have hnext : opensAt s (x + 1) = opensSpan c := by simp [opensAt, hc]
  have hstep := h (p + 1)
  rw [hzero, drop_eq_cons hc, copiedFrom_zero_succ, ← hnext] at hstep
  rw [Nat.add_right_comm, Nat.add_assoc, hstep]
  rfl

/-- Along characters that are no quotes. -/
theorem Aligned.run (h : Aligned s x) {y : Nat} (hxy : x ≤ y) (hy : y ≤ s.length)
    (hfree : ∀ p c, x ≤ p → p < y → s[p]? = some c → isQuote c = false) : Aligned s y := by
  induction y, hxy using Nat.le_induction with
  | base => exact h
  | succ y hxy ih =>
    have hprev := ih (Nat.le_of_succ_le hy)
      (fun p c hxp hpy => hfree p c hxp (Nat.lt_succ_of_lt hpy))
    exact hprev.succ hy (spanAt_eq_zero fun c hc => hfree y c hxy (Nat.lt_succ_self y) hc)

/-- Behind a span that is copied. -/
theorem Aligned.span (h : Aligned s x) (hspan : spanLength? (s.drop x) = some n)
    (hopen : opensAt s x = true) : Aligned s (x + n) := by
  have hn : spanAt s x = n := by
    rw [spanAt, if_pos hopen, hspan]
    rfl
  rw [spanLength?_eq] at hspan
  have hpos := Quoted.length?_pos hspan
  obtain ⟨q, hquote, -, hq⟩ := Quoted.length?_quotes hspan
  have hclosed : opensSpan q = false := by
    rcases isQuote_iff.mp hquote with rfl | rfl <;> decide
  have hend : s[x + n - 1]? = some q := by
    rwa [List.getElem?_drop, ← Nat.add_sub_assoc hpos] at hq
  have hafter : spanAt s (x + n) = 0 := by
    have hno : opensAt s (x + n) = false := by
      have hne : n ≠ 0 := Nat.ne_of_gt hpos
      simp [opensAt, hend, hclosed, hne]
    rw [spanAt, hno]
    rfl
  intro p
  rw [Nat.add_assoc, h, hn, copiedFrom_add, List.drop_drop, hafter]

/-! ## 2. Tokens with quotes -/

/-- Only words hold quotes. -/
theorem Lexeme.word_of_quote (h : Lexeme s i t n) {p : Nat} {c : Char} (hip : i ≤ p)
    (hp : p < i + n) (hc : s[p]? = some c) (hq : isQuote c = true) : ∃ w, t = .word w := by
  have hat : (s.drop i)[p - i]? = some c := by
    rwa [List.getElem?_drop, Nat.add_sub_of_le hip]
  have hscan := h.scan
  unfold Token.scan at hscan
  split at hscan
  · -- A symbol.
    rename_i op hop
    obtain ⟨-, rfl⟩ := Prod.mk.inj hscan
    have hstarts := List.find?_some hop
    rw [List.isPrefixOf_iff_prefix, List.prefix_iff_eq_take] at hstarts
    have hmem : c ∈ op.text := by
      rw [hstarts]
      refine List.mem_of_getElem? (i := p - i) ?_
      rwa [List.getElem?_take_of_lt (by omega)]
    rw [((symbols_chars op (List.mem_of_find?_eq_some hop)).2 c hmem).2] at hq
    cases hq
  split at hscan
  · -- A keyword.
    rename_i k m hk
    obtain ⟨-, rfl⟩ := Prod.mk.inj hscan
    rw [(read?_spec hk).not_isQuote hip hp hc] at hq
    cases hq
  have hparen : ∀ {d : Char} {r : Text}, s.drop i = d :: r → n = 1 → isQuote d = true := by
    intro d r hcons hn
    have hzero : p - i = 0 := by omega
    rw [hcons, hzero] at hat
    rwa [Option.some.inj hat]
  split at hscan
  · obtain ⟨-, rfl⟩ := Prod.mk.inj hscan
    exact absurd (hparen ‹_› rfl) (by decide)
  · obtain ⟨-, rfl⟩ := Prod.mk.inj hscan
    exact absurd (hparen ‹_› rfl) (by decide)
  · exact ⟨_, (Prod.mk.inj hscan).1.symm⟩

/-- Every word that holds a quote is a quoted string that is closed, protects no line feed, and
stands where the copying reader looks for it. -/
def WellQuoted (s : Text) : Prop :=
  ∀ i w, TokenAt s i (.word w) → (∃ c ∈ w, isQuote c = true) →
    spanLength? w = some w.length ∧ opensAt s i = true

/-- A word with a quote is copied, in a well-quoted text. -/
theorem WellQuoted.spanLength? (hs : WellQuoted s) {w : Text} (h : Lexeme s i (.word w) n)
    (hw : ∃ c ∈ w, isQuote c = true) :
    Keyword.spanLength? (s.drop i) = some n ∧ opensAt s i = true := by
  obtain ⟨rfl, htake⟩ := Token.take_of_scan h.scan
  obtain ⟨hspan, hopen⟩ := hs i w (tokenAt_iff.mpr ⟨_, h⟩) hw
  refine ⟨?_, hopen⟩
  rw [← List.take_append_drop w.length (s.drop i), htake]
  rw [spanLength?_eq] at hspan ⊢
  exact Quoted.length?_append hspan _

/-! ## 3. Side by side -/

/-- The copying reader stands before a token as it stood at the stop before it. -/
theorem Aligned.nextStart (h : Aligned s x) (hlt : nextStart s x < s.length) :
    Aligned s (nextStart s x) :=
  h.run (le_nextStart s x) (Nat.le_of_lt hlt) fun _ _ hxp hp hc =>
    not_isQuote_of_isBlank (isBlank_of_lt_nextStart hxp hp hc)

/-- **Wherever the lexer stops in a well-quoted text, the copying reader begins afresh.** -/
theorem Stop.aligned (hs : WellQuoted s) (hx : Stop s x) : Aligned s x := by
  induction hx with
  | start => exact aligned_zero s
  | @behind x hx hlt ih =>
    have h := hx.lexeme hlt
    have hstart := ih.nextStart hlt
    have hle := h.add_le_length
    generalize (Token.scan (s.drop (nextStart s x))).1 = t at h
    generalize (Token.scan (s.drop (nextStart s x))).2 = n at h hle ⊢
    by_cases hq : ∃ p c, nextStart s x ≤ p ∧ p < nextStart s x + n ∧ s[p]? = some c ∧
        isQuote c = true
    · obtain ⟨p, c, hxp, hp, hc, hquote⟩ := hq
      obtain ⟨w, rfl⟩ := h.word_of_quote hxp hp hc hquote
      obtain ⟨-, htake⟩ := Token.take_of_scan h.scan
      have hmem : c ∈ w := by
        rw [← htake]
        exact List.mem_of_getElem? ((getElem?_take_drop hxp hp).trans hc)
      obtain ⟨hspan, hopen⟩ := hs.spanLength? h ⟨c, hmem, hquote⟩
      exact hstart.span hspan hopen
    · refine hstart.run (Nat.le_add_right _ _) hle fun p c hxp hp hc => ?_
      by_contra hquote
      exact hq ⟨p, c, hxp, hp, hc, by simpa using hquote⟩

/-- In a well-quoted text keywords stand apart from quotes. -/
theorem WellQuoted.standApart (hs : WellQuoted s) : StandApart s := by
  intro w b hmem k hk
  obtain ⟨i, n, h, -⟩ := mem_tokenize_iff.mp hmem
  obtain ⟨rfl, htake⟩ := Token.take_of_scan h.scan
  obtain ⟨ws, -, hstands⟩ := foldedLength?_spec (b := 0) hk
  have hle := hstands.le_length
  have hends := hstands.ends
  rw [Nat.zero_add] at hle hends
  have hat : ∀ p < w.length, s[i + p]? = w[p]? := by
    intro p hp
    rw [← List.getElem?_drop, ← List.getElem?_take_of_lt hp, htake]
  by_contra hne
  have hlt : k < w.length := by omega
  obtain ⟨c, hc⟩ : ∃ c, w[0]? = some c := ⟨_, List.getElem?_eq_getElem (by omega)⟩
  obtain ⟨d, hd⟩ : ∃ d, w[k]? = some d := ⟨_, List.getElem?_eq_getElem hlt⟩
  have hl : IsLetter c := hstands.head hc
  rw [drop_eq_cons hd] at hends
  -- What ends the keyword inside the word can only be a quote.
  have hbare : endsBareWord d = false := by
    rcases h.letter ((hat 0 (by omega)).trans hc) hl with ⟨key, -, ht⟩ | ⟨hn, -⟩
    · cases key <;> cases ht
    · have hfree := of_lt_takeWhile (hn ▸ hlt) (by rw [List.getElem?_drop, hat k hlt, hd])
      simpa using hfree
  have hquote : isQuote d = true := by
    simp only [endsBareWord, Bool.or_eq_false_iff] at hbare
    simpa [endsWord, hbare] using hends
  -- But then the word starts with a quote.
  obtain ⟨hspan, -⟩ := hs i w (tokenAt_iff.mpr ⟨_, h⟩) ⟨d, List.mem_of_getElem? hd, hquote⟩
  rw [spanLength?_eq] at hspan
  obtain ⟨q, hq, hfirst, -⟩ := Quoted.length?_quotes hspan
  obtain rfl := Option.some.inj (hc.symm.trans hfirst)
  rw [hl.not_isQuote] at hq
  cases hq

/-- **Well-quoted texts keep their strings.**  Putting the keywords of a well-quoted text in
capitals keeps every quoted string of it, as a token at the same place. -/
theorem quoted_kept (hs : WellQuoted s) {q : Text} (hq : quotedLength? q = some q.length)
    (ht : TokenAt s i (.word q)) : TokenAt (capitalize s) i (.word q) := by
  obtain ⟨n, h⟩ := tokenAt_iff.mp ht
  obtain ⟨rfl, htake, c, hquote, hfirst, hlast⟩ := h.quoted hq
  have hmem : c ∈ q := by
    rw [← htake]
    refine List.mem_of_getElem? (i := 0) ?_
    rwa [List.getElem?_take_of_lt h.pos, List.getElem?_drop]
  obtain ⟨hspan, hopen⟩ := hs.spanLength? h ⟨c, hmem, hquote⟩
  obtain ⟨x, hx, rfl⟩ := h.stop
  have haligned := (hx.aligned hs).nextStart h.lt_length
  have hcopied : ∀ a, nextStart s x < a → a < nextStart s x + q.length → copied s a = true := by
    intro a hia ha
    obtain ⟨p, rfl⟩ := Nat.exists_eq_add_of_le (Nat.le_of_lt hia)
    have hp : p < q.length := Nat.lt_of_add_lt_add_left ha
    have hle := h.add_le_length
    rw [haligned p, spanAt, if_pos hopen, hspan]
    exact copiedFrom_of_lt hp (by rw [List.length_drop]; omega)
  have hchars := (take_capitalize_iff h.pos hquote hfirst hlast).mpr fun a m hr hin => by
    have hfree := hcopied a hin.1 (by omega)
    rw [hr.notCopied] at hfree
    cases hfree
  rw [htake] at hchars
  refine (tokenAt_quoted_iff hq).mpr ⟨hchars, ?_⟩
  exact not_runsAcross_of_recased (capitalize_recased s) hs.standApart h hfirst hquote

end Sieve
