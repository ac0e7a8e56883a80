/-
# What the lexer looks ahead at

Behind a bare word the lexer looks ahead: `IS` is a word, unless `NULL` follows, and then it is
the beginning of a keyword.  What it looks at are whole tokens.  A keyword begins at a bare word
if the rest of its words are the next tokens, read by themselves, so a bare word depends on the
text behind it through the tokens of that text alone.

* `Text.lead_induction`: a text is read token by token;
* `Text.firstRun`, `firstRun_lead`: a text up to where a keyword may end, which its first token
  tells;
* `Keyword.Completes`: the tokens that make a keyword of the word in front of them;
* `Keyword.read?_bare_eq_none_iff`: no keyword begins at a bare word;
* `Leads.behind`: so a bare word is read alike in front of texts with the same tokens.
-/
import Sieve.Proofs.Coverage

namespace Sieve

/-! ## 1. One token after the other -/

section

variable {g u r s : Text} {t : Token}

namespace Text

theorem trimStart_append (hg : ∀ c ∈ g, isBlank c = true) (s : Text) :
    trimStart (g ++ s) = trimStart s :=
  List.dropWhile_append_of_pos hg

theorem trimStart_blanks (hg : ∀ c ∈ g, isBlank c = true) : trimStart g = [] :=
  List.dropWhile_eq_nil_iff.mpr hg

theorem tokens_append (hg : ∀ c ∈ g, isBlank c = true) (s : Text) : tokens (g ++ s) = tokens s := by
  rw [tokens_eq, tokens_eq s, trimStart_append hg]

theorem tokens_blanks (hg : ∀ c ∈ g, isBlank c = true) : tokens g = [] := by
  have h := tokens_append hg []
  rwa [List.append_nil, tokens_nil] at h

end Text

theorem Leads.trimStart (h : Leads u t r) : Text.trimStart (u ++ r) = u ++ r := by
  obtain ⟨⟨c, w, rfl, hc⟩, -⟩ := h
  simp [Text.trimStart, hc]

theorem Leads.tokens_append (h : Leads u t r) (hg : ∀ c ∈ g, isBlank c = true) :
    (g ++ (u ++ r)).tokens = t :: r.tokens := by
  rw [Text.tokens_append hg, h.tokens]

/-- What is read off the front is a span of the token. -/
theorem Leads.isSpan (h : Leads u t r) : t.IsSpan u r := by
  have hspan := Token.isSpan_scan (u ++ r)
  rwa [h.scan, List.take_left, List.drop_left] at hspan

theorem Leads.eq_word {w : Text} (h : Leads u (.word w) r) : u = w := by
  obtain ⟨-, htake⟩ := Token.take_of_scan h.scan
  rwa [List.take_left] at htake

/-- One token is read off the front of a text. -/
theorem Leads.unique {u' r' : Text} {t' : Token} (h : Leads u t r) (h' : Leads u' t' r')
    (heq : u ++ r = u' ++ r') : u = u' ∧ t = t' ∧ r = r' := by
  obtain ⟨ht, hlength⟩ := Prod.mk.inj (h.scan.symm.trans (heq ▸ h'.scan))
  obtain ⟨hu, hr⟩ := List.append_inj heq hlength
  exact ⟨hu, ht, hr⟩

/-- Where a closed string stands, the word that is read is that string. -/
theorem quotedLength?_of_scan {w : Text} {n m : Nat} (h : Token.scan s = (.word w, n))
    (hs : quotedLength? s = some m) : quotedLength? w = some w.length := by
  obtain ⟨-, -, hlength⟩ := Token.scan_word h
  obtain ⟨hn, rfl⟩ := Token.take_of_scan h
  rw [wordLength, hs, Option.getD_some] at hlength
  rw [← hn, hlength]
  rw [quotedLength?_eq] at hs ⊢
  exact Quoted.length?_take hs

/-- A word that is no closed string reaches up to the next blank or parenthesis. -/
theorem Leads.bare (h : Leads u (.word u) r) (hopen : quotedLength? u ≠ some u.length) :
    (∀ c ∈ u, endsBareWord c = false) ∧ ∀ c ∈ r.head?, endsBareWord c = true := by
  have hspan := h.isSpan
  generalize ht : Token.word u = t at hspan
  cases hspan with
  | quoted hq => exact absurd hq hopen
  | bare hbare hr => exact ⟨hbare, hr⟩
  | openParen | closeParen | symbol => cases ht
  | keyword k => cases k <;> cases ht

/-- **A text is read token by token**: it is blanks, or a token behind blanks and in front of a
text that is read in turn. -/
@[elab_as_elim]
theorem Text.lead_induction {motive : Text → Prop}
    (blanks : ∀ g : Text, (∀ c ∈ g, isBlank c = true) → motive g)
    (token : ∀ (g u r : Text) (t : Token), (∀ c ∈ g, isBlank c = true) → Leads u t r → motive r →
      motive (g ++ (u ++ r))) (s : Text) : motive s := by
  induction hn : s.length using Nat.strong_induction_on generalizing s with
  | _ n ih =>
    subst hn
    let g := s.takeWhile isBlank
    have hg : ∀ c ∈ g, isBlank c = true := fun c hc => List.mem_takeWhile_imp hc
    have hs : s = g ++ trimStart s := List.takeWhile_append_dropWhile.symm
    cases htrim : trimStart s with
    | nil =>
      rw [hs, htrim, List.append_nil]
      exact blanks g hg
    | cons c r =>
      have hc := not_isBlank_of_trimStart htrim
      obtain ⟨n, hn⟩ := Nat.exists_eq_succ_of_ne_zero
        (Nat.ne_of_gt (Token.scan_length_pos (r := r) hc))
      have hlead : Leads ((c :: r).take (Token.scan (c :: r)).2) (Token.scan (c :: r)).1
          ((c :: r).drop (Token.scan (c :: r)).2) := by
        refine ⟨⟨c, r.take n, by rw [hn, List.take_succ_cons], hc⟩, ?_⟩
        rw [List.take_append_drop, List.length_take,
          Nat.min_eq_left (Token.scan_length_le (c :: r))]
      have hlength : s.length = g.length + (c :: r).length := by
        rw [← htrim, ← List.length_append, ← hs]
      rw [hs, htrim, ← List.take_append_drop (Token.scan (c :: r)).2 (c :: r)]
      refine token g _ _ _ hg hlead (ih _ ?_ _ rfl)
      rw [List.length_drop, hlength, List.length_cons]
      omega

end

/-! ## 2. The first run of a text -/

/-- The text up to the first place where a keyword may end. -/
def Text.firstRun (s : Text) : Text := s.takeWhile fun c => !endsWord [c]

namespace Text

variable {u r : Text}

theorem firstRun_append (u : Text) (hr : endsWord r = true) : (u ++ r).firstRun = u.firstRun := by
  induction u with
  | nil =>
    cases r with
    | nil => rfl
    | cons c r => simp [firstRun, endsWord_cons.symm.trans hr]
  | cons c u ih =>
    cases hc : endsWord [c] with
    | true => simp [firstRun, hc]
    | false => simpa [firstRun, hc] using ih

theorem firstRun_eq_self (hu : ∀ c ∈ u, endsWord [c] = false) : u.firstRun = u :=
  List.takeWhile_eq_self_iff.mpr (by simpa using hu)

theorem firstRun_eq_nil (hr : endsWord r = true) : r.firstRun = [] := firstRun_append [] hr

/-- A text is its first run and what stands where a keyword may end. -/
theorem exists_eq_firstRun_append (s : Text) : ∃ r, s = s.firstRun ++ r ∧ endsWord r = true := by
  refine ⟨s.dropWhile fun c => !endsWord [c], List.takeWhile_append_dropWhile.symm, ?_⟩
  refine endsWord_of_head? fun c hc => ?_
  have hhead := List.head?_dropWhile_not (fun c => !endsWord [c]) s
  rw [Option.mem_def.mp hc] at hhead
  simpa using hhead

theorem firstRun_collapse (s : Text) : (collapse s).firstRun = s.firstRun := by
  have hblank : ∀ {c : Char} {r : Text}, isBlank c = true → firstRun (c :: r) = [] := by
    intro c r hc
    exact firstRun_eq_nil (by simp [endsWord, hc])
  induction s with
  | nil => rfl
  | cons c r ih =>
    cases hc : isBlank c with
    | true =>
      rw [hblank hc, collapse, if_pos hc]
      split
      · rename_i hmore
        cases r with
        | nil => cases hmore
        | cons d r => rw [ih, hblank hmore]
      · exact hblank rfl
    | false =>
      rw [collapse, if_neg (by simp [hc])]
      simp only [firstRun] at ih ⊢
      rw [List.takeWhile_cons, List.takeWhile_cons, ih]

end Text

/-- **The first token tells the first run**, where that is a word of letters. -/
theorem firstRun_lead {u r : Text} {t : Token} (h : Leads u t r) {w : Text} (hne : w ≠ [])
    (hw : ∀ c ∈ w, Keyword.IsLetter c) : (u ++ r).firstRun = w ↔ t.text.firstRun = w := by
  have hspan := h.isSpan
  cases hspan with
  | quoted hq =>
    rw [quotedLength?_eq] at hq
    obtain ⟨c, v, m, rfl, hc, -, -⟩ := Quoted.length?_spec hq
    have hends : ∀ x : Text, endsWord (c :: x) = true := fun x => endsWord_of_isQuote hc
    rw [Token.text, List.cons_append, Text.firstRun_eq_nil (hends _),
      Text.firstRun_eq_nil (hends _)]
  | bare hbare hr =>
    rw [Token.text, Text.firstRun_append u
      (endsWord_of_head? fun c hc => endsWord_of_endsBareWord (hr c hc))]
  | openParen | closeParen => exact Iff.rfl
  | @symbol op hop =>
    -- it begins with no letter
    have hall : ∀ op ∈ symbols, ∃ c v, op.text = c :: v ∧ endsWord [c] = false ∧
        ¬ Keyword.IsLetter c := by
      simp only [symbols, List.forall_mem_cons]
      refine ⟨?_, ?_, ?_, ?_, ?_, ?_, ?_, by simp⟩ <;> exact ⟨_, _, rfl, by decide, by decide⟩
    obtain ⟨c, v, htext, hends, hletter⟩ := hall op hop
    have hno : ∀ x : Text, Text.firstRun (c :: x) ≠ w := by
      rintro x rfl
      exact hletter (hw c (by simp [Text.firstRun, hends]))
    rw [Token.text, htext, List.cons_append]
    exact iff_of_false (hno _) (hno _)
  | @keyword k _ _ hcollapse hr =>
    rw [Text.firstRun_append u hr, ← Text.firstRun_collapse u, hcollapse]

/-! ## 3. Phrases at the front of a text -/

namespace Keyword

/-- The words of keywords are not empty and made of letters. -/
theorem letters_of_mem_words {k : Keyword} {w : Text} (hw : w ∈ k.words) :
    w ≠ [] ∧ (∀ c ∈ w, IsLetter c) ∧ ∀ c ∈ w, endsWord [c] = false := by
  obtain ⟨hne, hcapital⟩ := (capitals_of_mem_phrases (words_mem_phrases k)).2 w hw
  have hletter : ∀ c ∈ w, IsLetter c := fun c hc => isLetter_of_isCapital (hcapital c hc)
  exact ⟨hne, hletter, fun c hc => (hletter c hc).not_endsWord []⟩

theorem closedPhrase?_last (w r : Text) : closedPhrase? (· == ·) [w] (w ++ r) =
    if endsWord r = true then some w.length else none := by
  have hstarts : startsWith (· == ·) w (w ++ r) = true :=
    startsWith_iff.mpr (List.prefix_append w r)
  rw [closedPhrase?, phraseLength?, if_pos hstarts, Option.filter_some, List.drop_left]

/-- A word stands at the front of a text if it is the first run of it. -/
theorem closedPhrase?_singleton {w : Text} (hw : ∀ c ∈ w, endsWord [c] = false) {s : Text} :
    closedPhrase? (· == ·) [w] s ≠ none ↔ s.firstRun = w := by
  constructor
  · intro h
    obtain ⟨n, hn⟩ := Option.ne_none_iff_exists'.mp h
    obtain ⟨v, r, hv, rfl, hr, -⟩ := first_of_closedPhrase? (by simp) hn
    cases hv
    rw [Text.firstRun_append _ hr, Text.firstRun_eq_self hw]
  · intro h
    obtain ⟨r, hs, hr⟩ := s.exists_eq_firstRun_append
    rw [hs, h, closedPhrase?_last, if_pos hr]
    exact Option.some_ne_none _

/-- A phrase of more words stands at the front if its first word does, and the others behind some
blanks. -/
theorem closedPhrase?_cons (w next : Text) (ws : List Text) (r : Text) :
    closedPhrase? (· == ·) (w :: next :: ws) (w ++ r) = if Text.gap r = 0 then none else
      (closedPhrase? (· == ·) (next :: ws) (Text.trimStart r)).map
        (w.length + Text.gap r + ·) := by
  have hstarts : startsWith (· == ·) w (w ++ r) = true :=
    startsWith_iff.mpr (List.prefix_append w r)
  rw [closedPhrase?, phraseLength?, if_pos hstarts, List.drop_left]
  dsimp only
  split
  · rfl
  · rw [← trimStart_eq_drop, closedPhrase?, Option.filter_map]
    congr 2
    funext n
    rw [Function.comp_apply, Nat.add_assoc, List.drop_length_add_append, ← List.drop_drop,
      trimStart_eq_drop]

/-! ## 4. Keywords and the tokens behind a word -/

/-- The tokens begin with these words, the last of which may be the beginning of a token. -/
def Begins : List Text → List Token → Prop
  | [w], t :: _ => t.text.firstRun = w
  | w :: next :: ws, t :: ts => t = .word w ∧ Begins (next :: ws) ts
  | _, _ => False

/-- The tokens make a keyword of the word in front of them. -/
def Completes (u : Text) (ts : List Token) : Prop :=
  ∃ (k : Keyword) (ws : List Text), k.words = u :: ws ∧ Begins ws ts

section

variable {u r : Text} (hu : ∀ c ∈ u, endsBareWord c = false)
  (hr : ∀ c ∈ r.head?, endsBareWord c = true)

include hr in
/-- Blanks stand between a bare word and a phrase that follows. -/
theorem gap_ne_zero {k : Keyword} {next : Text} {ws : List Text} (hnext : next ∈ k.words)
    (h : closedPhrase? (· == ·) (next :: ws) (Text.trimStart r) ≠ none) : Text.gap r ≠ 0 := by
  intro hgap
  have htrim : Text.trimStart r = r := by rw [trimStart_eq_drop, hgap, List.drop_zero]
  obtain ⟨n, hn⟩ := Option.ne_none_iff_exists'.mp h
  obtain ⟨v, r', hv, heq, -, -⟩ := first_of_closedPhrase? (by simp) hn
  obtain rfl := Option.some.inj hv
  obtain ⟨hne, -, hends⟩ := letters_of_mem_words hnext
  obtain ⟨c, v, rfl⟩ := List.exists_cons_of_ne_nil hne
  have hc := endsWord_of_endsBareWord (hr c (by rw [← htrim, heq]; rfl))
  rw [hends c List.mem_cons_self] at hc
  cases hc

include hu hr in
/-- Where a phrase stands at the front of a bare word and what follows, it is the word up to the
first quote in it, or all of the word and more words behind it. -/
theorem closedPhrase?_bare (k : Keyword) :
    closedPhrase? (· == ·) k.words (u ++ r) ≠ none ↔ k.words = [u.firstRun] ∨
      ∃ next ws, k.words = u :: next :: ws ∧
        closedPhrase? (· == ·) (next :: ws) (Text.trimStart r) ≠ none := by
  have hends := endsWord_of_head? fun c hc => endsWord_of_endsBareWord (hr c hc)
  constructor
  · intro h
    obtain ⟨n, hn⟩ := Option.ne_none_iff_exists'.mp h
    obtain ⟨w, r', hfirst, heq, hr', hmore⟩ :=
      first_of_closedPhrase? (capitals_of_mem_phrases (words_mem_phrases k)).1 hn
    have hrun : u.firstRun = w := by
      rw [← Text.firstRun_append u hends, heq, Text.firstRun_append w hr',
        Text.firstRun_eq_self (letters_of_mem_words (List.mem_of_mem_head? hfirst)).2.2]
    obtain ⟨ws, hws⟩ := List.head?_eq_some_iff.mp hfirst
    rcases hmore with hwords | ⟨c, hc, hblank⟩
    · exact Or.inl (by rw [hwords, hrun])
    -- the blank stands behind the bare word, which holds none
    obtain ⟨v, hv, -⟩ := u.exists_eq_firstRun_append
    rw [hrun] at hv
    cases v with
    | nil =>
      rw [List.append_nil] at hv
      subst hv
      cases ws with
      | nil => exact Or.inl (by rw [hws, hrun])
      | cons next ws =>
        refine Or.inr ⟨next, ws, hws, fun hnone => h ?_⟩
        rw [hws, closedPhrase?_cons, hnone]
        simp
    | cons d v =>
      have hd : c = d := by
        rw [hv, List.append_assoc, List.append_cancel_left_eq] at heq
        rw [← heq] at hc
        exact (Option.some.inj hc).symm
      have hbare := hu c (by rw [hv, hd]; simp)
      simp [endsBareWord, hblank] at hbare
  · rintro (hwords | ⟨next, ws, hws, h⟩)
    · have hletters := letters_of_mem_words (k := k) (w := u.firstRun) (by simp [hwords])
      rw [hwords, closedPhrase?_singleton hletters.2.2, Text.firstRun_append u hends]
    · rw [hws, closedPhrase?_cons, if_neg (gap_ne_zero hr (k := k) (by simp [hws]) h)]
      simpa using h

end

/-- **A word at the front of a text** is the beginning of its tokens. -/
theorem closedPhrase?_singleton_iff_begins {k : Keyword} {w : Text} (hw : w ∈ k.words) (s : Text) :
    closedPhrase? (· == ·) [w] (Text.trimStart s) ≠ none ↔ Begins [w] s.tokens := by
  obtain ⟨hne, hletters, hends⟩ := letters_of_mem_words hw
  rw [closedPhrase?_singleton hends]
  induction s using Text.lead_induction with
  | blanks g hg =>
    rw [Text.trimStart_blanks hg, Text.tokens_blanks hg]
    exact iff_of_false hne.symm id
  | token g u r t hg h _ =>
    rw [Text.trimStart_append hg, h.trimStart, h.tokens_append hg]
    exact firstRun_lead h hne hletters

/-- `NOT` in front of `NULL` is a word: no keyword begins with both. -/
theorem leads_not {r : Text} (hr : ∀ c ∈ r.head?, endsBareWord c = true)
    (hnull : (Text.trimStart r).firstRun = "NULL".toList) :
    Leads "NOT".toList (.word "NOT".toList) r := by
  obtain ⟨-, hletters, -⟩ := letters_of_mem_words (k := .notInList) List.mem_cons_self
  have hbare : ∀ c ∈ "NOT".toList, endsBareWord c = false := fun c hc =>
    (hletters c hc).not_endsBareWord
  have hquote : ∀ c ∈ "NOT".toList.head?, isQuote c = false := fun c hc =>
    (hletters c (List.mem_of_head? hc)).not_isQuote
  refine leads_bare (by decide) hbare hr hquote (symbol?_eq_none (Or.inl (by decide))) ?_
  refine read?_eq_none_iff.mpr fun k => ?_
  by_contra hk
  rcases (closedPhrase?_bare hbare hr k).mp hk with hwords | ⟨next, ws, hwords, h⟩
  · have hall : ∀ k : Keyword, k.words ≠ ["NOT".toList] := by
      intro k
      cases k <;> decide
    exact hall k hwords
  · have hall : ∀ k : Keyword, k.words.head? = some "NOT".toList →
        k.words.length = 2 ∧ k.words.getLast? ≠ some "NULL".toList := by
      intro k
      cases k <;> decide
    obtain ⟨hlength, hlast⟩ := hall k (by rw [hwords]; rfl)
    obtain rfl : ws = [] := by simpa [hwords] using hlength
    rw [closedPhrase?_singleton (letters_of_mem_words (k := k) (by simp [hwords])).2.2, hnull] at h
    rw [hwords, ← h] at hlast
    exact hlast rfl

/-- The one phrase of two words that ends a keyword: `NOT` is a token of its own in it. -/
theorem closedPhrase?_not_null_iff_begins (s : Text) :
    closedPhrase? (· == ·) ["NOT".toList, "NULL".toList] (Text.trimStart s) ≠ none ↔
      Begins ["NOT".toList, "NULL".toList] s.tokens := by
  have hmem : "NULL".toList ∈ isNotNull.words := by decide
  have hletters := letters_of_mem_words hmem
  induction s using Text.lead_induction with
  | blanks g hg =>
    rw [Text.trimStart_blanks hg, Text.tokens_blanks hg]
    exact iff_of_false (fun h => h rfl) id
  | token g u r t hg h _ =>
    rw [Text.trimStart_append hg, h.trimStart, h.tokens_append hg]
    constructor
    · intro hphrase
      obtain ⟨n, hn⟩ := Option.ne_none_iff_exists'.mp hphrase
      obtain ⟨v, r', hv, heq, -, hmore⟩ := first_of_closedPhrase? (by simp) hn
      obtain rfl := Option.some.inj hv
      have hr' : ∀ c ∈ r'.head?, endsBareWord c = true := by
        intro c hc
        obtain ⟨d, hd, hblank⟩ := hmore.resolve_left (by simp)
        rw [Option.mem_unique hc hd]
        simp [endsBareWord, hblank]
      have hnull : closedPhrase? (· == ·) ["NULL".toList] (Text.trimStart r') ≠ none := by
        intro hnone
        rw [heq, closedPhrase?_cons, hnone] at hphrase
        simp at hphrase
      have hleads := leads_not hr' ((closedPhrase?_singleton hletters.2.2).mp hnull)
      obtain ⟨-, rfl, rfl⟩ := h.unique hleads heq
      exact ⟨rfl, (closedPhrase?_singleton_iff_begins hmem r).mp hnull⟩
    · rintro ⟨rfl, hbegins⟩
      obtain rfl := h.eq_word
      have hnull := (closedPhrase?_singleton_iff_begins hmem r).mpr hbegins
      rw [closedPhrase?_cons, if_neg (gap_ne_zero (h.bare (by decide)).2 hmem hnull)]
      simpa using hnull

/-- **What follows the first word of a keyword** stands behind it if the tokens there begin with
it. -/
theorem closedPhrase?_iff_begins {k : Keyword} {w next : Text} {ws : List Text}
    (hk : k.words = w :: next :: ws) (s : Text) :
    closedPhrase? (· == ·) (next :: ws) (Text.trimStart s) ≠ none ↔
      Begins (next :: ws) s.tokens := by
  cases ws with
  | nil => exact closedPhrase?_singleton_iff_begins (k := k) (by simp [hk]) s
  | cons v more =>
    obtain ⟨rfl, rfl, rfl⟩ : next = "NOT".toList ∧ v = "NULL".toList ∧ more = [] := by
      cases k <;> cases hk
      exact ⟨rfl, rfl, rfl⟩
    exact closedPhrase?_not_null_iff_begins s

/-- **A bare word and what follows** are no keyword if the word up to its first quote is none and
the tokens behind the word do not make it one. -/
theorem read?_bare_eq_none_iff {u r : Text} (hu : ∀ c ∈ u, endsBareWord c = false)
    (hr : ∀ c ∈ r.head?, endsBareWord c = true) : read? (u ++ r) = none ↔
      (∀ k : Keyword, k.words ≠ [u.firstRun]) ∧ ¬ Completes u r.tokens := by
  have hphrase : ∀ k : Keyword, closedPhrase? (· == ·) k.words (u ++ r) ≠ none ↔
      k.words = [u.firstRun] ∨ ∃ ws, k.words = u :: ws ∧ Begins ws r.tokens := by
    intro k
    rw [closedPhrase?_bare hu hr k]
    refine or_congr_right ⟨?_, ?_⟩
    · rintro ⟨next, ws, hk, h⟩
      exact ⟨next :: ws, hk, (closedPhrase?_iff_begins hk r).mp h⟩
    · rintro ⟨ws, hk, h⟩
      cases ws with
      | nil => simp [Begins] at h
      | cons next ws => exact ⟨next, ws, hk, (closedPhrase?_iff_begins hk r).mpr h⟩
  rw [read?_eq_none_iff]
  constructor
  · intro h
    refine ⟨fun k hk => (hphrase k).mpr (Or.inl hk) (h k), ?_⟩
    rintro ⟨k, ws, hk, hbegins⟩
    exact (hphrase k).mpr (Or.inr ⟨ws, hk, hbegins⟩) (h k)
  · rintro ⟨hwords, hcompletes⟩ k
    by_contra hk
    rcases (hphrase k).mp hk with h | ⟨ws, h, hbegins⟩
    · exact hwords k h
    · exact hcompletes ⟨k, ws, h, hbegins⟩

end Keyword

/-- **What is behind a bare word** counts through its tokens: in front of another text the word is
read alike, unless the tokens there make a keyword of it. -/
theorem Leads.behind {u r r' : Text} (h : Leads u (.word u) r)
    (hquote : ∀ c ∈ u.head?, isQuote c = false) (hr' : ∀ c ∈ r'.head?, endsBareWord c = true)
    (htokens : Keyword.Completes u r'.tokens → Keyword.Completes u r.tokens) :
    Leads u (.word u) r' := by
  obtain ⟨hu, hr⟩ := h.bare (by simp [quotedLength?_eq_none hquote])
  obtain ⟨hsymbol, hread, -⟩ := Token.scan_word h.scan
  obtain ⟨c, w, hcons, -⟩ := h.starts
  have hends : ∀ {x : Text}, (∀ c ∈ x.head?, endsBareWord c = true) →
      symbol? (u ++ x) = symbol? u := fun hx =>
    symbol?_append u fun c hc => Or.inl (endsWord_of_endsBareWord (hx c hc))
  obtain ⟨hwords, hcompletes⟩ := (Keyword.read?_bare_eq_none_iff hu hr).mp hread
  refine leads_bare (by simp [hcons]) hu hr' hquote (by rw [hends hr', ← hends hr, hsymbol]) ?_
  exact (Keyword.read?_bare_eq_none_iff hu hr').mpr ⟨hwords, fun hc => hcompletes (htokens hc)⟩

end Sieve
