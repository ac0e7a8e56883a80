/-
# What a change of case leaves alone

Rewriting turns some letters into capitals and does nothing else.  The lexer looks at letters
only to find keywords: blanks, symbols, quotes and the ends of words stand where they stood, so
the first token of a text takes as many characters as before, unless a keyword is read there.
And a keyword that is read in capitals stood there before, in some case.

* `Recased`, `capitalize_recased`: what may become of a character;
* `length?_recased`, `symbol?_recased`, `wordLength_recased`: what stays;
* `Stands.of_recased`: the phrases that stand in the rewritten text stood there before;
* `Token.scan_recased`: the first token, before and after.
-/
import Sieve.Proofs.Lexeme
import Mathlib.Data.List.Find

namespace Sieve

namespace Keyword

/-! ## 1. Letters and their capitals -/

theorem isLetter_capital {c : Char} (h : IsLetter c) : IsLetter (capital c) := by
  unfold capital
  split
  · exact isLetter_of_isCapital (by decide)
  · have hup := toNat_toUpper c
    unfold IsLetter at h ⊢
    split at hup <;> omega

theorem capital_of_isCapital {c : Char} (h : IsCapital c) : capital c = c := by
  have hne : c ≠ 'ſ' := by
    rintro rfl
    exact absurd h (by decide)
  have hup := toNat_toUpper c
  unfold IsCapital at h
  rw [if_neg (by omega)] at hup
  rw [capital, if_neg (by simpa using hne)]
  exact Char.toNat_inj.mp hup

theorem toUpper_toUpper (c : Char) : c.toUpper.toUpper = c.toUpper := by
  refine Char.toNat_inj.mp ?_
  have h := toNat_toUpper c
  rw [toNat_toUpper c.toUpper, if_neg]
  split at h <;> omega

/-- Only a small letter becomes a capital one. -/
theorem eq_of_toUpper_not_isCapital {c d : Char} (h : c.toUpper = d) (hd : ¬ IsCapital d) :
    c = d := by
  refine Char.toNat_inj.mp ?_
  have hup := toNat_toUpper c
  unfold IsCapital at hd
  rw [h] at hup
  split at hup <;> omega

/-- What the capital of a letter folds into, the letter folds into. -/
theorem folds_of_folds_capital {w c : Char} (h : folds w (capital c) = true) :
    folds w c = true := by
  unfold capital at h
  split at h
  · rename_i hc
    obtain rfl : c = 'ſ' := by simpa using hc
    rcases folds_iff.mp h with hw | ⟨-, hc⟩ | ⟨-, hc⟩
    · exact folds_iff.mpr (Or.inr (Or.inl ⟨hw ▸ by decide, rfl⟩))
    · exact absurd hc (by decide)
    · exact absurd hc (by decide)
  · rcases folds_iff.mp h with hw | ⟨rfl, hc⟩ | ⟨rfl, hc⟩
    · exact folds_iff.mpr (Or.inl ((toUpper_toUpper c).symm.trans hw))
    · exact folds_iff.mpr (Or.inr (Or.inl ⟨rfl, eq_of_toUpper_not_isCapital hc (by decide)⟩))
    · exact folds_iff.mpr (Or.inr (Or.inr ⟨rfl, eq_of_toUpper_not_isCapital hc (by decide)⟩))

/-- What rewriting may make of a character: small letters may become capitals. -/
def Recased (c d : Char) : Prop := d = c ∨ (IsLetter c ∧ ¬ IsCapital c ∧ d = capital c)

/-- **Rewriting only changes the case of letters.** -/
theorem capitalize_recased (s : Text) : List.Forall₂ Recased s (capitalize s) := by
  refine List.forall₂_iff_get.mpr ⟨(capitalize_length s).symm, fun p hp hp' => ?_⟩
  have hs : s[p]? = some (s.get ⟨p, hp⟩) := List.getElem?_eq_getElem hp
  have ht : (capitalize s)[p]? = some ((capitalize s).get ⟨p, hp'⟩) :=
    List.getElem?_eq_getElem hp'
  generalize s.get ⟨p, hp⟩ = c at hs
  generalize (capitalize s).get ⟨p, hp'⟩ = d at ht
  by_cases hr : Raised s p
  · rw [capitalize_getElem?_of_raised hr, hs, Option.map_some, Option.some.injEq] at ht
    subst ht
    obtain ⟨a, m, hphrase, -, hap, hpm⟩ := hr
    by_cases hcap : IsCapital c
    · exact Or.inl (capital_of_isCapital hcap)
    obtain ⟨ws, -, hstands⟩ := hphrase.stands
    rcases hstands.letter_or_blank hap hpm hs with hl | hb
    · exact Or.inr ⟨hl, hcap, rfl⟩
    · exact Or.inl (capital_of_isBlank hb)
  · rw [capitalize_getElem?_of_not_raised hr, hs, Option.some.injEq] at ht
    exact Or.inl ht.symm

variable {c d : Char} {s t : Text}

/-- A letter stays a letter. -/
theorem Recased.isLetter_iff (h : Recased c d) : IsLetter d ↔ IsLetter c := by
  rcases h with rfl | ⟨hl, -, rfl⟩
  · exact Iff.rfl
  · exact iff_of_true (isLetter_capital hl) hl

/-- All that is no letter stays as it is. -/
theorem Recased.eq_of_not_isLetter (h : Recased c d) (hc : ¬ IsLetter c) : d = c := by
  rcases h with rfl | ⟨hl, -, -⟩
  · rfl
  · exact absurd hl hc

/-- A capital letter stays as it is. -/
theorem Recased.eq_of_isCapital (h : Recased c d) (hc : IsCapital c) : d = c := by
  rcases h with rfl | ⟨-, hn, -⟩
  · rfl
  · exact absurd hc hn

/-- A test that no letter passes, or that all letters pass, has the same outcome. -/
theorem Recased.test_eq (h : Recased c d) {p : Char → Bool} {b : Bool}
    (hp : ∀ c, IsLetter c → p c = b) : p d = p c := by
  by_cases hl : IsLetter c
  · rw [hp c hl, hp d (h.isLetter_iff.mpr hl)]
  · rw [h.eq_of_not_isLetter hl]

theorem Recased.beq_eq (h : Recased c d) {x : Char} (hx : ¬ IsLetter x) :
    (d == x) = (c == x) :=
  h.test_eq (p := (· == x)) (b := false) fun e he => by simpa using he.ne hx

theorem Recased.isBlank_eq (h : Recased c d) : isBlank d = isBlank c :=
  h.test_eq fun _ he => he.not_isBlank

theorem Recased.isQuote_eq (h : Recased c d) : isQuote d = isQuote c :=
  h.test_eq fun _ he => he.not_isQuote

theorem IsLetter.not_endsBareWord (h : IsLetter c) : endsBareWord c = false := by
  simp [endsBareWord, h.not_isBlank, h.ne (d := '(') (by decide), h.ne (d := ')') (by decide)]

/-! ## 2. Texts -/

/-- A run that stops at no letter, or at all letters, is as long as before. -/
theorem takeWhile_recased {p : Char → Bool} {b : Bool} (hp : ∀ c, IsLetter c → p c = b) :
    ∀ {s t : Text}, List.Forall₂ Recased s t →
      (t.takeWhile p).length = (s.takeWhile p).length
  | [], [], .nil => rfl
  | c :: s, d :: t, .cons h hs => by
    rw [List.takeWhile_cons, List.takeWhile_cons, h.test_eq hp]
    split
    · simpa using takeWhile_recased hp hs
    · rfl

theorem gap_recased (h : List.Forall₂ Recased s t) : Text.gap t = Text.gap s :=
  takeWhile_recased (fun _ he => he.not_isBlank) h

/-- A word ends where it ended. -/
theorem endsWord_recased : ∀ {s t : Text}, List.Forall₂ Recased s t → endsWord t = endsWord s
  | [], [], .nil => rfl
  | c :: s, d :: t, .cons h _ => by
    rw [endsWord, endsWord, h.isBlank_eq, h.isQuote_eq, h.beq_eq (x := '(') (by decide),
      h.beq_eq (x := ')') (by decide)]

/-- A quoted span ends where it ended, if a backslash protects every letter. -/
theorem closing?_recased {protectable : Char → Bool}
    (hp : ∀ c, IsLetter c → protectable c = true) {q : Char} (hq : ¬ IsLetter q) :
    ∀ {s t : Text}, List.Forall₂ Recased s t →
      Quoted.closing? protectable q t = Quoted.closing? protectable q s
  | [], [], .nil => rfl
  | [c], [d], .cons h .nil => by
    have hb := h.beq_eq (x := '\\') (by decide)
    have hc := h.beq_eq hq
    simp only [beq_eq_beq] at hb hc
    simp only [Quoted.closing?, ne_eq, hb, hc]
  | c :: c' :: s, d :: d' :: t, .cons h (.cons h' hs) => by
    have hb := h.beq_eq (x := '\\') (by decide)
    have hc := h.beq_eq hq
    simp only [beq_eq_beq] at hb hc
    simp only [Quoted.closing?, hb, hc, h'.test_eq hp, closing?_recased hp hq hs,
      closing?_recased hp hq (.cons h' hs)]

/-- A quoted span is as long as before. -/
theorem length?_recased {protectable : Char → Bool}
    (hp : ∀ c, IsLetter c → protectable c = true) : ∀ {s t : Text}, List.Forall₂ Recased s t →
      Quoted.length? protectable t = Quoted.length? protectable s
  | [], [], .nil => rfl
  | c :: s, d :: t, .cons h hs => by
    rw [Quoted.length?, Quoted.length?, h.isQuote_eq]
    split
    · rename_i hq
      have hl : ¬ IsLetter c := fun hl => by
        rw [hl.not_isQuote] at hq
        cases hq
      rw [h.eq_of_not_isLetter hl, closing?_recased hp hl hs]
    · rfl

/-- A quoted string is as long as before. -/
theorem quotedLength?_recased (h : List.Forall₂ Recased s t) :
    quotedLength? t = quotedLength? s := by
  rw [quotedLength?_eq]
  exact length?_recased (fun _ _ => rfl) h

/-- What is copied is as long as before. -/
theorem spanLength?_recased (h : List.Forall₂ Recased s t) : spanLength? t = spanLength? s := by
  rw [spanLength?_eq]
  exact length?_recased (fun c hc => by simpa using hc.ne (d := '\n') (by decide)) h

/-- A word is as long as before. -/
theorem wordLength_recased (h : List.Forall₂ Recased s t) : wordLength t = wordLength s := by
  unfold wordLength
  rw [quotedLength?_recased h, takeWhile_recased (b := true) _ h]
  intro c hl
  rw [hl.not_endsBareWord]
  rfl

theorem isPrefixOf_recased : ∀ {w s t : Text}, (∀ c ∈ w, ¬ IsLetter c) →
    List.Forall₂ Recased s t → w.isPrefixOf t = w.isPrefixOf s
  | [], _, _, _, _ => by simp
  | _ :: _, [], [], _, .nil => rfl
  | x :: w, c :: s, d :: t, hw, .cons h hs => by
    have hx := h.beq_eq (hw x List.mem_cons_self)
    rw [List.isPrefixOf_cons_cons, List.isPrefixOf_cons_cons, BEq.comm, hx, BEq.comm,
      isPrefixOf_recased (fun c hc => hw c (List.mem_cons_of_mem x hc)) hs]

/-- The symbols stand where they stood. -/
theorem symbol?_recased (h : List.Forall₂ Recased s t) : symbol? t = symbol? s := by
  unfold symbol?
  refine List.find?_congr fun op hop => ?_
  exact isPrefixOf_recased (fun c hc => ((symbols_chars op hop).2 c hc).1) h

/-! ## 3. Phrases -/

theorem folds_recased {w : Text} (hs : List.Forall₂ Recased s t)
    (hw : List.Forall₂ (fun a c => IsCapital a ∧ folds a c = true) w t) :
    List.Forall₂ (fun a c => IsCapital a ∧ folds a c = true) w s := by
  induction hs generalizing w with
  | nil => exact hw
  | cons h _ ih =>
    cases hw with
    | cons ha hw =>
      refine .cons ⟨ha.1, ?_⟩ (ih hw)
      rcases h with rfl | ⟨-, -, rfl⟩
      · exact ha.2
      · exact folds_of_folds_capital ha.2

/-- What spells a phrase in the rewritten text spelled it before. -/
theorem Spells.of_recased {ws : List Text} (h : Spells ws t) (hs : List.Forall₂ Recased s t) :
    Spells ws s := by
  induction h generalizing s with
  | last hw => exact .last ⟨hw.ne_nil, folds_recased hs hw.letters⟩
  | @cons w t b body ws hw hne hb _ ih =>
    have ht := List.forall₂_take_append s t (b ++ body) hs
    have hrest := List.forall₂_drop_append s t (b ++ body) hs
    have hblanks := List.forall₂_take_append _ b body hrest
    have hbody := List.forall₂_drop_append _ b body hrest
    have hcut : s = s.take t.length ++ ((s.drop t.length).take b.length ++
        (s.drop t.length).drop b.length) := by
      rw [List.take_append_drop, List.take_append_drop]
    rw [hcut]
    refine .cons ⟨hw.ne_nil, folds_recased ht hw.letters⟩ ?_ ?_ (ih hbody)
    · intro hnil
      rw [hnil, List.forall₂_nil_left_iff] at hblanks
      exact hne hblanks
    · intro c hc
      obtain ⟨p, hp, rfl⟩ := List.getElem_of_mem hc
      have hrec := hblanks.get hp (hblanks.length_eq ▸ hp)
      have hblank := hb _ (List.get_mem b ⟨p, hblanks.length_eq ▸ hp⟩)
      rwa [hrec.isBlank_eq] at hblank

/-- **A phrase that stands in the rewritten text stood there before.** -/
theorem Stands.of_recased {ws : List Text} {b m : Nat} (h : Stands ws t b m)
    (hs : List.Forall₂ Recased s t) : Stands ws s b m := by
  refine ⟨h.spells.of_recased (List.forall₂_take m (List.forall₂_drop b hs)), ?_, ?_⟩
  · rw [hs.length_eq]
    exact h.le_length
  · rw [← endsWord_recased (List.forall₂_drop (b + m) hs)]
    exact h.ends

theorem startsWith_recased : ∀ {w s t : Text}, (∀ c ∈ w, IsCapital c) →
    List.Forall₂ Recased s t → startsWith (· == ·) w s = true →
      startsWith (· == ·) w t = true
  | [], _, _, _, _, _ => rfl
  | _ :: _, [], [], _, .nil, h => by cases h
  | a :: w, c :: s, d :: t, hw, .cons h hs, hstart => by
    rw [startsWith, Bool.and_eq_true, beq_iff_eq] at hstart ⊢
    obtain ⟨rfl, hrest⟩ := hstart
    exact ⟨(h.eq_of_isCapital (hw a List.mem_cons_self)).symm,
      startsWith_recased (fun c hc => hw c (List.mem_cons_of_mem a hc)) hs hrest⟩

/-- A phrase in capitals stays where it is. -/
theorem phraseLength?_recased : ∀ {ws : List Text} {s t : Text} {m : Nat},
    (∀ w ∈ ws, ∀ c ∈ w, IsCapital c) → List.Forall₂ Recased s t →
      phraseLength? (· == ·) ws s = some m → phraseLength? (· == ·) ws t = some m
  | [], _, _, _, _, _, h => h
  | [w], s, t, m, hws, hs, h => by
    rw [phraseLength?] at h ⊢
    split at h
    · rename_i hstart
      rw [if_pos (startsWith_recased (hws w List.mem_cons_self) hs hstart), h]
    · cases h
  | w :: next :: ws, s, t, m, hws, hs, h => by
    rw [phraseLength?] at h ⊢
    split at h
    · rename_i hstart
      have hdrop := List.forall₂_drop w.length hs
      dsimp only at h ⊢
      rw [if_pos (startsWith_recased (hws w List.mem_cons_self) hs hstart), gap_recased hdrop]
      split at h
      · cases h
      · rename_i hgap
        obtain ⟨n, hn, rfl⟩ := Option.map_eq_some_iff.mp h
        rw [if_neg hgap, phraseLength?_recased (fun v hv => hws v (List.mem_cons_of_mem w hv))
          (List.forall₂_drop _ hdrop) hn, Option.map_some]
    · cases h

/-- A keyword in capitals is still read. -/
theorem read?_recased {k : Keyword} {n : Nat} (hs : List.Forall₂ Recased s t)
    (h : read? s = some (k, n)) : read? t ≠ none := by
  obtain ⟨hn, hends⟩ := Option.filter_eq_some_iff.mp (closedPhrase?_of_read? h)
  have hcap : ∀ w ∈ k.words, ∀ c ∈ w, IsCapital c := fun w hw =>
    ((capitals_of_mem_phrases (words_mem_phrases k)).2 w hw).2
  have hclosed : closedPhrase? (· == ·) k.words t = some n := by
    refine Option.filter_eq_some_iff.mpr ⟨phraseLength?_recased hcap hs hn, ?_⟩
    rwa [endsWord_recased (List.forall₂_drop n hs)]
  intro hnone
  rw [read?_eq_none_iff.mp hnone k] at hclosed
  cases hclosed

end Keyword

/-! ## 4. The first token -/

open Keyword

/-- **The first token of a rewritten text takes as many characters as before, unless it is a
keyword.** -/
theorem Token.scan_recased {s t : Text} (hs : List.Forall₂ Recased s t) :
    (Token.scan t).2 = (Token.scan s).2 ∨ ∃ k, Keyword.read? t = some (k, (Token.scan t).2) := by
  have hsymbol := symbol?_recased hs
  cases hsym : symbol? s with
  | some op =>
    left
    unfold Token.scan
    rw [hsymbol, hsym]
  | none =>
    rw [hsym] at hsymbol
    cases ht : Keyword.read? t with
    | some found =>
      right
      refine ⟨found.1, ?_⟩
      unfold Token.scan
      rw [hsymbol, ht]
    | none =>
      left
      have hread : Keyword.read? s = none := by
        by_contra hread
        obtain ⟨⟨k, n⟩, hk⟩ := Option.ne_none_iff_exists'.mp hread
        exact read?_recased hs hk ht
      cases hs with
      | nil => rfl
      | @cons c d s t h hs =>
        by_cases hparen : c = '(' ∨ c = ')'
        · have hl : ¬ IsLetter c := by
            rcases hparen with rfl | rfl <;> decide
          obtain rfl := h.eq_of_not_isLetter hl
          unfold Token.scan
          rw [hsymbol, hsym, ht, hread]
          rcases hparen with rfl | rfl <;> rfl
        · obtain ⟨hopen, hclose⟩ := not_or.mp hparen
          have hopen' : d ≠ '(' := by
            rwa [ne_eq, ← beq_iff_eq, h.beq_eq (by decide), beq_iff_eq]
          have hclose' : d ≠ ')' := by
            rwa [ne_eq, ← beq_iff_eq, h.beq_eq (by decide), beq_iff_eq]
          rw [Token.scan_eq_word hsymbol ht hopen' hclose',
            Token.scan_eq_word hsym hread hopen hclose]
          exact wordLength_recased (List.Forall₂.cons h hs)

end Sieve
