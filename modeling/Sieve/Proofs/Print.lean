/-
# Keywords in any case

Tokens are printed with a space between, the letters of a keyword in any case.  Once keywords
are in capitals, what is printed is read as the same tokens.

The rewriting and the lexer both work piece by piece.  A closed string is copied and read as a
whole, whatever it holds.  A keyword behind a space is found in any case, because what is
written out is found, and put in capitals.  Every other piece is left alone: a word that only
begins like a keyword, such as `or-ish`, does not end where a keyword may end, so a phrase that
stood there would begin with the whole word.

* `Keyword.capitalize_intercalate`: rewriting piece by piece;
* `IsBare`, `isBare_iff`: bare words that are no part of a keyword;
* `Token.Printable`, `Token.IsPrint`: the tokens that are printed, and how;
* `tokens_capitalize_print`: what is printed is read again.
-/
import Sieve.Proofs.Front

namespace Sieve

namespace Keyword

/-! ## 1. Rewriting piece by piece -/

/-- Nothing follows, or a space. -/
def Apart (r : Text) : Prop := ∀ c ∈ r.head?, c = ' '

theorem Apart.endsWord {r : Text} (h : Apart r) : endsWord r = true := by
  cases r with
  | nil => rfl
  | cons c r =>
    obtain rfl := h c rfl
    rfl

/-- The pieces, each with a space in front. -/
def spaced (ps : List Text) : Text := ps.flatMap (' ' :: ·)

theorem apart_spaced (ps : List Text) : Apart (spaced ps) := by
  cases ps with
  | nil => exact fun _ h => nomatch h
  | cons p ps =>
    rintro c ⟨⟩
    rfl

theorem intercalate_eq_spaced (p : Text) (ps : List Text) :
    [' '].intercalate (p :: ps) = p ++ spaced ps := by
  induction ps generalizing p with
  | nil => simp [spaced]
  | cons p' ps ih =>
    rw [List.intercalate_cons_cons, ih]
    simp [spaced]

/-- Behind a space the piece `p` is rewritten as `u`, whatever follows it. -/
def Rewrites (p u : Text) : Prop :=
  ∀ r, Apart r → capitalFrom (' ' :: (p ++ r)) = ' ' :: (u ++ capitalFrom r)

/-- The same at the beginning of the text. -/
def RewritesFirst (p u : Text) : Prop :=
  ∀ r, Apart r → capitalize (p ++ r) = u ++ capitalFrom r

theorem capitalFrom_spaced {ps us : List Text} (h : List.Forall₂ Rewrites ps us) :
    capitalFrom (spaced ps) = spaced us := by
  induction h with
  | nil =>
    unfold spaced capitalFrom
    rfl
  | @cons p u ps us hp _ ih =>
    have hps : spaced (p :: ps) = ' ' :: (p ++ spaced ps) := rfl
    rw [hps, hp _ (apart_spaced ps), ih]
    rfl

/-- **Pieces are rewritten one by one.** -/
theorem capitalize_intercalate {p u : Text} {ps us : List Text} (hp : RewritesFirst p u)
    (hps : List.Forall₂ Rewrites ps us) :
    capitalize ([' '].intercalate (p :: ps)) = [' '].intercalate (u :: us) := by
  rw [intercalate_eq_spaced, intercalate_eq_spaced, hp _ (apart_spaced ps),
    capitalFrom_spaced hps]

section

variable {c : Char} {r : Text} {n : Nat}

/-- A character with a span behind it. -/
theorem capitalFrom_span (hc : opensSpan c = true) (hn : spanLength? r = some n) :
    capitalFrom (c :: r) = c :: r.take n ++ capitalFrom (r.drop n) := by
  conv_lhs => unfold capitalFrom
  rw [if_pos hc, hn]

/-- A blank with a phrase behind it. -/
theorem capitalFrom_phrase (hc : isBlank c = true) (hspan : spanLength? r = none)
    (hgap : Text.gap r = 0) (hn : foldedLength? r = some n) :
    capitalFrom (c :: r) = c :: (r.take n).map capital ++ capitalFrom (r.drop n) := by
  conv_lhs => unfold capitalFrom
  simp only [hspan, ite_self, hgap, List.drop_zero, Nat.zero_add, if_pos hc, hn]

/-- A character with neither behind it. -/
theorem capitalFrom_cons (hspan : spanLength? r = none)
    (hphrase : isBlank c = true → foldedLength? (r.drop (Text.gap r)) = none) :
    capitalFrom (c :: r) = c :: capitalFrom r := by
  conv_lhs => unfold capitalFrom
  simp only [hspan, ite_self, ite_eq_right_iff.mpr hphrase]

end

/-- A text that starts with no quote starts with no span. -/
theorem spanLength?_eq_none {s : Text} (h : ∀ c ∈ s.head?, isQuote c = false) :
    spanLength? s = none := by
  rw [spanLength?_eq]
  exact Quoted.length?_eq_none (by simpa [List.head?_eq_getElem?] using h)

theorem gap_eq_zero {s : Text} (h : ∀ c ∈ s.head?, isBlank c = false) : Text.gap s = 0 := by
  cases s with
  | nil => rfl
  | cons c s => simp [Text.gap, h c rfl]

/-! ## 2. Pieces -/

/-- A closed string is copied. -/
theorem rewrites_of_span {p : Text} (h : spanLength? p = some p.length) :
    Rewrites p p ∧ RewritesFirst p p := by
  have happend : ∀ r, spanLength? (p ++ r) = some p.length := by
    rw [spanLength?_eq] at h ⊢
    exact Quoted.length?_append h
  constructor
  · intro r _
    rw [capitalFrom_span rfl (happend r), List.take_left, List.drop_left]
    rfl
  · intro r _
    rw [capitalize, happend r]
    simp only [List.take_left, List.drop_left]

/-- A phrase that is written out is put in capitals. -/
theorem rewrites_of_spells {ws : List Text} {p : Text} (hws : ws ∈ phrases) (h : Spells ws p) :
    Rewrites p (p.map capital) := by
  intro r hr
  have hhead := h.head_append r
  have hstands : Stands ws (p ++ r) 0 p.length :=
    ⟨by simpa using h, by simp, by simpa using hr.endsWord⟩
  rw [capitalFrom_phrase rfl (spanLength?_eq_none fun c hc => (hhead c hc).not_isQuote)
    (gap_eq_zero fun c hc => (hhead c hc).not_isBlank)
    (foldedLength?_of_stands hws hstands), List.take_left, List.drop_left]
  rfl

/-- A piece without blanks and quotes that does not start as a phrase, whatever follows it. -/
structure Inert (p : Text) : Prop where
  ne_nil : p ≠ []
  chars : ∀ c ∈ p, isBlank c = false ∧ isQuote c = false
  no_phrase : ∀ r, Apart r → foldedLength? (p ++ r) = none

namespace Inert

/-- Along characters that are neither blanks nor quotes nothing is rewritten. -/
theorem capitalFrom_append {r : Text} (hr : Apart r) : ∀ {p : Text},
    (∀ c ∈ p, isBlank c = false ∧ isQuote c = false) → capitalFrom (p ++ r) = p ++ capitalFrom r
  | [], _ => rfl
  | c :: p, hp => by
    have hspan : spanLength? (p ++ r) = none := by
      refine spanLength?_eq_none fun d hd => ?_
      cases p with
      | nil =>
        obtain rfl := hr d hd
        rfl
      | cons e p =>
        cases hd
        exact (hp d (by simp)).2
    have hblank : isBlank c = true → foldedLength? ((p ++ r).drop (Text.gap (p ++ r))) = none := by
      rw [(hp c List.mem_cons_self).1]
      exact fun h => nomatch h
    rw [List.cons_append, capitalFrom_cons hspan hblank,
      capitalFrom_append hr fun d hd => hp d (List.mem_cons_of_mem c hd)]
    rfl

variable {p : Text}

theorem head (h : Inert p) (r : Text) :
    ∀ c ∈ (p ++ r).head?, isBlank c = false ∧ isQuote c = false := by
  obtain ⟨d, p, rfl⟩ := List.exists_cons_of_ne_nil h.ne_nil
  rintro c ⟨⟩
  exact h.chars d List.mem_cons_self

theorem rewrites (h : Inert p) : Rewrites p p := by
  intro r hr
  have hgap := gap_eq_zero fun c hc => (h.head r c hc).1
  rw [capitalFrom_cons (spanLength?_eq_none fun c hc => (h.head r c hc).2)
    (by rw [hgap]; exact fun _ => h.no_phrase r hr), capitalFrom_append hr h.chars]

theorem rewritesFirst (h : Inert p) : RewritesFirst p p := by
  intro r hr
  rw [capitalize, spanLength?_eq_none fun c hc => (h.head r c hc).2]
  exact capitalFrom_append hr h.chars

/-- A piece that starts with no letter does not start as a phrase. -/
theorem of_not_isLetter (hne : p ≠ [])
    (hchars : ∀ c ∈ p, isBlank c = false ∧ isQuote c = false)
    (hhead : ∀ c ∈ p.head?, ¬ IsLetter c) : Inert p := by
  refine ⟨hne, hchars, fun r _ => ?_⟩
  obtain ⟨d, p, rfl⟩ := List.exists_cons_of_ne_nil hne
  refine Option.eq_none_iff_forall_ne_some.mpr fun m hm => ?_
  obtain ⟨ws, -, hstands⟩ := foldedLength?_spec (b := 0) hm
  exact hhead d rfl (hstands.head rfl)

end Inert

/-- A spelling starts with a spelling of the first word, which ends at its end or at a blank. -/
theorem Spells.first {ws : List Text} {body : Text} (h : Spells ws body) :
    ∃ w t b, ws.head? = some w ∧ SpellsWord w t ∧ body = t ++ b ∧
      ∀ c ∈ b.head?, isBlank c = true := by
  cases h with
  | @last w _ hw => exact ⟨w, body, [], rfl, hw, (List.append_nil body).symm, by simp⟩
  | @cons w t b body ws hw hne hb hs =>
    refine ⟨w, t, b ++ body, rfl, hw, rfl, fun c hc => hb c ?_⟩
    obtain ⟨d, b, rfl⟩ := List.exists_cons_of_ne_nil hne
    exact List.mem_of_mem_head? hc

end Keyword

/-! ## 3. Bare words -/

/-- The words that keywords are made of. -/
def reserved : List Text :=
  ["AND".toList, "OR".toList, "IN".toList, "LIKE".toList, "ILIKE".toList, "IS".toList,
    "NOT".toList, "NULL".toList]

/-- The text is the word `v`, its letters compared under case folding. -/
def FoldsTo (v u : Text) : Prop := List.Forall₂ (fun a c => Keyword.folds a c = true) v u

instance (v u : Text) : Decidable (FoldsTo v u) :=
  inferInstanceAs (Decidable (List.Forall₂ _ v u))

/-- A bare word that is a word in any company: it starts with no symbol and is no part of a
keyword. -/
structure IsBare (u : Text) : Prop where
  ne_nil : u ≠ []
  chars : ∀ c ∈ u, endsBareWord c = false ∧ isQuote c = false
  no_symbol : symbol? u = none
  not_reserved : ∀ v ∈ reserved, ¬ FoldsTo v u

instance (u : Text) : Decidable (IsBare u) :=
  decidable_of_iff (u ≠ [] ∧ (u.all fun c => !endsBareWord c && !isQuote c) = true ∧
      symbol? u = none ∧ ∀ v ∈ reserved, ¬ FoldsTo v u)
    ⟨fun ⟨hne, hu, hsymbol, hnot⟩ => ⟨hne, by simpa using hu, hsymbol, hnot⟩,
      fun h => ⟨h.ne_nil, by simpa using h.chars, h.no_symbol, h.not_reserved⟩⟩

/-- Every phrase starts with a reserved word. -/
theorem head_mem_reserved {ws : List Text} (hws : ws ∈ Keyword.phrases) {w : Text}
    (hw : ws.head? = some w) : w ∈ reserved := by
  have hall : ∀ ws ∈ Keyword.phrases, ∀ w ∈ ws.head?, w ∈ reserved := by decide
  exact hall ws hws w hw

namespace IsBare

variable {u r : Text}

/-- **No phrase stands at the front of a bare word**: its first word would be the bare word. -/
theorem not_stands (h : IsBare u) (hr : endsWord r = true) {ws : List Text}
    (hws : ws ∈ Keyword.phrases) {m : Nat} : ¬ Keyword.Stands ws (u ++ r) 0 m := by
  intro hstands
  obtain ⟨w, t, b, hw, ht, hbody, hb⟩ := hstands.spells.first
  have heq : u ++ r = t ++ (b ++ (u ++ r).drop m) := by
    rw [← List.append_assoc, ← hbody, List.drop_zero, List.take_append_drop]
  have hend : endsWord (b ++ (u ++ r).drop m) = true := by
    cases b with
    | nil => simpa using hstands.ends
    | cons c b => simp [endsWord, hb c rfl]
  have hu : ∀ c ∈ u, (!endsWord [c]) = true := by
    intro c hc
    rw [endsWord_eq_false (h.chars c hc).1 (h.chars c hc).2]
    rfl
  have hletters : ∀ c ∈ t, (!endsWord [c]) = true := by
    intro c hc
    rw [(ht.isLetter c hc).not_endsWord []]
    rfl
  obtain ⟨rfl, -⟩ := Keyword.run_unique hu hletters (endsWord_head? hr) (endsWord_head? hend) heq
  exact h.not_reserved w (head_mem_reserved hws hw) (ht.letters.imp fun _ _ hac => hac.2)

theorem inert (h : IsBare u) : Keyword.Inert u := by
  refine ⟨h.ne_nil, fun c hc => ?_, fun r hr => ?_⟩
  · obtain ⟨hbare, hquote⟩ := h.chars c hc
    simp only [endsBareWord, Bool.or_eq_false_iff] at hbare
    exact ⟨hbare.1.1, hquote⟩
  · refine Option.eq_none_iff_forall_ne_some.mpr fun m hm => ?_
    obtain ⟨ws, hws, hstands⟩ := Keyword.foldedLength?_spec (b := 0) hm
    exact h.not_stands hr.endsWord hws hstands

theorem leads (h : IsBare u) (hr : Keyword.Apart r) : Leads u (.word u) r := by
  refine leads_bare h.ne_nil (fun c hc => (h.chars c hc).1) ?_
    (fun c hc => (h.chars c (List.mem_of_mem_head? hc)).2) ?_ ?_
  · intro c hc
    rw [hr c hc]
    rfl
  · rw [symbol?_append u fun c hc => Or.inl (by rw [hr c hc]; rfl), h.no_symbol]
  · refine Option.eq_none_iff_forall_ne_some.mpr fun ⟨k, n⟩ hk => ?_
    exact h.not_stands hr.endsWord (Keyword.words_mem_phrases k) (Keyword.read?_spec (b := 0) hk)

end IsBare

/-- Bare words said with the lexer: alone the text is read as one word, it holds no quote, and
it is not a reserved word in any case. -/
theorem isBare_iff {u : Text} : IsBare u ↔
    IsWord u ∧ (∀ c ∈ u, isQuote c = false) ∧ ∀ v ∈ reserved, ¬ FoldsTo v u := by
  constructor
  · intro h
    refine ⟨isWord_of_leads (h.leads (by simp [Keyword.Apart])), fun c hc => (h.chars c hc).2,
      h.not_reserved⟩
  · rintro ⟨hword, hquote, hreserved⟩
    obtain ⟨c, w, hcons, -⟩ := hword.leads.starts
    obtain ⟨hsymbol, -, -⟩ := Token.scan_word hword.scan
    have hbare := hword.endsBareWord_eq_false fun c hc => hquote c (List.mem_of_mem_head? hc)
    exact ⟨by simp [hcons], fun c hc => ⟨hbare c hc, hquote c hc⟩, hsymbol, hreserved⟩

/-! ## 4. Printing tokens -/

namespace Token

/-- The tokens that can be printed and read again: operators of the language, parentheses,
closed strings without escapes, and bare words. -/
inductive Printable : Token → Prop
  | operator {t : Token} (ht : t.precedence ≠ none) (hk : t.Known) : Printable t
  | openParen : Printable .openParen
  | closeParen : Printable .closeParen
  | quoted {q : Char} {x : Text} (hq : isQuote q = true) (hx : ∀ c ∈ x, c ≠ q ∧ c ≠ '\\') :
      Printable (.word (q :: (x ++ [q])))
  | bare {u : Text} (hu : IsBare u) : Printable (.word u)

/-- The text prints the token: a word as it is, and every other token with its letters in any
case. -/
def IsPrint : Token → Text → Prop
  | word w, p => p = w
  | t, p => p.map Char.toUpper = t.text

instance : (t : Token) → (p : Text) → Decidable (t.IsPrint p)
  | word w, p => inferInstanceAs (Decidable (p = w))
  | and, p => inferInstanceAs (Decidable (p.map Char.toUpper = and.text))
  | or, p => inferInstanceAs (Decidable (p.map Char.toUpper = or.text))
  | compare op, p => inferInstanceAs (Decidable (p.map Char.toUpper = (compare op).text))
  | membership op, p => inferInstanceAs (Decidable (p.map Char.toUpper = (membership op).text))
  | nullTest op, p => inferInstanceAs (Decidable (p.map Char.toUpper = (nullTest op).text))
  | openParen, p => inferInstanceAs (Decidable (p.map Char.toUpper = openParen.text))
  | closeParen, p => inferInstanceAs (Decidable (p.map Char.toUpper = closeParen.text))

end Token

theorem Quoted.closing?_plain {protectable : Char → Bool} {q : Char} (hq : q ≠ '\\') :
    ∀ {x : Text}, (∀ c ∈ x, c ≠ q ∧ c ≠ '\\') →
      closing? protectable q (x ++ [q]) = some (x.length + 1)
  | [], _ => by simp [closing?, hq]
  | c :: x, hx => by
    have ih : closing? protectable q (x ++ [q]) = some (x.length + 1) :=
      closing?_plain hq fun d hd => hx d (List.mem_cons_of_mem c hd)
    obtain ⟨hcq, hcb⟩ := hx c List.mem_cons_self
    obtain ⟨d, r, hr⟩ := List.exists_cons_of_ne_nil (show x ++ [q] ≠ [] by simp)
    rw [hr] at ih
    rw [List.cons_append, hr, closing?, if_neg hcb, if_neg hcq, ih]
    rfl

/-- A string without escapes is a closed span for both readers. -/
theorem Quoted.length?_plain (protectable : Char → Bool) {q : Char} {x : Text}
    (hq : isQuote q = true) (hx : ∀ c ∈ x, c ≠ q ∧ c ≠ '\\') :
    length? protectable (q :: (x ++ [q])) = some (q :: (x ++ [q])).length := by
  have hne : q ≠ '\\' := by
    rintro rfl
    cases hq
  rw [length?, if_pos hq, closing?_plain hne hx]
  simp

namespace Keyword

theorem eq_of_map_toUpper {p u : Text} (h : p.map Char.toUpper = u)
    (hu : ∀ c ∈ u, ¬ IsCapital c) : p = u := by
  have hmap : p.map Char.toUpper = p.map id := by
    refine List.map_congr_left fun c hc => ?_
    exact (eq_of_toUpper_not_isCapital rfl (hu _ (h ▸ List.mem_map_of_mem hc))).symm
  rw [← h, hmap, List.map_id]

theorem spellsWord_of_toUpper {w p : Text} (hne : w ≠ []) (hw : ∀ c ∈ w, IsCapital c)
    (hp : p.map Char.toUpper = w) : SpellsWord w p := by
  subst hp
  refine ⟨hne, List.forall₂_map_left_iff.mpr (List.forall₂_same.mpr fun c hc => ?_)⟩
  exact ⟨hw _ (List.mem_map_of_mem hc), folds_iff.mpr (Or.inl rfl)⟩

/-- A phrase is spelled by its words in any case, with a space between. -/
theorem spells_of_toUpper : ∀ {ws : List Text} {p : Text}, ws ≠ [] →
    (∀ w ∈ ws, w ≠ [] ∧ ∀ c ∈ w, IsCapital c) →
      p.map Char.toUpper = [' '].intercalate ws → Spells ws p
  | [], _, h, _, _ => absurd rfl h
  | [w], p, _, hws, hp => by
    obtain ⟨hne, hw⟩ := hws w List.mem_cons_self
    exact .last (spellsWord_of_toUpper hne hw (by simpa using hp))
  | w :: v :: ws, p, _, hws, hp => by
    obtain ⟨hne, hw⟩ := hws w List.mem_cons_self
    rw [List.intercalate_cons_cons, List.append_assoc, List.map_eq_append_iff] at hp
    obtain ⟨t, rest, rfl, ht, hrest⟩ := hp
    obtain ⟨c, body, rfl, hc, hbody⟩ := List.map_eq_cons_iff.mp hrest
    obtain rfl := eq_of_toUpper_not_isCapital hc (by decide)
    have hspells := spells_of_toUpper (List.cons_ne_nil v ws)
      (fun u hu => hws u (List.mem_cons_of_mem w hu)) hbody
    exact .cons (b := [' ']) (spellsWord_of_toUpper hne hw ht) (by simp) (by simp [isBlank]) hspells

theorem map_capital_of_toUpper {p u : Text} (h : p.map Char.toUpper = u) (hu : 'ſ' ∉ u) :
    p.map capital = u := by
  rw [← h]
  refine List.map_congr_left fun c hc => ?_
  have hne : c ≠ 'ſ' := by
    rintro rfl
    exact hu (h ▸ List.mem_map_of_mem (f := Char.toUpper) hc)
  rw [capital, if_neg (by simpa using hne)]

/-- A keyword that is printed is put in capitals. -/
theorem rewrites_of_isPrint {k : Keyword} {p : Text} (hp : p.map Char.toUpper = k.token.text) :
    Rewrites p k.token.text := by
  have hmem := words_mem_phrases k
  obtain ⟨hne, hws⟩ := capitals_of_mem_phrases hmem
  have hspells := spells_of_toUpper hne hws (hp.trans (text_token_eq k))
  have hcapital := map_capital_of_toUpper hp (by cases k <;> decide)
  rw [← hcapital]
  exact rewrites_of_spells hmem hspells

/-- A piece without letters, blanks and quotes is printed and rewritten as it is. -/
theorem rewrites_of_not_isLetter {p u : Text} (hp : p.map Char.toUpper = u) (hne : u ≠ [])
    (hu : (u.all fun c => decide (¬ IsLetter c ∧ isBlank c = false ∧ isQuote c = false)) = true) :
    Rewrites p u ∧ RewritesFirst p u := by
  have hchars : ∀ c ∈ u, ¬ IsLetter c ∧ isBlank c = false ∧ isQuote c = false :=
    fun c hc => of_decide_eq_true (List.all_eq_true.mp hu c hc)
  obtain rfl : p = u :=
    eq_of_map_toUpper hp fun c hc hcap => (hchars c hc).1 (isLetter_of_isCapital hcap)
  have hinert : Inert p := .of_not_isLetter hne (fun c hc => (hchars c hc).2)
    fun c hc => (hchars c (List.mem_of_mem_head? hc)).1
  exact ⟨hinert.rewrites, hinert.rewritesFirst⟩

end Keyword

namespace Token

variable {t : Token} {p : Text}

/-- **What is printed is rewritten as the token is written**, behind a space, and at the
beginning too unless it is a keyword. -/
theorem Printable.rewrites (h : t.Printable) (hp : t.IsPrint p) :
    Keyword.Rewrites p t.text ∧
      ((∀ k : Keyword, t ≠ k.token) → Keyword.RewritesFirst p t.text) := by
  cases h with
  | operator ht hk =>
    rcases hk.eq_symbol_or_keyword ht with ⟨op, hop, rfl⟩ | ⟨k, rfl⟩
    · have hall : ∀ op ∈ symbols, op.text ≠ [] ∧ (op.text.all fun c => decide
          (¬ Keyword.IsLetter c ∧ isBlank c = false ∧ isQuote c = false)) = true := by decide
      obtain ⟨hne, hchars⟩ := hall op hop
      exact (Keyword.rewrites_of_not_isLetter hp hne hchars).imp_right fun h _ => h
    · have hupper : p.map Char.toUpper = k.token.text := by cases k <;> exact hp
      exact ⟨Keyword.rewrites_of_isPrint hupper, fun hk => absurd rfl (hk k)⟩
  | openParen | closeParen =>
    exact (Keyword.rewrites_of_not_isLetter hp (by decide) (by decide)).imp_right fun h _ => h
  | quoted hq hx =>
    obtain rfl := hp
    have hspan := Quoted.length?_plain (· != '\n') hq hx
    rw [← Keyword.spanLength?_eq] at hspan
    obtain ⟨hbehind, hfirst⟩ := Keyword.rewrites_of_span hspan
    exact ⟨hbehind, fun _ => hfirst⟩
  | bare hu =>
    obtain rfl := hp
    exact ⟨hu.inert.rewrites, fun _ => hu.inert.rewritesFirst⟩

/-- A printable token is read off the front, behind which nothing or a space follows. -/
theorem Printable.leads (h : t.Printable) {r : Text} (hr : Keyword.Apart r) :
    Leads t.text t r := by
  cases h with
  | operator ht hk => exact leads_operator ht hk hr.endsWord
  | openParen => exact leads_openParen r
  | closeParen => exact leads_closeParen r
  | quoted hq hx =>
    refine leads_quoted ?_ r
    rw [quotedLength?_eq]
    exact Quoted.length?_plain _ hq hx
  | bare hu => exact hu.leads hr

/-- The text of a printable token neither starts nor ends with a blank. -/
theorem Printable.text_ends (h : t.Printable) : t.text ≠ [] ∧
    (∀ c ∈ t.text.head?, isBlank c = false) ∧ ∀ c ∈ t.text.getLast?, isBlank c = false := by
  have hlead : Leads t.text t [] := h.leads fun _ hc => nomatch hc
  obtain ⟨c, w, htext, hc⟩ := hlead.starts
  refine ⟨by simp [htext], by simpa [htext] using hc, ?_⟩
  cases h with
  | operator ht hk =>
    rcases hk.eq_symbol_or_keyword ht with ⟨op, hop, rfl⟩ | ⟨k, rfl⟩
    · have hall : ∀ op ∈ symbols, (op.text.getLast?.all fun c => !isBlank c) = true := by decide
      simpa [Option.all_eq_true, text] using hall op hop
    · have hall : (k.token.text.getLast?.all fun c => !isBlank c) = true := by cases k <;> decide
      simpa [Option.all_eq_true] using hall
  | openParen | closeParen =>
    rintro c ⟨⟩
    rfl
  | @quoted q x hq hx =>
    intro c hc
    rw [text, ← List.cons_append, List.getLast?_concat] at hc
    cases hc
    exact Keyword.not_isBlank_of_isQuote hq
  | bare hu => exact fun c hc => (hu.inert.chars c (List.mem_of_getLast? hc)).1

theorem IsPrint.map_toUpper (hp : t.IsPrint p) :
    p.map Char.toUpper = t.text.map Char.toUpper := by
  have hagain : (p.map Char.toUpper).map Char.toUpper = p.map Char.toUpper := by
    rw [List.map_map]
    exact List.map_congr_left fun c _ => Keyword.toUpper_toUpper c
  cases t with
  | word w => exact congrArg (List.map Char.toUpper) hp
  | and | or | compare | membership | nullTest | openParen | closeParen =>
    exact hagain.symm.trans (congrArg (List.map Char.toUpper) hp)

/-- A print has its blanks where the text of the token has them. -/
theorem IsPrint.map_isBlank (hp : t.IsPrint p) : p.map isBlank = t.text.map isBlank := by
  have hupper : ∀ u : Text, u.map isBlank = (u.map Char.toUpper).map isBlank := by
    intro u
    rw [List.map_map]
    exact List.map_congr_left fun c _ => (Keyword.isBlank_toUpper c).symm
  rw [hupper p, hp.map_toUpper, ← hupper]

/-- What is printed neither starts nor ends with a blank. -/
theorem Printable.print_ends (h : t.Printable) (hp : t.IsPrint p) :
    (∃ c u, p = c :: u ∧ isBlank c = false) ∧ ∃ u c, p = u ++ [c] ∧ isBlank c = false := by
  obtain ⟨hne, hstart, hend⟩ := h.text_ends
  have hblank := hp.map_isBlank
  constructor
  · obtain ⟨d, v, hv⟩ := List.exists_cons_of_ne_nil hne
    rw [hv, List.map_cons] at hblank
    obtain ⟨c, u, rfl, hc, -⟩ := List.map_eq_cons_iff.mp hblank
    exact ⟨c, u, rfl, hc.trans (hstart d (by rw [hv]; rfl))⟩
  · obtain ⟨v, d, hv⟩ : ∃ v d, t.text = v ++ [d] :=
      ⟨_, _, (List.dropLast_append_getLast hne).symm⟩
    rw [hv, List.map_append] at hblank
    obtain ⟨u, e, rfl, -, he⟩ := List.map_eq_append_iff.mp hblank
    obtain ⟨c, rfl, hc⟩ := List.map_eq_singleton_iff.mp he
    exact ⟨u, c, rfl, hc.trans (hend d (by rw [hv, List.getLast?_concat]; rfl))⟩

end Token

/-! ## 5. Printing and reading -/

section

variable {ts : List Token} {ps : List Text}

theorem forall₂_rewrites (h : List.Forall₂ Token.IsPrint ts ps) (hts : ∀ t ∈ ts, t.Printable) :
    List.Forall₂ Keyword.Rewrites ps (ts.map Token.text) := by
  induction h with
  | nil => exact .nil
  | cons hp _ ih =>
    obtain ⟨ht, hts⟩ := List.forall_mem_cons.mp hts
    exact .cons (ht.rewrites hp).1 (ih hts)

/-- The rewriting puts what is printed back into capitals. -/
theorem capitalize_print (hts : ∀ t ∈ ts, t.Printable) (hprint : List.Forall₂ Token.IsPrint ts ps)
    (hstart : ∀ t ∈ ts.head?, ∀ k : Keyword, t ≠ k.token) :
    Keyword.capitalize ([' '].intercalate ps) = [' '].intercalate (ts.map Token.text) := by
  cases hprint with
  | nil => exact List.length_eq_zero_iff.mp (Keyword.capitalize_length [])
  | @cons t p ts ps hp hps =>
    obtain ⟨ht, hts⟩ := List.forall_mem_cons.mp hts
    exact Keyword.capitalize_intercalate ((ht.rewrites hp).2 (hstart t rfl))
      (forall₂_rewrites hps hts)

theorem tokens_spaced_text (hts : ∀ t ∈ ts, t.Printable) :
    (Keyword.spaced (ts.map Token.text)).tokens = ts := by
  induction ts with
  | nil => exact Text.tokens_nil
  | cons t ts ih =>
    obtain ⟨ht, hts⟩ := List.forall_mem_cons.mp hts
    have hcons : Keyword.spaced ((t :: ts).map Token.text) =
        ' ' :: (t.text ++ Keyword.spaced (ts.map Token.text)) := rfl
    rw [hcons, Text.tokens_space, (ht.leads (Keyword.apart_spaced _)).tokens, ih hts]

/-- Tokens as they are written, with spaces between, are read as these tokens. -/
theorem tokens_intercalate_text (hts : ∀ t ∈ ts, t.Printable) :
    Text.tokens ([' '].intercalate (ts.map Token.text)) = ts := by
  cases ts with
  | nil => exact Text.tokens_nil
  | cons t ts =>
    have hspaced := tokens_spaced_text hts
    rwa [List.map_cons, Keyword.intercalate_eq_spaced, ← Text.tokens_space]

/-- **Keywords in any case.**  Printable tokens, the first of which is no keyword, are printed
with a space between and every letter of a keyword in any case.  With keywords in capitals, the
lexer reads the tokens again. -/
theorem tokens_capitalize_print (hts : ∀ t ∈ ts, t.Printable)
    (hprint : List.Forall₂ Token.IsPrint ts ps)
    (hstart : ∀ t ∈ ts.head?, ∀ k : Keyword, t ≠ k.token) :
    Text.tokens (Keyword.capitalize ([' '].intercalate ps)) = ts := by
  rw [capitalize_print hts hprint hstart]
  exact tokens_intercalate_text hts

end

/-- Words that begin like keywords, two keywords in a row, and a string full of keywords. -/
theorem tokens_capitalize_print_mixed :
    let ts : List Token := [.openParen, .word "order_id".toList, .compare .notLike,
      .word "'x and (y) or null'".toList, .or, .word "in.x".toList, .membership .inList,
      .word "or-ish".toList, .closeParen, .and, .word "a".toList, .nullTest .isNot]
    let ps : List Text := ["(".toList, "order_id".toList, "nOt LIKe".toList,
      "'x and (y) or null'".toList, "oR".toList, "in.x".toList, "in".toList, "or-ish".toList,
      ")".toList, "aNd".toList, "a".toList, "is Not nuLL".toList]
    (∀ t ∈ ts, t.Printable) ∧ List.Forall₂ Token.IsPrint ts ps ∧
      (∀ t ∈ ts.head?, ∀ k : Keyword, t ≠ k.token) ∧
      Text.tokens (Keyword.capitalize ([' '].intercalate ps)) = ts := by
  intro ts ps
  have hts : ∀ t ∈ ts, t.Printable := by
    have hx : ("x and (y) or null".toList.all fun c => decide (c ≠ '\'' ∧ c ≠ '\\')) = true := by
      decide
    have hquoted := Token.Printable.quoted (q := '\'') rfl
      fun c hc => of_decide_eq_true (List.all_eq_true.mp hx c hc)
    have hlike : Operator.notLike ∈ comparisons := by decide
    have hin : Operator.inList ∈ memberships := by decide
    have hnot : Operator.isNot ∈ nullTests := by decide
    simp only [ts, List.forall_mem_cons, List.not_mem_nil, IsEmpty.forall_iff, implies_true]
    exact ⟨.openParen, .bare (by decide), .operator (by decide) hlike, hquoted,
      .operator (by decide) trivial, .bare (by decide), .operator (by decide) hin,
      .bare (by decide), .closeParen, .operator (by decide) trivial, .bare (by decide),
      .operator (by decide) hnot, trivial⟩
  have hprint : List.Forall₂ Token.IsPrint ts ps := by decide
  have hstart : ∀ t ∈ ts.head?, ∀ k : Keyword, t ≠ k.token := by
    rintro t ⟨⟩ k
    cases k <;> exact nofun
  exact ⟨hts, hprint, hstart, tokens_capitalize_print hts hprint hstart⟩

end Sieve
