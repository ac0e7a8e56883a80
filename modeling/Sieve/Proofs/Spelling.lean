/-
# Spellings of keyword phrases

What stands in a text where a keyword phrase is found: its words, letter by letter in any case,
with blanks between them.  No character of a spelling is a quote, a parenthesis or a symbol.
A phrase has to end where a word ends, so the text alone decides which phrase stands there:
of two phrases found at one place, one would be the beginning of the other, and no phrase is.
Nor does one phrase begin inside another and reach beyond it.

* `Spells`, `Stands`: the words of a phrase, written out, and a phrase at a place of a text;
* `foldedLength?_spec`, `read?_spec`: what is found stands there;
* `Stands.add_le_add`: a phrase that begins with a word of another one ends inside it;
* `foldedLength?_of_stands`: a phrase that stands at a place is what is found there.
-/
import Sieve.Keyword.Capital
import Mathlib.Data.List.Forall2
import Mathlib.Data.List.TakeWhile

namespace Sieve

namespace Keyword

/-! ## 1. Letters -/

/-- A capital letter of a keyword. -/
def IsCapital (c : Char) : Prop := 65 ≤ c.toNat ∧ c.toNat ≤ 90

instance (c : Char) : Decidable (IsCapital c) := inferInstanceAs (Decidable (_ ∧ _))

/-- A character that may fold into a letter of a keyword: an ASCII letter in either case, the
long s and the Kelvin sign. -/
def IsLetter (c : Char) : Prop :=
  (65 ≤ c.toNat ∧ c.toNat ≤ 90) ∨ (97 ≤ c.toNat ∧ c.toNat ≤ 122) ∨ c.toNat = 0x17F ∨
    c.toNat = 0x212A

instance (c : Char) : Decidable (IsLetter c) := inferInstanceAs (Decidable (_ ∨ _))

theorem toNat_toUpper (c : Char) : c.toUpper.toNat =
    if 97 ≤ c.toNat ∧ c.toNat ≤ 122 then c.toNat - 32 else c.toNat := by
  have hiff : ('a'.val ≤ c.val ∧ c.val ≤ 'z'.val) ↔ (97 ≤ c.toNat ∧ c.toNat ≤ 122) := Iff.rfl
  unfold Char.toUpper
  by_cases h : 97 ≤ c.toNat ∧ c.toNat ≤ 122
  · rw [dif_pos (hiff.mpr h), if_pos h]
    have hsub : ('A'.val - 'a'.val).toNat = 4294967264 := by decide
    have hlt : c.toNat < 4294967296 := c.val.toNat_lt
    simp only [Char.toNat_mk, UInt32.toNat_add, hsub, Char.toNat_val]
    omega
  · rw [dif_neg (fun h' => h (hiff.mp h')), if_neg h]

/-- What folds, in terms of code points. -/
theorem folds_iff {w c : Char} : folds w c = true ↔ c.toUpper = w ∨
    (w = 'S' ∧ c = 'ſ') ∨ (w = 'K' ∧ c = '\u212A') := by
  simp [folds, or_assoc]

theorem isLetter_of_folds {w c : Char} (hw : IsCapital w) (h : folds w c = true) :
    IsLetter c := by
  rcases folds_iff.mp h with rfl | ⟨-, rfl⟩ | ⟨-, rfl⟩
  · have := toNat_toUpper c
    unfold IsCapital at hw
    unfold IsLetter
    split at this <;> omega
  · exact Or.inr (Or.inr (Or.inl (by decide)))
  · exact Or.inr (Or.inr (Or.inr (by decide)))

/-- No character folds into two letters. -/
theorem folds_inj {w w' c : Char} (hw : IsCapital w) (hw' : IsCapital w')
    (h : folds w c = true) (h' : folds w' c = true) : w = w' := by
  have hs : ('ſ' : Char).toUpper = 'ſ' := by decide
  have hk : ('\u212A' : Char).toUpper = '\u212A' := by decide
  rcases folds_iff.mp h with rfl | ⟨rfl, rfl⟩ | ⟨rfl, rfl⟩ <;>
    rcases folds_iff.mp h' with rfl | ⟨rfl, hc⟩ | ⟨rfl, hc⟩
  · rfl
  · rw [hc, hs] at hw; exact absurd hw (by decide)
  · rw [hc, hk] at hw; exact absurd hw (by decide)
  · rw [hs] at hw'; exact absurd hw' (by decide)
  · rfl
  · exact absurd hc (by decide)
  · rw [hk] at hw'; exact absurd hw' (by decide)
  · exact absurd hc (by decide)
  · rfl

theorem folds_of_eq {w c : Char} (hw : IsCapital w) (h : (w == c) = true) :
    folds w c = true := by
  obtain rfl : w = c := by simpa using h
  refine folds_iff.mpr (Or.inl (Char.toNat_inj.mp ?_))
  rw [toNat_toUpper]
  unfold IsCapital at hw
  split <;> omega

theorem isLetter_of_isCapital {c : Char} (h : IsCapital c) : IsLetter c := Or.inl h

/-- A blank is no letter. -/
theorem IsLetter.not_isBlank {c : Char} (h : IsLetter c) : isBlank c = false := by
  unfold IsLetter at h
  simp only [isBlank, Bool.or_eq_false_iff, Bool.and_eq_false_iff, decide_eq_false_iff_not,
    beq_eq_false_iff_ne]
  omega

theorem not_isQuote_of_isBlank {c : Char} (h : isBlank c = true) : isQuote c = false := by
  cases hq : isQuote c with
  | false => rfl
  | true =>
    rcases isQuote_iff.mp hq with rfl | rfl <;>
      exact absurd h (by decide)

theorem not_isBlank_of_isQuote {c : Char} (h : isQuote c = true) : isBlank c = false := by
  by_contra hb
  rw [not_isQuote_of_isBlank (by simpa using hb)] at h
  cases h

theorem IsLetter.ne {c d : Char} (h : IsLetter c) (hd : ¬ IsLetter d) : c ≠ d :=
  fun hcd => hd (hcd ▸ h)

theorem IsLetter.not_isQuote {c : Char} (h : IsLetter c) : isQuote c = false := by
  simp [isQuote, h.ne (d := '\'') (by decide), h.ne (d := '"') (by decide)]

/-- A letter opens no span. -/
theorem IsLetter.not_opensSpan {c : Char} (h : IsLetter c) : opensSpan c = false := by
  simp [opensSpan, h.not_isBlank, h.ne (d := '(') (by decide), h.ne (d := ')') (by decide),
    h.ne (d := '=') (by decide), h.ne (d := '<') (by decide), h.ne (d := '>') (by decide),
    h.ne (d := '!') (by decide)]

theorem IsLetter.not_endsWord {c : Char} (h : IsLetter c) (s : Text) :
    endsWord (c :: s) = false := by
  have ho := h.not_opensSpan
  simp only [opensSpan, Bool.or_eq_false_iff] at ho
  simp [endsWord, h.not_isBlank, h.not_isQuote, ho]

/-- A text cut behind a run: the run is what the test takes. -/
theorem takeWhile_run {p : Char → Bool} {a r : Text} (ha : ∀ c ∈ a, p c = true)
    (hr : ∀ c ∈ r.head?, p c = false) : (a ++ r).takeWhile p = a := by
  rw [List.takeWhile_append_of_pos ha]
  cases r with
  | nil => simp
  | cons c r => simp [hr c (by simp)]

/-- Two runs that start one text are the same. -/
theorem run_unique {p : Char → Bool} {a a' r r' : Text} (ha : ∀ c ∈ a, p c = true)
    (ha' : ∀ c ∈ a', p c = true) (hr : ∀ c ∈ r.head?, p c = false)
    (hr' : ∀ c ∈ r'.head?, p c = false) (heq : a ++ r = a' ++ r') : a = a' ∧ r = r' := by
  have haa : a = a' := by rw [← takeWhile_run ha hr, heq, takeWhile_run ha' hr']
  subst haa
  exact ⟨rfl, List.append_cancel_left heq⟩

/-- A run holds what passes the test. -/
theorem of_lt_takeWhile {p : Char → Bool} {s : Text} {j : Nat} {c : Char}
    (hj : j < (s.takeWhile p).length) (hc : s[j]? = some c) : p c = true := by
  have htake : s.takeWhile p = s.take (s.takeWhile p).length :=
    List.prefix_iff_eq_take.mp (List.takeWhile_prefix p)
  refine List.mem_takeWhile_imp (l := s) (List.mem_of_getElem? (i := j) ?_)
  rw [htake, List.getElem?_take_of_lt hj, hc]

/-- A run ends where the test fails. -/
theorem not_of_takeWhile {p : Char → Bool} : ∀ {s : Text} {c : Char},
    s[(s.takeWhile p).length]? = some c → p c = false
  | [], c, h => by simp at h
  | d :: s, c, h => by
    rw [List.takeWhile_cons] at h
    split at h
    · exact not_of_takeWhile (by simpa using h)
    · rename_i hd
      obtain rfl : d = c := by simpa using h
      simpa using hd

theorem not_isLetter_of_isBlank {c : Char} (h : isBlank c = true) : ¬ IsLetter c := by
  intro hl
  rw [hl.not_isBlank] at h
  cases h

/-- A letter and its capital are no blanks, and no other character changes. -/
theorem isBlank_toUpper (c : Char) : isBlank c.toUpper = isBlank c := by
  have hup := toNat_toUpper c
  split at hup
  · rename_i hsmall
    have hc : IsLetter c := Or.inr (Or.inl hsmall)
    have hcapital : IsLetter c.toUpper := Or.inl (by omega)
    rw [hc.not_isBlank, hcapital.not_isBlank]
  · rw [Char.toNat_inj.mp hup]

theorem not_isLetter_of_endsWord {r : Text} (h : endsWord r = true) :
    ∀ c ∈ r.head?, decide (IsLetter c) = false := by
  intro c hc
  cases r with
  | nil => simp at hc
  | cons d r =>
    obtain rfl : d = c := by simpa using hc
    refine decide_eq_false fun hl => ?_
    rw [hl.not_endsWord] at h
    cases h

/-! ## 2. Words and phrases, written out -/

/-- The word `w` of a phrase, written out as `t`. -/
structure SpellsWord (w t : Text) : Prop where
  ne_nil : w ≠ []
  letters : List.Forall₂ (fun a c => IsCapital a ∧ folds a c = true) w t

/-- The words of a phrase, written out with blanks between them. -/
inductive Spells : List Text → Text → Prop
  | last {w t : Text} : SpellsWord w t → Spells [w] t
  | cons {w t b body : Text} {ws : List Text} : SpellsWord w t → b ≠ [] →
      (∀ c ∈ b, isBlank c = true) → Spells ws body → Spells (w :: ws) (t ++ (b ++ body))

theorem SpellsWord.isLetter {w t : Text} (h : SpellsWord w t) : ∀ c ∈ t, IsLetter c := by
  have hl := h.letters
  clear h
  induction hl with
  | nil => simp
  | cons hac _ ih =>
    intro c hc
    rcases List.mem_cons.mp hc with rfl | hc
    · exact isLetter_of_folds hac.1 hac.2
    · exact ih c hc

theorem SpellsWord.length_eq {w t : Text} (h : SpellsWord w t) : t.length = w.length :=
  h.letters.length_eq.symm

theorem SpellsWord.length_pos {w t : Text} (h : SpellsWord w t) : 0 < t.length := by
  rw [h.length_eq]
  exact List.length_pos_of_ne_nil h.ne_nil

/-- What is written spells one word only. -/
theorem SpellsWord.inj {w w' t : Text} (h : SpellsWord w t) (h' : SpellsWord w' t) : w = w' := by
  have hl := h.letters
  have hl' := h'.letters
  clear h h'
  induction hl generalizing w' with
  | nil => cases hl'; rfl
  | cons hac _ ih =>
    cases hl' with
    | cons hbc hl' => rw [folds_inj hac.1 hbc.1 hac.2 hbc.2, ih hl']

theorem Spells.words_ne_nil {ws : List Text} {body : Text} (h : Spells ws body) : ws ≠ [] := by
  cases h <;> simp

theorem Spells.length_pos {ws : List Text} {body : Text} (h : Spells ws body) :
    0 < body.length := by
  cases h with
  | last hw => exact hw.length_pos
  | cons hw =>
    have := hw.length_pos
    simp only [List.length_append]
    omega

/-- Every character of a spelling is a letter or a blank. -/
theorem Spells.letter_or_blank {ws : List Text} {body : Text} (h : Spells ws body) :
    ∀ c ∈ body, IsLetter c ∨ isBlank c = true := by
  induction h with
  | last hw => exact fun c hc => Or.inl (hw.isLetter c hc)
  | cons hw _ hb _ ih =>
    intro c hc
    rcases List.mem_append.mp hc with hc | hc
    · exact Or.inl (hw.isLetter c hc)
    rcases List.mem_append.mp hc with hc | hc
    · exact Or.inr (hb c hc)
    · exact ih c hc

/-- A spelling starts with a letter. -/
theorem Spells.head {ws : List Text} {body : Text} (h : Spells ws body) :
    ∀ c ∈ body.head?, IsLetter c := by
  intro c hc
  cases h with
  | last hw => exact hw.isLetter c (List.mem_of_mem_head? hc)
  | @cons w t b _ _ hw =>
    refine hw.isLetter c (List.mem_of_mem_head? ?_)
    cases t with
    | nil => exact absurd hw.length_pos (by simp)
    | cons d t => simpa using hc

theorem Spells.head_append {ws : List Text} {body : Text} (h : Spells ws body) (r : Text) :
    ∀ c ∈ (body ++ r).head?, IsLetter c := by
  intro c hc
  refine h.head c ?_
  cases body with
  | nil => exact absurd h.length_pos (by simp)
  | cons d body => simpa using hc

/-- A spelling ends with a letter. -/
theorem Spells.getLast {ws : List Text} {body : Text} (h : Spells ws body) :
    ∀ c ∈ body.getLast?, IsLetter c := by
  induction h with
  | last hw => exact fun c hc => hw.isLetter c (List.mem_of_mem_getLast? hc)
  | cons hw hne hb hs ih =>
    intro c hc
    have hbody := List.ne_nil_of_length_pos hs.length_pos
    rw [List.getLast?_append_of_ne_nil _ (by simp [hbody]),
      List.getLast?_append_of_ne_nil _ hbody] at hc
    exact ih c hc

/-! ## 3. What is found -/

/-- The phrase `ws` stands at place `b` of the text in `m` characters, and a word ends behind
it. -/
structure Stands (ws : List Text) (s : Text) (b m : Nat) : Prop where
  spells : Spells ws ((s.drop b).take m)
  le_length : b + m ≤ s.length
  ends : endsWord (s.drop (b + m)) = true

/-- Every keyword is a phrase that is looked for. -/
theorem words_mem_phrases (k : Keyword) : k.words ∈ phrases := by
  cases k <;> decide

/-- The phrases are made of words, and the words of capital letters. -/
theorem capitals_of_mem_phrases {ws : List Text} (h : ws ∈ phrases) :
    ws ≠ [] ∧ ∀ w ∈ ws, w ≠ [] ∧ ∀ c ∈ w, IsCapital c := by
  have hall : ∀ ws ∈ phrases, ws ≠ [] ∧
      ∀ w ∈ ws, w ≠ [] ∧ (w.all fun c => decide (IsCapital c)) = true := by decide
  obtain ⟨hne, hwords⟩ := hall ws h
  refine ⟨hne, fun w hw => ⟨(hwords w hw).1, fun c hc => ?_⟩⟩
  exact of_decide_eq_true (List.all_eq_true.mp (hwords w hw).2 c hc)

section

variable {same : Char → Char → Bool}
  (hsame : ∀ w c, IsCapital w → same w c = true → folds w c = true)

include hsame

theorem startsWith_spec : ∀ {w s : Text}, (∀ c ∈ w, IsCapital c) →
    startsWith same w s = true → w.length ≤ s.length ∧
      List.Forall₂ (fun a c => IsCapital a ∧ folds a c = true) w (s.take w.length)
  | [], s, _, _ => by simp
  | a :: w, [], _, h => by simp [startsWith] at h
  | a :: w, c :: s, hw, h => by
    rw [startsWith, Bool.and_eq_true] at h
    obtain ⟨hle, hall⟩ := startsWith_spec (fun d hd => hw d (List.mem_cons_of_mem a hd)) h.2
    have ha := hw a List.mem_cons_self
    exact ⟨by simpa using hle, List.Forall₂.cons ⟨ha, hsame a c ha h.1⟩ hall⟩

theorem phraseLength?_spec : ∀ {ws : List Text} {s : Text} {m : Nat}, ws ≠ [] →
    (∀ w ∈ ws, w ≠ [] ∧ ∀ c ∈ w, IsCapital c) → phraseLength? same ws s = some m →
      m ≤ s.length ∧ Spells ws (s.take m)
  | [], _, _, hne, _, _ => absurd rfl hne
  | [w], s, m, _, hws, h => by
    obtain ⟨hne, hcap⟩ := hws w List.mem_cons_self
    rw [phraseLength?] at h
    split at h
    · rename_i hstart
      obtain rfl : w.length = m := by simpa using h
      obtain ⟨hle, hall⟩ := startsWith_spec hsame hcap hstart
      exact ⟨hle, Spells.last ⟨hne, hall⟩⟩
    · cases h
  | w :: next :: ws, s, m, _, hws, h => by
    obtain ⟨hne, hcap⟩ := hws w List.mem_cons_self
    rw [phraseLength?] at h
    split at h
    · rename_i hstart
      dsimp only at h
      split at h
      · cases h
      rename_i hgap
      obtain ⟨n, hn, rfl⟩ := Option.map_eq_some_iff.mp h
      obtain ⟨hle, hall⟩ := startsWith_spec hsame hcap hstart
      obtain ⟨hle', hrest⟩ := phraseLength?_spec (by simp)
        (fun v hv => hws v (List.mem_cons_of_mem w hv)) hn
      generalize htail : s.drop w.length = tail at hgap hle' hrest
      have hs : s = s.take w.length ++ tail := by rw [← htail, List.take_append_drop]
      have hlen : s.length = w.length + tail.length := by
        rw [← htail, List.length_drop]
        omega
      have hgapLe : Text.gap tail ≤ tail.length := (List.takeWhile_prefix isBlank).length_le
      have hblanks : tail.take (Text.gap tail) = tail.takeWhile isBlank :=
        (List.prefix_iff_eq_take.mp (List.takeWhile_prefix isBlank)).symm
      have htake : s.take (w.length + Text.gap tail + n) =
          s.take w.length ++ (tail.take (Text.gap tail) ++
            (tail.drop (Text.gap tail)).take n) := by
        rw [Nat.add_assoc, List.take_add, htail, List.take_add]
      rw [List.length_drop] at hle'
      refine ⟨by omega, ?_⟩
      rw [htake]
      refine Spells.cons ⟨hne, hall⟩ ?_ ?_ hrest
      · intro hnil
        have := congrArg List.length hnil
        simp only [List.length_take, List.length_nil] at this
        omega
      · rw [hblanks]
        exact fun c hc => List.mem_takeWhile_imp hc
    · cases h

/-- What `closedPhrase?` finds stands there, and a word ends behind it. -/
theorem closedPhrase?_spec {ws : List Text} {s : Text} {b m : Nat} (hws : ws ∈ phrases)
    (h : closedPhrase? same ws (s.drop b) = some m) : Stands ws s b m := by
  obtain ⟨hm, hends⟩ := Option.filter_eq_some_iff.mp h
  obtain ⟨hne, hcap⟩ := capitals_of_mem_phrases hws
  obtain ⟨hle, hspells⟩ := phraseLength?_spec hsame hne hcap hm
  rw [List.drop_drop] at hends
  have hpos := hspells.length_pos
  rw [List.length_take] at hpos
  rw [List.length_drop] at hle hpos
  exact ⟨hspells, by omega, hends⟩

end

/-- A phrase found whatever its case stands there. -/
theorem foldedLength?_spec {s : Text} {b m : Nat} (h : foldedLength? (s.drop b) = some m) :
    ∃ ws ∈ phrases, Stands ws s b m := by
  obtain ⟨ws, hws, hm⟩ := List.exists_of_findSome?_eq_some h
  exact ⟨ws, hws, closedPhrase?_spec (fun _ _ _ hf => hf) hws hm⟩

/-- A keyword that is read is found as a phrase. -/
theorem closedPhrase?_of_read? {s : Text} {k : Keyword} {n : Nat} (h : read? s = some (k, n)) :
    closedPhrase? (· == ·) k.words s = some n := by
  obtain ⟨k', -, hk⟩ := List.exists_of_findSome?_eq_some h
  obtain ⟨m, hm, heq⟩ := Option.map_eq_some_iff.mp hk
  cases heq
  exact hm

theorem read?_eq_none_iff {s : Text} :
    read? s = none ↔ ∀ k : Keyword, closedPhrase? (· == ·) k.words s = none := by
  simp [read?, List.findSome?_eq_none_iff, mem_all]

/-- A phrase found with its letters compared exactly stands there. -/
theorem stands_of_closedPhrase? {s : Text} {k : Keyword} {b n : Nat}
    (h : closedPhrase? (· == ·) k.words (s.drop b) = some n) : Stands k.words s b n :=
  closedPhrase?_spec (fun _ _ hw he => folds_of_eq hw he) (words_mem_phrases k) h

/-- A keyword that is read stands there. -/
theorem read?_spec {s : Text} {k : Keyword} {b n : Nat} (h : read? (s.drop b) = some (k, n)) :
    Stands k.words s b n :=
  stands_of_closedPhrase? (closedPhrase?_of_read? h)

section

variable {ws : List Text} {s : Text} {b m p : Nat} {c : Char}

/-- A place of a text, counted in a part of it. -/
theorem getElem?_take_drop (hbp : b ≤ p) (hp : p < b + m) :
    ((s.drop b).take m)[p - b]? = s[p]? := by
  rw [List.getElem?_take_of_lt (by omega), List.getElem?_drop, Nat.add_sub_of_le hbp]

theorem Stands.length_eq (h : Stands ws s b m) : ((s.drop b).take m).length = m := by
  have hle := h.le_length
  rw [List.length_take, List.length_drop]
  omega

theorem Stands.pos (h : Stands ws s b m) : 0 < m := by
  have hpos := h.spells.length_pos
  rwa [h.length_eq] at hpos

/-- The characters of a phrase are letters and blanks. -/
theorem Stands.letter_or_blank (h : Stands ws s b m) (hbp : b ≤ p) (hp : p < b + m)
    (hc : s[p]? = some c) : IsLetter c ∨ isBlank c = true :=
  h.spells.letter_or_blank c (List.mem_of_getElem? ((getElem?_take_drop hbp hp).trans hc))

theorem Stands.isLetter (h : Stands ws s b m) (hbp : b ≤ p) (hp : p < b + m)
    (hc : s[p]? = some c) (hb : isBlank c = false) : IsLetter c := by
  rcases h.letter_or_blank hbp hp hc with hl | hb'
  · exact hl
  · rw [hb] at hb'
    cases hb'

/-- A phrase holds no quote. -/
theorem Stands.not_isQuote (h : Stands ws s b m) (hbp : b ≤ p) (hp : p < b + m)
    (hc : s[p]? = some c) : isQuote c = false := by
  rcases h.letter_or_blank hbp hp hc with hl | hb
  · exact hl.not_isQuote
  · exact not_isQuote_of_isBlank hb

/-- A phrase begins with a letter. -/
theorem Stands.head (h : Stands ws s b m) (hc : s[b]? = some c) : IsLetter c := by
  have hpos := h.pos
  refine h.spells.head c ?_
  rw [List.head?_take, if_neg (Nat.ne_of_gt hpos), List.head?_drop, hc]
  rfl

/-- A phrase ends with a letter. -/
theorem Stands.last (h : Stands ws s b m) (hc : s[b + m - 1]? = some c) : IsLetter c := by
  have hpos := h.pos
  have hlast : ((s.drop b).take m).getLast? = s[b + m - 1]? := by
    rw [List.getLast?_eq_getElem?, h.length_eq, List.getElem?_take_of_lt (by omega),
      List.getElem?_drop, Nat.add_sub_assoc hpos]
  refine h.spells.getLast c ?_
  rw [hlast, hc]
  rfl

end

/-! ## 4. One phrase inside another -/

/-- Two spellings at the front of one text, with a word ending behind each: the second is not
the longer one, unless the first phrase is a proper beginning of the second. -/
theorem Spells.length_le_or_isPrefix {ws ws' : List Text} {body body' r r' : Text}
    (h : Spells ws body) (h' : Spells ws' body') (hr : endsWord r = true)
    (hr' : endsWord r' = true) (heq : body ++ r = body' ++ r') :
    body'.length ≤ body.length ∨ (ws <+: ws' ∧ ws ≠ ws') := by
  -- A word ends where its letters end, so both spellings have the same first word.
  have hblank : ∀ {b s : Text}, b ≠ [] → (∀ c ∈ b, isBlank c = true) →
      ∀ c ∈ (b ++ s).head?, decide (IsLetter c) = false := by
    intro b s hne hb c hc
    cases b with
    | nil => exact absurd rfl hne
    | cons d b =>
      obtain rfl : d = c := by simpa using hc
      exact decide_eq_false (not_isLetter_of_isBlank (hb d (by simp)))
  have hletters : ∀ {w t : Text}, SpellsWord w t → ∀ c ∈ t, decide (IsLetter c) = true :=
    fun hw c hc => decide_eq_true (hw.isLetter c hc)
  induction h generalizing ws' body' r' with
  | @last w t hw =>
    cases h' with
    | @last w' t' hw' =>
      obtain ⟨rfl, -⟩ := run_unique (hletters hw) (hletters hw')
        (not_isLetter_of_endsWord hr) (not_isLetter_of_endsWord hr') heq
      exact Or.inl (Nat.le_refl _)
    | @cons w' t' b' body' ws' hw' hne' hb' hs' =>
      rw [List.append_assoc, List.append_assoc] at heq
      obtain ⟨rfl, -⟩ := run_unique (hletters hw) (hletters hw')
        (not_isLetter_of_endsWord hr) (hblank hne' hb') heq
      obtain rfl := hw.inj hw'
      exact Or.inr ⟨⟨ws', rfl⟩, by simpa using hs'.words_ne_nil⟩
  | @cons w t b body ws hw hne hb hs ih =>
    rw [List.append_assoc, List.append_assoc] at heq
    cases h' with
    | @last w' t' hw' =>
      obtain ⟨rfl, -⟩ := run_unique (hletters hw) (hletters hw') (hblank hne hb)
        (not_isLetter_of_endsWord hr') heq
      exact Or.inl (by simp)
    | @cons w' t' b' body' ws' hw' hne' hb' hs' =>
      rw [List.append_assoc, List.append_assoc] at heq
      obtain ⟨rfl, hrest⟩ := run_unique (hletters hw) (hletters hw') (hblank hne hb)
        (hblank hne' hb') heq
      obtain rfl := hw.inj hw'
      obtain ⟨rfl, hbody⟩ := run_unique hb hb' (fun c hc => (hs.head_append r c hc).not_isBlank)
        (fun c hc => (hs'.head_append r' c hc).not_isBlank) hrest
      rcases ih hs' hr' hbody with hle | ⟨hpre, hws⟩
      · exact Or.inl (by simpa using hle)
      · refine Or.inr ⟨List.cons_prefix_cons.mpr ⟨rfl, hpre⟩, fun h => hws ?_⟩
        simpa using h

/-- What is left of a spelling from the beginning of one of its words on spells what is left of
its words. -/
theorem Spells.drop {ws : List Text} {body : Text} (h : Spells ws body) {y : Nat} {c : Char}
    (hc : body[y]? = some c) (hl : IsLetter c)
    (hstart : ∀ d, 0 < y → body[y - 1]? = some d → isBlank d = true) :
    ∃ k < ws.length, Spells (ws.drop k) (body.drop y) := by
  induction h generalizing y with
  | @last w t hw =>
    rcases Nat.eq_zero_or_pos y with rfl | hy
    · exact ⟨0, by simp, Spells.last hw⟩
    · have hlt : y < t.length := (List.getElem?_eq_some_iff.mp hc).1
      have hd : t[y - 1]? = some t[y - 1] := List.getElem?_eq_getElem _
      have hblank := hstart _ hy hd
      rw [(hw.isLetter _ (List.getElem_mem _)).not_isBlank] at hblank
      cases hblank
  | @cons w t b body ws hw hne hb hs ih =>
    rcases Nat.eq_zero_or_pos y with rfl | hy
    · exact ⟨0, by simp, Spells.cons hw hne hb hs⟩
    rcases Nat.lt_or_ge (y - 1) t.length with hlt | hge
    · -- The character before `y` is a letter of the first word.
      have hd : (t ++ (b ++ body))[y - 1]? = some t[y - 1] := by
        rw [List.getElem?_append_left hlt, List.getElem?_eq_getElem hlt]
      have hblank := hstart _ hy hd
      rw [(hw.isLetter _ (List.getElem_mem _)).not_isBlank] at hblank
      cases hblank
    rw [List.getElem?_append_right (by omega)] at hc
    rcases Nat.lt_or_ge (y - t.length) b.length with hlt' | hge'
    · -- The character at `y` is a blank behind the first word.
      rw [List.getElem?_append_left hlt'] at hc
      have hcb := hb c (List.mem_of_getElem? hc)
      rw [hl.not_isBlank] at hcb
      cases hcb
    rw [List.getElem?_append_right hge'] at hc
    obtain ⟨k, hk, hdrop⟩ := ih hc (fun d hpos hd => by
      refine hstart d hy ?_
      rw [List.getElem?_append_right (by omega), List.getElem?_append_right (by omega)]
      rwa [show y - 1 - t.length - b.length = y - t.length - b.length - 1 by omega])
    have hleft : (t ++ (b ++ body)).drop y = body.drop (y - t.length - b.length) := by
      rw [List.drop_append, List.drop_eq_nil_of_le (by omega), List.nil_append,
        List.drop_append, List.drop_eq_nil_of_le hge', List.nil_append]
    exact ⟨k + 1, by simpa using hk, hleft ▸ hdrop⟩

/-- What is left of a phrase never is a proper beginning of a phrase. -/
theorem not_isPrefix_phrases {ws ws' : List Text} (h : ws ∈ phrases) (h' : ws' ∈ phrases)
    {k : Nat} (hk : k < ws.length) : ws.drop k <+: ws' → ws.drop k = ws' := by
  have hall : ∀ ws ∈ phrases, ∀ ws' ∈ phrases, ∀ k < ws.length,
      ws.drop k <+: ws' → ws.drop k = ws' := by decide
  exact hall ws h ws' h' k hk

/-- What is left of a phrase from the beginning of one of its words on spells what is left of
its words. -/
theorem Stands.drop {ws : List Text} {s : Text} {b m i : Nat} (h : Stands ws s b m)
    (hbi : b ≤ i) (him : i < b + m) {c : Char} (hc : s[i]? = some c) (hl : IsLetter c)
    (hstart : ∀ d, b < i → s[i - 1]? = some d → isBlank d = true) :
    ∃ k < ws.length, Spells (ws.drop k) ((s.drop i).take (b + m - i)) := by
  have hrest : ((s.drop b).take m).drop (i - b) = (s.drop i).take (b + m - i) := by
    rw [List.drop_take, List.drop_drop, Nat.add_sub_of_le hbi]
    congr 1
    omega
  rw [← hrest]
  refine h.spells.drop ((getElem?_take_drop hbi him).trans hc) hl fun d hpos hd => ?_
  refine hstart d (by omega) ?_
  rw [← hd, ← getElem?_take_drop (b := b) (m := m) (by omega) (by omega), Nat.sub_right_comm]

/-- **A phrase that begins with a word of another one does not reach beyond it.** -/
theorem Stands.add_le_add {ws ws' : List Text} {s : Text} {b m i n : Nat} (h : Stands ws s b m)
    (hws : ws ∈ phrases) (h' : Stands ws' s i n) (hws' : ws' ∈ phrases) (hbi : b ≤ i)
    (him : i < b + m) (hstart : ∀ d, b < i → s[i - 1]? = some d → isBlank d = true) :
    i + n ≤ b + m := by
  have hlt : i < s.length := by
    have := h.le_length
    omega
  obtain ⟨c, hc⟩ : ∃ c, s[i]? = some c := ⟨_, List.getElem?_eq_getElem hlt⟩
  obtain ⟨k, hk, hdrop⟩ := h.drop hbi him hc (h'.head hc) hstart
  have hends := h.ends
  have hends' := h'.ends
  rw [← Nat.add_sub_of_le (Nat.le_of_lt him), ← List.drop_drop] at hends
  rw [← List.drop_drop] at hends'
  have heq : (s.drop i).take (b + m - i) ++ (s.drop i).drop (b + m - i) =
      (s.drop i).take n ++ (s.drop i).drop n := by
    rw [List.take_append_drop, List.take_append_drop]
  rcases hdrop.length_le_or_isPrefix h'.spells hends hends' heq with hlen | ⟨hpre, hne⟩
  · rw [h'.length_eq, List.length_take] at hlen
    omega
  · exact absurd (not_isPrefix_phrases hws hws' hk hpre) hne

/-- The last word of a phrase is a phrase. -/
theorem last_mem_phrases {ws : List Text} (hws : ws ∈ phrases) {k : Nat} {v : Text} (hv : ws.drop k = [v]) :
    [v] ∈ phrases := by
  have hall : ∀ ws ∈ phrases, ∀ k < ws.length, (ws.drop k).length = 1 → ws.drop k ∈ phrases := by
    decide
  rw [← hv]
  refine hall ws hws k ?_ (by rw [hv]; rfl)
  by_contra hk
  rw [List.drop_eq_nil_of_le (Nat.le_of_not_lt hk)] at hv
  cases hv

/-- A spelling without blanks is a word. -/
theorem Spells.singleton {ws : List Text} {u : Text} (h : Spells ws u)
    (hu : ∀ c ∈ u, isBlank c = false) : ∃ v, ws = [v] := by
  cases h with
  | @last v _ _ => exact ⟨v, rfl⟩
  | @cons w t b body _ _ hne hb _ =>
    cases b with
    | nil => exact absurd rfl hne
    | cons c b =>
      have hc := hu c (by simp)
      rw [hb c List.mem_cons_self] at hc
      cases hc

/-- What is left of a phrase from the beginning of one of its words on, when no blank follows
before its end, is a phrase of one word. -/
theorem Stands.word_from {ws : List Text} {s : Text} {b m i : Nat} (h : Stands ws s b m)
    (hws : ws ∈ phrases) (hbi : b ≤ i) (him : i < b + m)
    (hstart : ∀ d, b < i → s[i - 1]? = some d → isBlank d = true)
    (hfree : ∀ p d, i ≤ p → p < b + m → s[p]? = some d → isBlank d = false) :
    ∃ v, [v] ∈ phrases ∧ Stands [v] s i (b + m - i) := by
  have hle := h.le_length
  obtain ⟨c, hc⟩ : ∃ c, s[i]? = some c := ⟨_, List.getElem?_eq_getElem (by omega)⟩
  have hl := h.isLetter hbi him hc (hfree i c (Nat.le_refl i) him hc)
  obtain ⟨k, -, hdrop⟩ := h.drop hbi him hc hl hstart
  obtain ⟨v, hv⟩ := hdrop.singleton (fun d hd => by
    obtain ⟨p, hp, rfl⟩ := List.getElem_of_mem hd
    have hpm : p < b + m - i := by
      rw [List.length_take] at hp
      omega
    refine hfree (i + p) _ (Nat.le_add_right i p) (by omega) ?_
    rw [← List.getElem?_drop, ← List.getElem?_take_of_lt hpm, List.getElem?_eq_getElem hp])
  rw [hv] at hdrop
  refine ⟨v, last_mem_phrases hws hv, hdrop, by omega, ?_⟩
  rw [Nat.add_sub_of_le (Nat.le_of_lt him)]
  exact h.ends

/-- A phrase inside a text stands at the front of any longer part of it. -/
theorem Stands.take {ws : List Text} {s : Text} {b m n : Nat} (h : Stands ws s b m)
    (hn : m < n) : Stands ws ((s.drop b).take n) 0 m := by
  have hle := h.le_length
  refine ⟨?_, ?_, ?_⟩
  · rw [List.drop_zero, List.take_take, Nat.min_eq_left (Nat.le_of_lt hn)]
    exact h.spells
  · rw [List.length_take, List.length_drop]
    omega
  · have hends := h.ends
    rw [← List.drop_drop] at hends
    rw [Nat.zero_add, List.drop_take]
    obtain ⟨k, hk⟩ := Nat.exists_eq_succ_of_ne_zero (Nat.sub_ne_zero_of_lt hn)
    rw [hk]
    cases hdrop : (s.drop b).drop m with
    | nil => rfl
    | cons d r =>
      rw [hdrop] at hends
      exact hends

/-! ## 5. What stands is found -/

theorem startsWith_append {w t : Text} (r : Text)
    (h : List.Forall₂ (fun a c => IsCapital a ∧ folds a c = true) w t) :
    startsWith folds w (t ++ r) = true := by
  induction h with
  | nil => rfl
  | cons hac _ ih => rw [List.cons_append, startsWith, hac.2, ih, Bool.and_self]

/-- A phrase that is written out is measured to its end. -/
theorem phraseLength?_append {ws : List Text} {body : Text} (h : Spells ws body) (r : Text) :
    phraseLength? folds ws (body ++ r) = some body.length := by
  induction h with
  | last hw => rw [phraseLength?, if_pos (startsWith_append r hw.letters), hw.length_eq]
  | @cons w t b body ws hw hne hb hs ih =>
    have hstart := startsWith_append (b ++ body ++ r) hw.letters
    have hgap : Text.gap (b ++ body ++ r) = b.length := by
      -- the gap ends with the first letter of the body
      rw [Text.gap, List.append_assoc, takeWhile_run hb]
      exact fun c hc => (hs.head_append r c hc).not_isBlank
    obtain ⟨next, words, rfl⟩ := List.exists_cons_of_ne_nil hs.words_ne_nil
    have hpos : b.length ≠ 0 := List.length_eq_zero_iff.not.mpr hne
    have hrest : (b ++ body ++ r).drop b.length = body ++ r := by simp
    rw [List.append_assoc, phraseLength?, if_pos hstart, ← hw.length_eq, List.drop_left]
    simp only [hgap, if_neg hpos, hrest, ih, Option.map_some, List.length_append]
    rw [Nat.add_assoc]

/-- **A phrase that stands at a place is what is found there.** -/
theorem foldedLength?_of_stands {ws : List Text} {s : Text} {b m : Nat} (hws : ws ∈ phrases)
    (h : Stands ws s b m) : foldedLength? (s.drop b) = some m := by
  have hclosed : closedPhrase? folds ws (s.drop b) = some m := by
    refine Option.filter_eq_some_iff.mpr ⟨?_, by simpa using h.ends⟩
    have hlength := phraseLength?_append h.spells ((s.drop b).drop m)
    rwa [List.take_append_drop, h.length_eq] at hlength
  obtain ⟨m', hm⟩ : ∃ m', foldedLength? (s.drop b) = some m' := by
    rw [← Option.isSome_iff_exists, foldedLength?, List.findSome?_isSome_iff]
    exact ⟨ws, hws, by rw [hclosed]; rfl⟩
  -- of two phrases that begin at one place, neither reaches beyond the other
  obtain ⟨ws', hws', h'⟩ := foldedLength?_spec hm
  have hpos := h.pos
  have hpos' := h'.pos
  have hle := h.add_le_add hws h' hws' (Nat.le_refl b) (by omega) (by simp)
  have hge := h'.add_le_add hws' h hws (Nat.le_refl b) (by omega) (by simp)
  rw [hm, Option.some.injEq]
  omega

end Keyword

end Sieve
