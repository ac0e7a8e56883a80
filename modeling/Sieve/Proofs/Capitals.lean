/-
# What putting keywords in capitals changes

The rewriting keeps every character in its place, so it is described place by place: the
characters of a keyword phrase behind a blank become capitals, unless the phrase begins inside
a quoted span that is copied, and every other character stays as it is.

* `copied`: the places that belong to a copied span;
* `PhraseAt`: a phrase behind a blank, wherever it stands;
* `capitalize_getElem?_of_raised`, `capitalize_getElem?_of_not_raised`: the description.
-/
import Sieve.Proofs.Span
import Sieve.Proofs.Spelling

namespace Sieve

namespace Keyword

/-! ## 1. Copied spans and phrases -/

/-- How many characters behind `c` are still to be copied, when `k` were to be copied from `c`
on: what is left of that span, or the span that opens there. -/
def stillCopied (k : Nat) (c : Char) (r : Text) : Nat :=
  if k = 0 then (if opensSpan c then spanLength? r else none).getD 0 else k - 1

/-- Whether the character at a place is copied with a quoted span, when the first `k`
characters of the text are still to be copied. -/
def copiedFrom : Nat → Text → Nat → Bool
  | _, [], _ => false
  | k, _ :: _, 0 => k != 0
  | k, c :: r, p + 1 => copiedFrom (stillCopied k c r) r p

/-- Whether the character at place `p` belongs to a quoted span that is copied as it is. -/
def copied (s : Text) (p : Nat) : Bool := copiedFrom ((spanLength? s).getD 0) s p

/-- A keyword phrase of `m` characters, in any case, begins at place `a` behind a blank. -/
structure PhraseAt (s : Text) (a m : Nat) : Prop where
  pos : 0 < a
  behind : ∃ d, s[a - 1]? = some d ∧ isBlank d = true
  found : foldedLength? (s.drop a) = some m

/-- The character at place `p` is put in capitals, when the first `k` characters of the text
are still to be copied. -/
def RaisedFrom (k : Nat) (s : Text) (p : Nat) : Prop :=
  ∃ a m, PhraseAt s a m ∧ copiedFrom k s a = false ∧ a ≤ p ∧ p < a + m

/-- The character at place `p` belongs to a phrase that is put in capitals. -/
def Raised (s : Text) (p : Nat) : Prop := RaisedFrom ((spanLength? s).getD 0) s p

theorem PhraseAt.stands {s : Text} {a m : Nat} (h : PhraseAt s a m) :
    ∃ ws ∈ phrases, Stands ws s a m := foldedLength?_spec h.found

/-- A phrase that begins inside another one ends inside it. -/
theorem PhraseAt.add_le_add {s : Text} {a m i n : Nat} (h : PhraseAt s a m)
    (h' : PhraseAt s i n) (hai : a ≤ i) (him : i < a + m) : i + n ≤ a + m := by
  obtain ⟨ws, hws, hstands⟩ := h.stands
  obtain ⟨ws', hws', hstands'⟩ := h'.stands
  refine hstands.add_le_add hws hstands' hws' hai him fun d _ hd => ?_
  obtain ⟨e, he, hb⟩ := h'.behind
  rw [he] at hd
  rwa [← Option.some.inj hd]

/-! ## 2. Copied spans behind a cut -/

/-- A span that is copied is left behind. -/
theorem copiedFrom_add : ∀ (k : Nat) (s : Text) (p : Nat),
    copiedFrom k s (k + p) = copiedFrom 0 (s.drop k) p
  | 0, s, p => by rw [Nat.zero_add, List.drop_zero]
  | k + 1, [], p => by simp [copiedFrom]
  | k + 1, c :: r, p => by
    rw [Nat.add_right_comm, copiedFrom, List.drop_succ_cons]
    exact copiedFrom_add k r p

/-- The characters of a span that is copied. -/
theorem copiedFrom_of_lt : ∀ {k : Nat} {s : Text} {p : Nat}, p < k → p < s.length →
    copiedFrom k s p = true
  | 0, _, _, hk, _ => absurd hk (Nat.not_lt_zero _)
  | _ + 1, [], _, _, hs => absurd hs (Nat.not_lt_zero _)
  | k + 1, _ :: r, 0, _, _ => rfl
  | k + 1, _ :: r, p + 1, hk, hs => by
    rw [copiedFrom]
    exact copiedFrom_of_lt (Nat.lt_of_succ_lt_succ hk) (Nat.lt_of_succ_lt_succ hs)

/-- One character on, where no span reaches. -/
theorem copiedFrom_zero_succ (c : Char) (r : Text) (p : Nat) :
    copiedFrom 0 (c :: r) (p + 1) =
      copiedFrom ((if opensSpan c then spanLength? r else none).getD 0) r p := by
  rw [copiedFrom, stillCopied, if_pos rfl]

/-- Where no span opens in the first `x` characters, nothing carries over. -/
theorem copiedFrom_zero_add : ∀ {x : Nat} {s : Text},
    (∀ j < x, ∀ c, s[j]? = some c → opensSpan c = true → spanLength? (s.drop (j + 1)) = none) →
      ∀ p, copiedFrom 0 s (x + p) = copiedFrom 0 (s.drop x) p
  | 0, s, _, p => by rw [Nat.zero_add, List.drop_zero]
  | x + 1, [], _, p => by simp [copiedFrom]
  | x + 1, c :: r, h, p => by
    have hc : (if opensSpan c then spanLength? r else none) = none := by
      split
      · rename_i ho
        simpa using h 0 (Nat.succ_pos x) c rfl ho
      · rfl
    rw [Nat.add_right_comm, copiedFrom_zero_succ, hc, Option.getD_none, List.drop_succ_cons]
    refine copiedFrom_zero_add (fun j hj d hd ho => ?_) p
    simpa using h (j + 1) (Nat.succ_lt_succ hj) d (by simpa using hd) ho

/-- No span opens along blanks and letters that end with a letter. -/
theorem spanLength?_along {s : Text} {x : Nat}
    (hchars : ∀ j < x, ∀ d, s[j]? = some d → IsLetter d ∨ isBlank d = true)
    (hlast : ∀ d, s[x - 1]? = some d → IsLetter d) :
    ∀ j < x, ∀ c, s[j]? = some c → opensSpan c = true →
      spanLength? (s.drop (j + 1)) = none := by
  intro j hj c hc ho
  rw [spanLength?_eq]
  refine Quoted.length?_eq_none fun d hd => ?_
  rw [List.getElem?_drop] at hd
  rcases Nat.lt_or_eq_of_le (Nat.succ_le_of_lt hj) with hlt | rfl
  · rcases hchars (j + 1) hlt d hd with hl | hb
    · exact hl.not_isQuote
    · exact not_isQuote_of_isBlank hb
  · have hl : IsLetter c := hlast c hc
    rw [hl.not_opensSpan] at ho
    cases ho

/-! ## 3. The rewriting, place by place -/

theorem PhraseAt.drop {s : Text} {x a m : Nat} (h : PhraseAt s (x + a) m) (ha : 0 < a) :
    PhraseAt (s.drop x) a m := by
  refine ⟨ha, ?_, ?_⟩
  · obtain ⟨d, hd, hb⟩ := h.behind
    exact ⟨d, by rwa [List.getElem?_drop, ← Nat.add_sub_assoc ha], hb⟩
  · rw [List.drop_drop]
    exact h.found

theorem PhraseAt.of_drop {s : Text} {x a m : Nat} (h : PhraseAt (s.drop x) a m) :
    PhraseAt s (x + a) m := by
  refine ⟨Nat.add_pos_right x h.pos, ?_, ?_⟩
  · obtain ⟨d, hd, hb⟩ := h.behind
    exact ⟨d, by rwa [List.getElem?_drop, ← Nat.add_sub_assoc h.pos] at hd, hb⟩
  · rw [← List.drop_drop]
    exact h.found

/-- A text may be cut where no span and no phrase is cut through: what is raised behind the
cut is what is raised in the rest. -/
theorem raisedFrom_add {k x : Nat} {s : Text}
    (hcopied : ∀ p, copiedFrom k s (x + p) = copiedFrom 0 (s.drop x) p)
    (hover : ∀ a m, PhraseAt s a m → copiedFrom k s a = false → a ≤ x → a + m ≤ x) (p : Nat) :
    RaisedFrom k s (x + p) ↔ RaisedFrom 0 (s.drop x) p := by
  constructor
  · rintro ⟨a, m, hphrase, hfree, hap, hpm⟩
    have hxa : x < a := by
      by_contra hax
      have := hover a m hphrase hfree (Nat.le_of_not_lt hax)
      omega
    obtain ⟨a, rfl⟩ := Nat.exists_eq_add_of_le (Nat.le_of_lt hxa)
    rw [hcopied] at hfree
    exact ⟨a, m, hphrase.drop (by omega), hfree, by omega, by omega⟩
  · rintro ⟨a, m, hphrase, hfree, hap, hpm⟩
    exact ⟨x + a, m, hphrase.of_drop, by rwa [hcopied], by omega, by omega⟩

/-- A text and its rewriting agree with the description at place `p`. -/
def Described (k : Nat) (s t : Text) (p : Nat) : Prop :=
  (RaisedFrom k s p → t[p]? = s[p]?.map capital) ∧ (¬ RaisedFrom k s p → t[p]? = s[p]?)

/-- The description of a rewriting that cuts the text: it holds of the front, and of the rest
if it holds of the rest alone. -/
theorem described_append {k : Nat} {s rest : Text} (front : Text)
    (hcopied : ∀ p, copiedFrom k s (front.length + p) = copiedFrom 0 (s.drop front.length) p)
    (hover : ∀ a m, PhraseAt s a m → copiedFrom k s a = false → a ≤ front.length →
      a + m ≤ front.length)
    (hfront : ∀ p < front.length, Described k s front p)
    (hrest : ∀ p, Described 0 (s.drop front.length) rest p) (p : Nat) :
    Described k s (front ++ rest) p := by
  rcases Nat.lt_or_ge p front.length with hp | hp
  · unfold Described
    rw [List.getElem?_append_left hp]
    exact hfront p hp
  · obtain ⟨p', rfl⟩ := Nat.exists_eq_add_of_le hp
    unfold Described
    rw [raisedFrom_add hcopied hover, List.getElem?_append_right (Nat.le_add_right _ _),
      Nat.add_sub_cancel_left, ← List.getElem?_drop]
    exact hrest p'

/-- What a copied span does to its own characters: nothing. -/
theorem described_span {k n : Nat} {s : Text}
    (hspan : ∀ p, 0 < p → p < n → copiedFrom k s p = true) :
    ∀ p < n, Described k s (s.take n) p := by
  intro p hp
  refine ⟨fun hr => ?_, fun _ => List.getElem?_take_of_lt hp⟩
  obtain ⟨a, m, hphrase, hfree, hap, -⟩ := hr
  rw [hspan a hphrase.pos (by omega)] at hfree
  cases hfree

/-- No phrase begins right behind a copied span, since its quote stands there. -/
theorem over_span {k n : Nat} {s : Text} {q : Char} (hquote : isQuote q = true)
    (hq : s[n - 1]? = some q) (hspan : ∀ p, 0 < p → p < n → copiedFrom k s p = true) :
    ∀ a m, PhraseAt s a m → copiedFrom k s a = false → a ≤ n → a + m ≤ n := by
  intro a m hphrase hfree han
  rcases Nat.lt_or_ge a n with hlt | hge
  · rw [hspan a hphrase.pos hlt] at hfree
    cases hfree
  · obtain rfl := Nat.le_antisymm han hge
    obtain ⟨d, hd, hb⟩ := hphrase.behind
    obtain rfl := Option.some.inj (hq.symm.trans hd)
    rw [not_isBlank_of_isQuote hquote] at hb
    cases hb

/-- The blanks that start a text. -/
theorem isBlank_of_lt_gap {s : Text} {p : Nat} {c : Char} (hp : p < Text.gap s)
    (hc : s[p]? = some c) : isBlank c = true := of_lt_takeWhile hp hc

theorem capital_of_isBlank {c : Char} (h : isBlank c = true) : capital c = c := by
  have hne : c ≠ 'ſ' := by
    rintro rfl
    exact absurd h (by decide)
  have hup := toNat_toUpper c
  rw [if_neg (fun hc => not_isLetter_of_isBlank h (Or.inr (Or.inl hc)))] at hup
  rw [capital, if_neg (by simpa using hne)]
  exact Char.toNat_inj.mp hup

section

variable {c : Char} {r : Text} {n : Nat}

/-- The characters up to the end of a gap are blanks. -/
theorem isBlank_of_le_gap (hc : isBlank c = true) {j : Nat} {d : Char}
    (hj : j ≤ Text.gap r) (hd : (c :: r)[j]? = some d) : isBlank d = true := by
  cases j with
  | zero => rwa [← Option.some.inj hd]
  | succ j => exact isBlank_of_lt_gap (Nat.lt_of_succ_le hj) (by simpa using hd)

/-- The phrase behind a gap. -/
theorem phraseAt_gap (hc : isBlank c = true)
    (hn : foldedLength? (r.drop (Text.gap r)) = some n) :
    PhraseAt (c :: r) (Text.gap r + 1) n := by
  have hlen : Text.gap r ≤ r.length := (List.takeWhile_prefix isBlank).length_le
  have hlt : Text.gap r < (c :: r).length := Nat.lt_succ_of_le hlen
  obtain ⟨d, hd⟩ : ∃ d, (c :: r)[Text.gap r]? = some d := ⟨_, List.getElem?_eq_getElem hlt⟩
  exact ⟨Nat.succ_pos _, ⟨d, hd, isBlank_of_le_gap hc (Nat.le_refl _) hd⟩, hn⟩

/-- No phrase begins in a gap, nor right behind the phrase that follows it, and none that
begins in that phrase reaches beyond it. -/
theorem over_phrase (hc : isBlank c = true)
    (hn : foldedLength? (r.drop (Text.gap r)) = some n) {a m : Nat}
    (h : PhraseAt (c :: r) a m) (ha : a ≤ Text.gap r + 1 + n) :
    Text.gap r + 1 ≤ a ∧ a + m ≤ Text.gap r + 1 + n := by
  have hphrase := phraseAt_gap hc hn
  obtain ⟨ws, -, hstands⟩ := h.stands
  have hlt : a < (c :: r).length := by
    have := hstands.le_length
    have := hstands.pos
    omega
  obtain ⟨d, hd⟩ : ∃ d, (c :: r)[a]? = some d := ⟨_, List.getElem?_eq_getElem hlt⟩
  have hge : Text.gap r + 1 ≤ a := by
    by_contra hgap
    exact not_isLetter_of_isBlank (isBlank_of_le_gap hc (by omega) hd) (hstands.head hd)
  refine ⟨hge, ?_⟩
  rcases Nat.lt_or_ge a (Text.gap r + 1 + n) with hin | hout
  · exact hphrase.add_le_add h hge hin
  · obtain rfl := Nat.le_antisymm ha hout
    obtain ⟨e, he, hb⟩ := h.behind
    obtain ⟨ws', -, hstands'⟩ := hphrase.stands
    exact absurd (hstands'.last he) (not_isLetter_of_isBlank hb)

/-- No span opens along a gap and the phrase that follows it. -/
theorem copiedFrom_phrase (hc : isBlank c = true)
    (hn : foldedLength? (r.drop (Text.gap r)) = some n) {x : Nat}
    (hx : x ≤ Text.gap r + 1 + n) (p : Nat) :
    copiedFrom 0 (c :: r) (x + p) = copiedFrom 0 ((c :: r).drop x) p := by
  obtain ⟨ws, -, hstands⟩ := (phraseAt_gap hc hn).stands
  refine copiedFrom_zero_add (fun j hj => ?_) p
  refine spanLength?_along (x := Text.gap r + 1 + n) ?_ (fun d hd => hstands.last hd) j
    (by omega)
  intro j hj d hd
  rcases Nat.lt_or_ge j (Text.gap r + 1) with hgap | hin
  · exact Or.inr (isBlank_of_le_gap hc (Nat.le_of_lt_succ hgap) hd)
  · exact hstands.letter_or_blank hin hj hd

/-- A gap and the phrase that follows it: the phrase is put in capitals. -/
theorem described_phrase (hc : isBlank c = true)
    (hn : foldedLength? (r.drop (Text.gap r)) = some n) :
    ∀ p < Text.gap r + 1 + n,
      Described 0 (c :: r) (c :: (r.take (Text.gap r + n)).map capital) p := by
  intro p hp
  have hphrase := phraseAt_gap hc hn
  have hmap : (c :: (r.take (Text.gap r + n)).map capital)[p]? =
      (c :: r)[p]?.map (if p = 0 then id else capital) := by
    cases p with
    | zero => rfl
    | succ p =>
      simp only [List.getElem?_cons_succ, List.getElem?_map, if_neg (Nat.succ_ne_zero p)]
      rw [List.getElem?_take_of_lt (by omega)]
  rcases Nat.lt_or_ge p (Text.gap r + 1) with hgap | hin
  · have hsame : (c :: (r.take (Text.gap r + n)).map capital)[p]? = (c :: r)[p]? := by
      rw [hmap]
      cases hd : (c :: r)[p]? with
      | none => rfl
      | some d =>
        have hb := isBlank_of_le_gap hc (Nat.le_of_lt_succ hgap) hd
        split <;> simp [capital_of_isBlank hb]
    refine ⟨fun hr => ?_, fun _ => hsame⟩
    obtain ⟨a, m, h, -, hap, -⟩ := hr
    obtain ⟨hge, -⟩ := over_phrase hc hn h (by omega)
    omega
  · refine ⟨fun _ => by rw [hmap, if_neg (by omega)], fun hnot => ?_⟩
    refine absurd ⟨Text.gap r + 1, n, hphrase, ?_, hin, hp⟩ hnot
    rw [← Nat.add_zero (Text.gap r + 1), copiedFrom_phrase hc hn (by omega)]
    cases (c :: r).drop (Text.gap r + 1) <;> rfl

/-- A character that is copied with the span behind it. -/
theorem described_cons_span (hn : (if opensSpan c then spanLength? r else none) = some n)
    {rest : Text} (hrest : ∀ p, Described 0 (r.drop n) rest p) (p : Nat) :
    Described 0 (c :: r) (c :: r.take n ++ rest) p := by
  have hspan : spanLength? r = some n := by
    split at hn
    · exact hn
    · cases hn
  rw [spanLength?_eq] at hspan
  have hpos := Quoted.length?_pos hspan
  have hle := Quoted.length?_le hspan
  obtain ⟨q, hquote, -, hq⟩ := Quoted.length?_quotes hspan
  have hstep : ∀ p, copiedFrom 0 (c :: r) (p + 1) = copiedFrom n r p := by
    intro p
    rw [copiedFrom_zero_succ, hn, Option.getD_some]
  have hin : ∀ p, 0 < p → p < n + 1 → copiedFrom 0 (c :: r) p = true := by
    intro p hp hpn
    obtain ⟨p, rfl⟩ := Nat.exists_eq_succ_of_ne_zero (Nat.ne_of_gt hp)
    rw [hstep]
    exact copiedFrom_of_lt (by omega) (by omega)
  have hlen : (c :: r.take n).length = n + 1 := by simp [hle]
  refine described_append _ ?_ ?_ ?_ ?_ p <;> rw [hlen]
  · intro p
    rw [Nat.add_right_comm, hstep, copiedFrom_add]
    rfl
  · refine over_span hquote ?_ hin
    rwa [Nat.add_sub_cancel, ← Nat.succ_pred_eq_of_pos hpos, List.getElem?_cons_succ]
  · exact described_span (s := c :: r) hin
  · exact hrest

/-- A blank with the phrase that follows the gap. -/
theorem described_cons_phrase (hc : isBlank c = true)
    (hn : foldedLength? (r.drop (Text.gap r)) = some n) {rest : Text}
    (hrest : ∀ p, Described 0 ((r.drop (Text.gap r)).drop n) rest p) (p : Nat) :
    Described 0 (c :: r) (c :: (r.take (Text.gap r + n)).map capital ++ rest) p := by
  obtain ⟨ws, -, hstands⟩ := (phraseAt_gap hc hn).stands
  have hle := hstands.le_length
  have hlen : (c :: (r.take (Text.gap r + n)).map capital).length = Text.gap r + 1 + n := by
    rw [List.length_cons] at hle
    rw [List.length_cons, List.length_map, List.length_take]
    omega
  refine described_append _ ?_ ?_ ?_ ?_ p <;> rw [hlen]
  · exact copiedFrom_phrase hc hn (Nat.le_refl _)
  · exact fun a m h _ ha => (over_phrase hc hn h ha).2
  · exact described_phrase hc hn
  · rw [Nat.add_right_comm, List.drop_succ_cons, ← List.drop_drop]
    exact hrest

/-- A character with neither a span nor a phrase behind it. -/
theorem described_cons (hspan : (if opensSpan c then spanLength? r else none) = none)
    (hnone : isBlank c = true → foldedLength? (r.drop (Text.gap r)) = none) {rest : Text}
    (hrest : ∀ p, Described 0 r rest p) (p : Nat) : Described 0 (c :: r) (c :: rest) p := by
  have hdrop : ∀ p, Described 0 ((c :: r).drop [c].length) rest p := hrest
  refine described_append [c] ?_ ?_ ?_ hdrop p
  · intro p
    rw [List.length_singleton, Nat.add_comm, copiedFrom_zero_succ, hspan]
    rfl
  · intro a m h _ ha
    obtain rfl : a = 1 := Nat.le_antisymm ha h.pos
    obtain ⟨d, hd, hb⟩ := h.behind
    obtain rfl : c = d := by simpa using hd
    -- A phrase behind `c` leaves no gap.
    have hgap : Text.gap r = 0 := by
      by_contra hgap
      obtain ⟨ws, -, hstands⟩ := h.stands
      have hlt : 0 < r.length := by
        have hle := hstands.le_length
        have hpos := hstands.pos
        rw [List.length_cons] at hle
        omega
      obtain ⟨e, he⟩ : ∃ e, r[0]? = some e := ⟨_, List.getElem?_eq_getElem hlt⟩
      exact not_isLetter_of_isBlank (isBlank_of_lt_gap (by omega) he) (hstands.head he)
    have hfound := h.found
    rw [List.drop_succ_cons, ← hgap, hnone hb] at hfound
    cases hfound
  · intro p hp
    refine ⟨fun hr => ?_, fun _ => ?_⟩
    · obtain ⟨a, m, h, -, hap, -⟩ := hr
      have hpos := h.pos
      rw [List.length_singleton] at hp
      omega
    · obtain rfl : p = 0 := by simpa using hp
      rfl

end

/-- **The rewriting behind the beginning of a text, place by place.** -/
theorem capitalFrom_described (s : Text) : ∀ p, Described 0 s (capitalFrom s) p := by
  fun_induction capitalFrom s with
  | case1 =>
    intro p
    simp [Described]
  | case2 c r n hn ih =>
    rw [dite_eq_ite] at hn
    exact described_cons_span hn ih
  | case3 c r hspan rest n hn ih =>
    rw [dite_eq_ite] at hn
    by_cases hc : isBlank c = true
    · rw [if_pos hc] at hn
      exact described_cons_phrase hc hn ih
    · rw [if_neg hc] at hn
      cases hn
  | case4 c r hspan rest hn ih =>
    rw [dite_eq_ite] at hspan hn
    refine described_cons hspan (fun hc => ?_) ih
    rwa [if_pos hc] at hn

/-- **The rewriting, place by place.** -/
theorem capitalize_described (s : Text) (p : Nat) :
    Described ((spanLength? s).getD 0) s (capitalize s) p := by
  unfold capitalize
  split
  · rename_i n hn
    rw [hn, Option.getD_some]
    rw [spanLength?_eq] at hn
    have hle := Quoted.length?_le hn
    obtain ⟨q, hquote, -, hq⟩ := Quoted.length?_quotes hn
    have hlen : (s.take n).length = n := by simp [hle]
    have hin : ∀ p, 0 < p → p < n → copiedFrom n s p = true :=
      fun p _ hp => copiedFrom_of_lt hp (by omega)
    refine described_append _ ?_ ?_ ?_ ?_ p <;> rw [hlen]
    · exact copiedFrom_add n s
    · exact over_span hquote hq hin
    · exact described_span hin
    · exact capitalFrom_described (s.drop n)
  · rename_i hn
    rw [hn]
    exact capitalFrom_described s p

theorem capitalize_getElem?_of_raised {s : Text} {p : Nat} (h : Raised s p) :
    (capitalize s)[p]? = s[p]?.map capital := (capitalize_described s p).1 h

theorem capitalize_getElem?_of_not_raised {s : Text} {p : Nat} (h : ¬ Raised s p) :
    (capitalize s)[p]? = s[p]? := (capitalize_described s p).2 h

/-- Rewriting keeps the number of characters. -/
theorem capitalize_length (s : Text) : (capitalize s).length = s.length := by
  unfold capitalize
  split
  · rw [List.length_append, capitalFrom_length, ← List.length_append, List.take_append_drop]
  · exact capitalFrom_length s

end Keyword

end Sieve
