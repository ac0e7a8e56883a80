/-
# The text behind the tokens

The lexer leaves nothing out and makes nothing up.  A text is blanks and the spans of its tokens
in turn, and a token stands at the byte where its span begins.  Every span but that of a keyword
is the token as it is written; between the words of a keyword any blanks may stand for the one
space it is written with.  A span cannot be shorter than it is: a bare word ends in front of a
blank or a parenthesis, and a keyword where a keyword may end.

* `Text.collapse`: every run of blanks as one space;
* `Token.IsSpan`: the characters of a token, in front of the rest of a text;
* `Covers`: a text as blanks and spans in turn;
* `covers_tokenizeFrom`, `tokenize_covers`: the tokens of a text cover it.
-/
import Sieve.Proofs.Front

namespace Sieve

/-! ## 1. Runs of blanks -/

namespace Text

/-- Every run of blanks becomes one space: a blank in front of another one is left out. -/
def collapse : Text → Text
  | [] => []
  | c :: r =>
    if isBlank c then if r.head?.any isBlank then collapse r else ' ' :: collapse r
    else c :: collapse r

/-- Where no blank stands, nothing changes. -/
theorem collapse_append {t : Text} (ht : ∀ c ∈ t, isBlank c = false) (r : Text) :
    collapse (t ++ r) = t ++ collapse r := by
  induction t with
  | nil => rfl
  | cons c t ih =>
    obtain ⟨hc, ht⟩ := List.forall_mem_cons.mp ht
    simp [collapse, hc, ih ht]

theorem collapse_blanks {b r : Text} (hne : b ≠ []) (hb : ∀ c ∈ b, isBlank c = true)
    (hr : ∀ c ∈ r.head?, isBlank c = false) : collapse (b ++ r) = ' ' :: collapse r := by
  induction b with
  | nil => exact absurd rfl hne
  | cons c b ih =>
    obtain ⟨hc, hb⟩ := List.forall_mem_cons.mp hb
    cases b with
    | nil =>
      have hlast : r.head?.any isBlank = false := by simpa [Option.any_eq_false] using hr
      simp [collapse, hc, hlast]
    | cons d b =>
      have hd := hb d List.mem_cons_self
      rw [← ih (by simp) hb, List.cons_append, collapse, if_pos hc, List.cons_append,
        List.head?_cons, Option.any_some, if_pos hd]

/-- What is left behind the leading blanks does not begin with one. -/
theorem not_isBlank_head?_trimStart (s : Text) : ∀ c ∈ (trimStart s).head?, isBlank c = false := by
  intro c hc
  obtain ⟨r, hr⟩ := List.head?_eq_some_iff.mp hc
  exact not_isBlank_of_trimStart hr

end Text

namespace Keyword

/-- A phrase that is found, its blanks collapsed, is its words with spaces between. -/
theorem collapse_of_phraseLength? : ∀ {ws : List Text} {s : Text} {n : Nat},
    (∀ w ∈ ws, ∀ c ∈ w, isBlank c = false) → phraseLength? (· == ·) ws s = some n →
      Text.collapse (s.take n) = [' '].intercalate ws
  | [], s, n, _, h => by
    obtain rfl : 0 = n := by simpa [phraseLength?] using h
    rfl
  | [w], s, n, hws, h => by
    rw [phraseLength?] at h
    split at h
    · rename_i hstarts
      obtain rfl : w.length = n := by simpa using h
      obtain ⟨r, rfl⟩ := startsWith_iff.mp hstarts
      have hw := Text.collapse_append (hws w List.mem_cons_self) []
      rw [List.take_left, List.intercalate_singleton]
      simpa [Text.collapse] using hw
    · cases h
  | w :: next :: ws, s, n, hws, h => by
    obtain ⟨hw, hws⟩ := List.forall_mem_cons.mp hws
    rw [phraseLength?] at h
    split at h
    · rename_i hstarts
      obtain ⟨tail, rfl⟩ := startsWith_iff.mp hstarts
      rw [List.drop_left] at h
      dsimp only at h
      split at h
      · cases h
      rename_i hgap
      obtain ⟨m, hm, rfl⟩ := Option.map_eq_some_iff.mp h
      have ih := collapse_of_phraseLength? hws hm
      have htake : (w ++ tail).take (w.length + Text.gap tail + m) =
          w ++ (tail.takeWhile isBlank ++ (tail.drop (Text.gap tail)).take m) := by
        rw [Nat.add_assoc, List.take_length_add_append, List.take_add,
          List.prefix_iff_eq_take.mp (List.takeWhile_prefix isBlank (l := tail))]
        rfl
      have hhead : ∀ c ∈ ((tail.drop (Text.gap tail)).take m).head?, isBlank c = false := by
        intro c hc
        rw [← trimStart_eq_drop, List.head?_take] at hc
        split at hc
        · cases hc
        · exact Text.not_isBlank_head?_trimStart tail c hc
      rw [htake, Text.collapse_append hw, Text.collapse_blanks ?_ ?_ hhead, ih,
        List.intercalate_cons_cons]
      · simp
      · exact fun hnil => hgap (congrArg List.length hnil)
      · exact fun c hc => List.mem_takeWhile_imp hc
    · cases h

/-- A keyword that stands at the front, its blanks collapsed, is the keyword as it is written. -/
theorem collapse_of_closedPhrase? {s : Text} {k : Keyword} {n : Nat}
    (h : closedPhrase? (· == ·) k.words s = some n) :
    Text.collapse (s.take n) = k.token.text ∧ endsWord (s.drop n) = true := by
  obtain ⟨hphrase, hends⟩ := Option.filter_eq_some_iff.mp h
  have hletters : ∀ w ∈ k.words, ∀ c ∈ w, isBlank c = false := by
    intro w hw c hc
    have hcapital := ((capitals_of_mem_phrases (words_mem_phrases k)).2 w hw).2 c hc
    exact (isLetter_of_isCapital hcapital).not_isBlank
  refine ⟨(collapse_of_phraseLength? hletters hphrase).trans ?_, hends⟩
  cases k <;> rfl

/-- **A keyword that is read**, its blanks collapsed, is the keyword as it is written. -/
theorem collapse_of_read? {s : Text} {k : Keyword} {n : Nat} (h : read? s = some (k, n)) :
    Text.collapse (s.take n) = k.token.text ∧ endsWord (s.drop n) = true :=
  collapse_of_closedPhrase? (closedPhrase?_of_read? h)

end Keyword

/-! ## 2. The span of a token -/

/-- The token `t` is written as `span` where `rest` follows. -/
inductive Token.IsSpan : Token → Text → Text → Prop
  /-- A closed quoted string. -/
  | quoted {w : Text} (h : quotedLength? w = some w.length) (rest : Text) :
      IsSpan (.word w) w rest
  /-- Any other word reaches up to the next blank or parenthesis. -/
  | bare {w rest : Text} (hw : ∀ c ∈ w, endsBareWord c = false)
      (hrest : ∀ c ∈ rest.head?, endsBareWord c = true) : IsSpan (.word w) w rest
  | openParen (rest : Text) : IsSpan .openParen (text .openParen) rest
  | closeParen (rest : Text) : IsSpan .closeParen (text .closeParen) rest
  | symbol {op : Operator} (hop : op ∈ symbols) (rest : Text) :
      IsSpan (.compare op) (text (.compare op)) rest
  /-- Any blanks may stand between the words of a keyword. -/
  | keyword (k : Keyword) {span rest : Text} (hspan : Text.collapse span = k.token.text)
      (hrest : endsWord rest = true) : IsSpan k.token span rest

/-- The word at the front of a text is a quoted string or reaches up to a blank or a
parenthesis. -/
theorem Token.isSpan_word (s : Text) :
    IsSpan (.word (s.take (wordLength s))) (s.take (wordLength s)) (s.drop (wordLength s)) := by
  cases hquoted : quotedLength? s with
  | some n =>
    have hlength : wordLength s = n := by rw [wordLength, hquoted, Option.getD_some]
    rw [hlength]
    rw [quotedLength?_eq] at hquoted
    refine .quoted ?_ _
    rw [quotedLength?_eq, Quoted.length?_take hquoted, List.length_take,
      Nat.min_eq_left (Quoted.length?_le hquoted)]
  | none =>
    let p : Char → Bool := fun c => !endsBareWord c
    have hlength : wordLength s = (s.takeWhile p).length := by
      rw [wordLength, hquoted, Option.getD_none]
    rw [hlength]
    refine .bare ?_ ?_
    · intro c hc
      rw [← List.prefix_iff_eq_take.mp (List.takeWhile_prefix p)] at hc
      simpa [p] using List.mem_takeWhile_imp hc
    · intro c hc
      rw [List.head?_drop] at hc
      simpa [p] using Keyword.not_of_takeWhile hc

/-- **What is read is a span** of the token. -/
theorem Token.isSpan_scan (s : Text) :
    IsSpan (scan s).1 (s.take (scan s).2) (s.drop (scan s).2) := by
  unfold scan
  split
  · rename_i op hop
    have hstarts := List.find?_some hop
    rw [List.isPrefixOf_iff_prefix, List.prefix_iff_eq_take] at hstarts
    rw [← hstarts]
    exact .symbol (List.mem_of_find?_eq_some hop) _
  split
  · rename_i k n hk
    obtain ⟨hspan, hrest⟩ := Keyword.collapse_of_read? hk
    exact .keyword k hspan hrest
  split
  · exact .openParen _
  · exact .closeParen _
  · exact isSpan_word s

/-- The words that have a span. -/
theorem Token.IsSpan.word {w span rest : Text} (h : IsSpan (.word w) span rest) :
    quotedLength? w = some w.length ∨ ∀ c ∈ w, endsBareWord c = false := by
  generalize ht : Token.word w = t at h
  cases h with
  | quoted hw =>
    cases ht
    exact Or.inl hw
  | bare hw =>
    cases ht
    exact Or.inr hw
  | openParen | closeParen | symbol => cases ht
  | keyword k => cases k <;> cases ht

/-! ## 3. Blanks and spans in turn -/

/-- Behind `front`, the text is blanks and the spans of the tokens in turn, and every token stands
at the byte where its span begins. -/
inductive Covers : Text → Text → List Placed → Prop
  | blanks {front gap : Text} (hgap : ∀ c ∈ gap, isBlank c = true) : Covers front gap []
  | token {front gap span rest : Text} {t : Token} {ts : List Placed}
      (hgap : ∀ c ∈ gap, isBlank c = true) (hne : span ≠ []) (hspan : t.IsSpan span rest)
      (hrest : Covers (front ++ gap ++ span) rest ts) :
      Covers front (gap ++ span ++ rest) (⟨t, Text.utf8Size (front ++ gap)⟩ :: ts)

/-- The tokens that are read behind `front` cover what stands there. -/
theorem covers_tokenizeFrom (position : Nat) (s : Text) : ∀ front : Text,
    position = Text.utf8Size front → Covers front s (tokenizeFrom position s) := by
  fun_induction tokenizeFrom position s with
  | case1 position s h => exact fun front _ => .blanks (List.dropWhile_eq_nil_iff.mp h)
  | case2 position s c r h start found span ih =>
    rintro front rfl
    have hpos : 0 < found.2 := Token.scan_length_pos (Text.not_isBlank_of_trimStart h)
    have htake : span = (c :: r).take found.2 := (List.take_cons hpos).symm
    have hdrop : r.drop (found.2 - 1) = (c :: r).drop found.2 := (List.drop_cons hpos).symm
    let gap := s.take (Text.gap s)
    have hgap : ∀ d ∈ gap, isBlank d = true := by
      have hrun : s.takeWhile isBlank = gap :=
        List.prefix_iff_eq_take.mp (List.takeWhile_prefix isBlank)
      exact fun d hd => List.mem_takeWhile_imp (hrun ▸ hd)
    have hs : s = gap ++ span ++ r.drop (found.2 - 1) := by
      rw [htake, hdrop, List.append_assoc, List.take_append_drop, ← h, trimStart_eq_drop,
        List.take_append_drop]
    have hspan : found.1.IsSpan span (r.drop (found.2 - 1)) := by
      rw [htake, hdrop]
      exact Token.isSpan_scan (c :: r)
    have hstart : start = Text.utf8Size (front ++ gap) := (Text.utf8Size_append _ _).symm
    have hrest : Covers (front ++ gap ++ span) (r.drop (found.2 - 1)) _ :=
      ih _ (by rw [Text.utf8Size_append _ span, hstart])
    have hcovers := Covers.token hgap (List.cons_ne_nil c _) hspan hrest
    rwa [← hs, ← hstart] at hcovers

/-- **The tokens of a text cover it.**  The text is blanks and the spans of its tokens in turn, none
of them empty, and every token stands at the byte where its span begins.  So tokens stand one
behind the other, each at the beginning of a character, and every word is a closed quoted string or
holds neither blanks nor parentheses. -/
theorem tokenize_covers (s : Text) :
    Covers [] s (tokenize s) ∧
      (tokenize s).Pairwise (fun t u => t.position < u.position) ∧
      (∀ t ∈ tokenize s, ∃ i < s.length, t.position = Text.utf8Size (s.take i)) ∧
      ∀ w b, ⟨.word w, b⟩ ∈ tokenize s →
        quotedLength? w = some w.length ∨ ∀ c ∈ w, endsBareWord c = false := by
  refine ⟨covers_tokenizeFrom 0 s [] rfl, pairwise_tokenize s, ?_, ?_⟩
  · rintro ⟨t, b⟩ ht
    obtain ⟨i, n, h, rfl⟩ := mem_tokenize_iff.mp ht
    exact ⟨i, h.lt_length, rfl⟩
  · intro w b hw
    obtain ⟨i, n, h, -⟩ := mem_tokenize_iff.mp hw
    have hspan := Token.isSpan_scan (s.drop i)
    rw [h.scan] at hspan
    exact hspan.word

end Sieve
