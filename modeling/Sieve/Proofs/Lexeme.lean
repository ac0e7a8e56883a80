/-
# Where the tokens of a text stand

The lexer goes from stop to stop: at each it skips the blanks, reads one token, and stops
behind it.  A lexeme is a token with the place where it stands, counted in characters.

* `Stop`, `Lexeme`: the places the lexer passes, and what it reads there;
* `mem_tokenize_iff`: the tokens of a text are its lexemes;
* `Lexeme.add_le_of_lt`, `Stop.exists_lexeme`: lexemes do not overlap, and every character that
  is no blank belongs to one.
-/
import Sieve.Token.Lexer
import Sieve.Proofs.Capitals

namespace Sieve

/-! ## 1. One token -/

/-- The symbols are not empty, and hold neither letters nor quotes. -/
theorem symbols_chars : ∀ op ∈ symbols,
    op.text ≠ [] ∧ ∀ c ∈ op.text, ¬ Keyword.IsLetter c ∧ isQuote c = false := by
  have hall : ∀ op ∈ symbols, op.text ≠ [] ∧
      (op.text.all fun c => decide (¬ Keyword.IsLetter c ∧ isQuote c = false)) = true := by
    decide
  intro op hop
  obtain ⟨hne, hchars⟩ := hall op hop
  exact ⟨hne, fun c hc => of_decide_eq_true (List.all_eq_true.mp hchars c hc)⟩

theorem symbol?_length_pos {s : Text} {op : Operator} (h : symbol? s = some op) :
    0 < op.text.length :=
  List.length_pos_of_ne_nil (symbols_chars op (List.mem_of_find?_eq_some h)).1

/-- A symbol starts neither with a letter nor with a quote. -/
theorem symbol?_eq_none {c : Char} {r : Text} (h : Keyword.IsLetter c ∨ isQuote c = true) :
    symbol? (c :: r) = none := by
  refine List.find?_eq_none.mpr fun op hop hstarts => ?_
  obtain ⟨hne, hchars⟩ := symbols_chars op hop
  cases htext : op.text with
  | nil => exact hne htext
  | cons x w =>
    rw [htext, List.isPrefixOf_cons_cons, Bool.and_eq_true, beq_iff_eq] at hstarts
    obtain ⟨hl, hq⟩ := hchars x (by rw [htext]; exact List.mem_cons_self)
    rw [hstarts.1] at hl hq
    rcases h with h | h
    · exact hl h
    · rw [hq] at h
      cases h

theorem wordLength_le (s : Text) : wordLength s ≤ s.length := by
  rw [wordLength, quotedLength?_eq]
  cases h : Quoted.length? (fun _ => true) s with
  | none => exact (List.takeWhile_prefix _).length_le
  | some n => exact Quoted.length?_le h

/-- A word takes at least one character. -/
theorem wordLength_pos {c : Char} {r : Text} (hc : endsBareWord c = false) :
    0 < wordLength (c :: r) := by
  rw [wordLength, quotedLength?_eq]
  cases h : Quoted.length? (fun _ => true) (c :: r) with
  | none => simp [hc]
  | some n => exact Quoted.length?_pos h

/-- A token takes at least one character. -/
theorem Token.scan_length_pos {c : Char} {r : Text} (hc : isBlank c = false) :
    0 < (Token.scan (c :: r)).2 := by
  unfold Token.scan
  split
  · rename_i op hop
    exact symbol?_length_pos hop
  · split
    · rename_i k n hk
      exact (Keyword.read?_spec (b := 0) hk).pos
    · split
      · exact Nat.one_pos
      · exact Nat.one_pos
      · rename_i hopen hclose
        refine wordLength_pos ?_
        have hl : c ≠ '(' := fun h => hopen r (by rw [h])
        have hr : c ≠ ')' := fun h => hclose r (by rw [h])
        simp [endsBareWord, hc, hl, hr]

/-- A token takes no more characters than there are. -/
theorem Token.scan_length_le (s : Text) : (Token.scan s).2 ≤ s.length := by
  unfold Token.scan
  split
  · rename_i op hop
    have hstarts := List.find?_some hop
    rw [List.isPrefixOf_iff_prefix] at hstarts
    exact hstarts.length_le
  split
  · rename_i k n hk
    have hle := (Keyword.read?_spec (b := 0) hk).le_length
    rwa [Nat.zero_add] at hle
  split
  · exact Nat.succ_le_succ (Nat.zero_le _)
  · exact Nat.succ_le_succ (Nat.zero_le _)
  · exact wordLength_le s

/-- What is neither a symbol nor a keyword nor a parenthesis is a word. -/
theorem Token.scan_eq_word {c : Char} {r : Text} (hsymbol : symbol? (c :: r) = none)
    (hread : Keyword.read? (c :: r) = none) (hl : c ≠ '(') (hr : c ≠ ')') :
    Token.scan (c :: r) =
      (.word ((c :: r).take (wordLength (c :: r))), wordLength (c :: r)) := by
  unfold Token.scan
  rw [hsymbol, hread]
  dsimp only
  split
  · rename_i h
    exact absurd (List.cons.inj h).1 hl
  · rename_i h
    exact absurd (List.cons.inj h).1 hr
  · rfl

/-! ## 2. Stops and lexemes -/

/-- The place of the next token behind `x`: the blanks are skipped. -/
def nextStart (s : Text) (x : Nat) : Nat := x + Text.gap (s.drop x)

/-- The places where the lexer looks for the next token: the beginning, and behind every
token. -/
inductive Stop (s : Text) : Nat → Prop
  | start : Stop s 0
  | behind {x : Nat} : Stop s x → nextStart s x < s.length →
      Stop s (nextStart s x + (Token.scan (s.drop (nextStart s x))).2)

/-- The token `t` stands at place `i` and takes `n` characters. -/
structure Lexeme (s : Text) (i : Nat) (t : Token) (n : Nat) : Prop where
  stop : ∃ x, Stop s x ∧ i = nextStart s x
  lt_length : i < s.length
  scan : Token.scan (s.drop i) = (t, n)

theorem drop_eq_cons {s : Text} {i : Nat} {c : Char} (hc : s[i]? = some c) :
    s.drop i = c :: s.drop (i + 1) := by
  obtain ⟨hlt, rfl⟩ := List.getElem?_eq_some_iff.mp hc
  exact List.drop_eq_getElem_cons hlt

theorem trimStart_eq_drop (s : Text) : Text.trimStart s = s.drop (Text.gap s) := by
  have h : (s.takeWhile isBlank ++ s.dropWhile isBlank).drop (Text.gap s) =
      s.dropWhile isBlank := List.drop_left' rfl
  rw [List.takeWhile_append_dropWhile] at h
  exact h.symm

theorem trimStart_drop (s : Text) (x : Nat) :
    Text.trimStart (s.drop x) = s.drop (nextStart s x) := by
  rw [trimStart_eq_drop, List.drop_drop]
  rfl

theorem le_nextStart (s : Text) (x : Nat) : x ≤ nextStart s x := Nat.le_add_right _ _

/-- The characters that are skipped are blanks. -/
theorem isBlank_of_lt_nextStart {s : Text} {x p : Nat} {c : Char} (hx : x ≤ p)
    (hp : p < nextStart s x) (hc : s[p]? = some c) : isBlank c = true := by
  unfold nextStart at hp
  refine Keyword.isBlank_of_lt_gap (s := s.drop x) (p := p - x) (by omega) ?_
  rw [List.getElem?_drop, show x + (p - x) = p by omega, hc]

/-- A token starts with no blank. -/
theorem not_isBlank_nextStart {s : Text} {x : Nat} {c : Char} (hc : s[nextStart s x]? = some c) :
    isBlank c = false :=
  Text.not_isBlank_of_trimStart ((trimStart_drop s x).trans (drop_eq_cons hc))

/-- A token starts with no blank. -/
theorem Lexeme.not_isBlank {s : Text} {i n : Nat} {t : Token} {c : Char} (h : Lexeme s i t n)
    (hc : s[i]? = some c) : isBlank c = false := by
  obtain ⟨x, -, rfl⟩ := h.stop
  exact not_isBlank_nextStart hc

/-- The character a token starts with. -/
theorem Lexeme.exists_char {s : Text} {i n : Nat} {t : Token} (h : Lexeme s i t n) :
    ∃ c, s[i]? = some c ∧ isBlank c = false := by
  obtain ⟨c, hc⟩ : ∃ c, s[i]? = some c := ⟨_, List.getElem?_eq_getElem h.lt_length⟩
  exact ⟨c, hc, h.not_isBlank hc⟩

theorem Lexeme.pos {s : Text} {i n : Nat} {t : Token} (h : Lexeme s i t n) : 0 < n := by
  obtain ⟨c, hc, hb⟩ := h.exists_char
  have hpos := Token.scan_length_pos (r := s.drop (i + 1)) hb
  rwa [← drop_eq_cons hc, h.scan] at hpos

/-- The first token behind a place stands behind the blanks there. -/
theorem Lexeme.nextStart_le {s : Text} {i n x : Nat} {t : Token} (h : Lexeme s i t n)
    (hx : x ≤ i) : nextStart s x ≤ i := by
  by_contra hlt
  obtain ⟨c, hc, hb⟩ := h.exists_char
  rw [isBlank_of_lt_nextStart hx (Nat.lt_of_not_le hlt) hc] at hb
  cases hb

theorem Lexeme.add_le_length {s : Text} {i n : Nat} {t : Token} (h : Lexeme s i t n) :
    i + n ≤ s.length := by
  have hle := Token.scan_length_le (s.drop i)
  have hlt := h.lt_length
  rw [h.scan, List.length_drop] at hle
  omega

/-- Behind a lexeme the lexer stops. -/
theorem Lexeme.stop_behind {s : Text} {i n : Nat} {t : Token} (h : Lexeme s i t n) :
    Stop s (i + n) := by
  obtain ⟨x, hx, rfl⟩ := h.stop
  have hstop := Stop.behind hx h.lt_length
  rwa [h.scan] at hstop

/-- At every stop a lexeme follows, unless only blanks are left. -/
theorem Stop.lexeme {s : Text} {x : Nat} (h : Stop s x) (hlt : nextStart s x < s.length) :
    Lexeme s (nextStart s x) (Token.scan (s.drop (nextStart s x))).1
      (Token.scan (s.drop (nextStart s x))).2 := ⟨⟨x, h, rfl⟩, hlt, rfl⟩

/-! ## 3. Lexemes follow each other -/

/-- The lexer passes no stop without stopping. -/
theorem Stop.add_le {s : Text} : ∀ {y x : Nat}, Stop s y → Stop s x → x < y →
    nextStart s x < s.length ∧ nextStart s x + (Token.scan (s.drop (nextStart s x))).2 ≤ y := by
  intro y
  induction y using Nat.strong_induction_on with
  | _ y ih =>
    intro x hy hx hxy
    cases hy with
    | start => exact absurd hxy (Nat.not_lt_zero x)
    | @behind z hz hlt =>
      rcases Nat.lt_trichotomy x z with hxz | rfl | hzx
      · -- `x` comes before the last stop but one.
        have hzy := le_nextStart s z
        have hpos := (hz.lexeme hlt).pos
        obtain ⟨hlt', hle⟩ := ih z (by omega) hz hx hxz
        exact ⟨hlt', by omega⟩
      · exact ⟨hlt, Nat.le_refl _⟩
      · -- `x` cannot lie between the last two stops.
        obtain ⟨-, hle⟩ := ih x hxy hx hz hzx
        omega

/-- **Lexemes do not overlap.** -/
theorem Lexeme.add_le_of_lt {s : Text} {i n j m : Nat} {t u : Token} (h : Lexeme s i t n)
    (h' : Lexeme s j u m) (hij : i < j) : i + n ≤ j := by
  obtain ⟨x, hx, rfl⟩ := h.stop
  obtain ⟨y, hy, rfl⟩ := h'.stop
  have hxy : x < y := by
    by_contra hyx
    rcases Nat.lt_or_eq_of_le (Nat.le_of_not_lt hyx) with hlt | rfl
    · obtain ⟨-, hle⟩ := Stop.add_le hx hy hlt
      have := le_nextStart s x
      omega
    · exact Nat.lt_irrefl _ hij
  obtain ⟨-, hle⟩ := Stop.add_le hy hx hxy
  rw [h.scan] at hle
  exact Nat.le_trans hle (le_nextStart s y)

/-- One token stands at a place. -/
theorem Lexeme.unique {s : Text} {i n m : Nat} {t u : Token} (h : Lexeme s i t n)
    (h' : Lexeme s i u m) : t = u ∧ n = m := by
  have hscan := h.scan.symm.trans h'.scan
  exact Prod.mk.inj hscan

/-- **Every character that is no blank belongs to a lexeme**: the one that covers it is found
from any stop before it. -/
theorem Stop.exists_lexeme {s : Text} {p : Nat} {c : Char} (hc : s[p]? = some c)
    (hb : isBlank c = false) : ∀ {x : Nat}, Stop s x → x ≤ p →
      ∃ i t n, Lexeme s i t n ∧ x ≤ i ∧ i ≤ p ∧ p < i + n := by
  intro x
  induction hk : p - x using Nat.strong_induction_on generalizing x with
  | _ k ih =>
    intro hx hxp
    have hstart : nextStart s x ≤ p := by
      by_contra hlt
      rw [isBlank_of_lt_nextStart hxp (Nat.lt_of_not_le hlt) hc] at hb
      cases hb
    have hlen : p < s.length := (List.getElem?_eq_some_iff.mp hc).1
    have hlex := hx.lexeme (by omega)
    have hle := le_nextStart s x
    rcases Nat.lt_or_ge p (nextStart s x + (Token.scan (s.drop (nextStart s x))).2) with hin | hout
    · exact ⟨_, _, _, hlex, hle, hstart, hin⟩
    · have hpos := hlex.pos
      obtain ⟨i, t, n, h, hxi, hip, hpi⟩ := ih _ (by omega) rfl hlex.stop_behind hout
      exact ⟨i, t, n, h, by omega, hip, hpi⟩

/-! ## 4. The tokens of a text -/

theorem utf8Size_take_add (s : Text) (i j : Nat) : Text.utf8Size (s.take (i + j)) =
    Text.utf8Size (s.take i) + Text.utf8Size ((s.drop i).take j) := by
  rw [List.take_add, Text.utf8Size_append]

/-- More characters take more bytes. -/
theorem utf8Size_take_lt {s : Text} {i j : Nat} (hi : i < s.length) (hij : i < j) :
    Text.utf8Size (s.take i) < Text.utf8Size (s.take j) := by
  obtain ⟨k, rfl⟩ := Nat.exists_eq_add_of_lt hij
  rw [Nat.add_assoc, utf8Size_take_add]
  refine Nat.lt_add_of_pos_right (Text.utf8Size_pos ?_)
  rw [ne_eq, List.take_eq_nil_iff, List.drop_eq_nil_iff]
  omega

/-- Bytes count characters faithfully. -/
theorem utf8Size_take_inj {s : Text} {i j : Nat} (hi : i < s.length)
    (h : Text.utf8Size (s.take i) = Text.utf8Size (s.take j)) : i = j := by
  rcases Nat.lt_trichotomy i j with hij | hij | hij
  · have := utf8Size_take_lt hi hij
    omega
  · exact hij
  · have := utf8Size_take_lt (Nat.lt_trans hij hi) hij
    omega

/-- One step of the lexer, with places counted from the beginning of the text. -/
theorem tokenizeFrom_nextStart {s : Text} {x : Nat} (hlt : nextStart s x < s.length) :
    tokenizeFrom (Text.utf8Size (s.take x)) (s.drop x) =
      ⟨(Token.scan (s.drop (nextStart s x))).1, Text.utf8Size (s.take (nextStart s x))⟩ ::
        tokenizeFrom
          (Text.utf8Size (s.take (nextStart s x + (Token.scan (s.drop (nextStart s x))).2)))
          (s.drop (nextStart s x + (Token.scan (s.drop (nextStart s x))).2)) := by
  rw [tokenizeFrom]
  split
  · rename_i hnil
    rw [trimStart_drop, List.drop_eq_nil_iff] at hnil
    omega
  · rename_i c r hcons
    have hc : isBlank c = false := Text.not_isBlank_of_trimStart hcons
    rw [trimStart_drop] at hcons
    have hpos := Token.scan_length_pos (r := r) hc
    rw [hcons]
    generalize Token.scan (c :: r) = found at hpos
    obtain ⟨n, hn⟩ := Nat.exists_eq_succ_of_ne_zero (Nat.ne_of_gt hpos)
    have hstart : Text.utf8Size (s.take x) +
        Text.utf8Size ((s.drop x).take (Text.gap (s.drop x))) =
          Text.utf8Size (s.take (nextStart s x)) := (utf8Size_take_add _ _ _).symm
    rw [utf8Size_take_add, ← List.drop_drop, hcons, hn]
    simp only [hstart, show found.2 - 1 = n by omega, List.take_succ_cons, List.drop_succ_cons]

/-- The tokens read from a stop on are the lexemes behind it. -/
theorem Stop.mem_tokenizeFrom_iff {s : Text} {t : Token} {b : Nat} : ∀ {x : Nat}, Stop s x →
    (⟨t, b⟩ ∈ tokenizeFrom (Text.utf8Size (s.take x)) (s.drop x) ↔
      ∃ i n, Lexeme s i t n ∧ x ≤ i ∧ b = Text.utf8Size (s.take i)) := by
  intro x
  induction hk : s.length - x using Nat.strong_induction_on generalizing x with
  | _ k ih =>
    intro hx
    have hle := le_nextStart s x
    rcases Nat.lt_or_ge (nextStart s x) s.length with hlt | hge
    · have hlex := hx.lexeme hlt
      have hpos := hlex.pos
      rw [tokenizeFrom_nextStart hlt, List.mem_cons, Placed.mk.injEq,
        ih _ (by omega) rfl hlex.stop_behind]
      constructor
      · rintro (⟨rfl, rfl⟩ | ⟨i, n, h, hi, rfl⟩)
        · exact ⟨_, _, hlex, hle, rfl⟩
        · exact ⟨i, n, h, by omega, rfl⟩
      · rintro ⟨i, n, h, hi, rfl⟩
        rcases Nat.lt_or_eq_of_le (h.nextStart_le hi) with hxi | rfl
        · exact Or.inr ⟨i, n, h, hlex.add_le_of_lt h hxi, rfl⟩
        · exact Or.inl ⟨(h.unique hlex).1, rfl⟩
    · have hnil : tokenizeFrom (Text.utf8Size (s.take x)) (s.drop x) = [] := by
        rw [tokenizeFrom]
        split
        · rfl
        · rename_i c r hcons
          rw [trimStart_drop, List.drop_eq_nil_of_le hge] at hcons
          cases hcons
      rw [hnil]
      constructor
      · intro h
        cases h
      · rintro ⟨i, n, h, hi, rfl⟩
        have hlt := h.lt_length
        have hle := h.nextStart_le hi
        omega

/-- **The tokens of a text are its lexemes.** -/
theorem mem_tokenize_iff {s : Text} {t : Token} {b : Nat} :
    ⟨t, b⟩ ∈ tokenize s ↔ ∃ i n, Lexeme s i t n ∧ b = Text.utf8Size (s.take i) := by
  have h := Stop.mem_tokenizeFrom_iff (t := t) (b := b) (Stop.start (s := s))
  rw [List.take_zero, List.drop_zero, Text.utf8Size_nil] at h
  simpa [tokenize] using h

/-- Behind a stop the tokens stand one after the other. -/
theorem Stop.pairwise_tokenizeFrom {s : Text} : ∀ {x : Nat}, Stop s x →
    (tokenizeFrom (Text.utf8Size (s.take x)) (s.drop x)).Pairwise fun t u =>
      t.position < u.position := by
  intro x
  induction hk : s.length - x using Nat.strong_induction_on generalizing x with
  | _ k ih =>
    intro hx
    have hle := le_nextStart s x
    rcases Nat.lt_or_ge (nextStart s x) s.length with hlt | hge
    · have hlex := hx.lexeme hlt
      have hpos := hlex.pos
      rw [tokenizeFrom_nextStart hlt, List.pairwise_cons]
      refine ⟨fun ⟨u, b⟩ hu => ?_, ih _ (by omega) rfl hlex.stop_behind⟩
      obtain ⟨i, n, -, hi, rfl⟩ := hlex.stop_behind.mem_tokenizeFrom_iff.mp hu
      exact utf8Size_take_lt hlt (by omega)
    · have hnil : tokenizeFrom (Text.utf8Size (s.take x)) (s.drop x) = [] := by
        refine List.eq_nil_iff_forall_not_mem.mpr fun ⟨u, b⟩ hu => ?_
        obtain ⟨i, n, h, hi, rfl⟩ := hx.mem_tokenizeFrom_iff.mp hu
        have := h.lt_length
        have := h.nextStart_le hi
        omega
      rw [hnil]
      exact List.Pairwise.nil

/-- **The tokens of a text stand one after the other.** -/
theorem pairwise_tokenize (s : Text) :
    (tokenize s).Pairwise fun t u => t.position < u.position := by
  have h := Stop.pairwise_tokenizeFrom (Stop.start (s := s))
  rwa [List.take_zero, List.drop_zero, Text.utf8Size_nil] at h

end Sieve
