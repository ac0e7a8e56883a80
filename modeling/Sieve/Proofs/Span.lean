/-
# Quoted spans

Two readers look for quoted spans: the lexer for its strings, and the rewriting of keywords for
what it copies.  They find the closing quote alike and differ in what a backslash protects, so
what holds of the spans of both is said here for any choice of protectable characters.

* `Quoted.length?`: the closed span at the front of a text;
* `length?_spec`, `length?_append`: it runs from quote to quote, whatever follows;
* `quotedLength?_eq`, `Keyword.spanLength?_eq`: the spans of the two readers.
-/
import Sieve.Keyword.Capital
import Sieve.Token.Lexer

namespace Sieve

namespace Quoted

variable {protectable : Char → Bool} {q : Char} {s : Text} {n : Nat}

/-! ## 1. The closing quote -/

/-- A span ends with its quote. -/
theorem closing?_getElem? (h : closing? protectable q s = some n) : s[n - 1]? = some q := by
  fun_induction closing? protectable q s generalizing n with
  | case1 => cases h
  | case2 c hc =>
    obtain rfl : 1 = n := by simpa using h
    simp [hc.2]
  | case3 => cases h
  | case4 d r hp ih =>
    obtain ⟨m, hm, rfl⟩ := Option.map_eq_some_iff.mp h
    obtain ⟨k, rfl⟩ := Nat.exists_eq_add_of_le' (closing?_le hm).1
    exact ih hm
  | case5 => cases h
  | case6 d r hb =>
    obtain rfl : 1 = n := by simpa using h
    rfl
  | case7 c d r hb hq ih =>
    obtain ⟨m, hm, rfl⟩ := Option.map_eq_some_iff.mp h
    obtain ⟨k, rfl⟩ := Nat.exists_eq_add_of_le' (closing?_le hm).1
    exact ih hm

/-- What follows a closed span does not change where it is closed. -/
theorem closing?_append (h : closing? protectable q s = some n) (r : Text) :
    closing? protectable q (s ++ r) = some n := by
  fun_induction closing? protectable q s generalizing n with
  | case1 => cases h
  | case2 c hc =>
    obtain ⟨hb, rfl⟩ := hc
    rw [← h]
    cases r with
    | nil => simp [closing?, hb]
    | cons d r => simp [closing?, hb]
  | case3 => cases h
  | case4 d r' hp ih =>
    obtain ⟨m, hm, rfl⟩ := Option.map_eq_some_iff.mp h
    simp [closing?, hp, ih hm]
  | case5 => cases h
  | case6 d r' hb =>
    rw [← h]
    simp [closing?, hb]
  | case7 c d r' hb hq ih =>
    obtain ⟨m, hm, rfl⟩ := Option.map_eq_some_iff.mp h
    have hd := ih hm
    rw [List.cons_append] at hd
    simp [closing?, hb, hq, hd]

/-- A closed span is closed without what follows it. -/
theorem closing?_take (h : closing? protectable q s = some n) :
    closing? protectable q (s.take n) = some n := by
  fun_induction closing? protectable q s generalizing n with
  | case1 => cases h
  | case2 c hc =>
    obtain ⟨hb, rfl⟩ := hc
    obtain rfl : 1 = n := by simpa using h
    simp [closing?, hb]
  | case3 => cases h
  | case4 d r hp ih =>
    obtain ⟨m, hm, rfl⟩ := Option.map_eq_some_iff.mp h
    simp [closing?, hp, ih hm]
  | case5 => cases h
  | case6 d r hb =>
    obtain rfl : 1 = n := by simpa using h
    simp [closing?, hb]
  | case7 c d r hb hq ih =>
    obtain ⟨m, hm, rfl⟩ := Option.map_eq_some_iff.mp h
    obtain ⟨k, rfl⟩ := Nat.exists_eq_add_of_le' (closing?_le hm).1
    have hd := ih hm
    rw [List.take_succ_cons] at hd
    simp [closing?, hb, hq, hd]

/-! ## 2. Spans at the front of a text -/

/-- The number of characters of the closed span that starts the text, quotes included. -/
def length? (protectable : Char → Bool) : Text → Option Nat
  | [] => none
  | q :: r => if isQuote q then (closing? protectable q r).map (· + 1) else none

/-- A span starts with a quote and is closed behind it. -/
theorem length?_spec (h : length? protectable s = some n) :
    ∃ q r m, s = q :: r ∧ isQuote q = true ∧ closing? protectable q r = some m ∧ n = m + 1 := by
  cases s with
  | nil => cases h
  | cons q r =>
    rw [length?] at h
    split at h
    · rename_i hq
      obtain ⟨m, hm, rfl⟩ := Option.map_eq_some_iff.mp h
      exact ⟨q, r, m, rfl, hq, hm, rfl⟩
    · cases h

theorem length?_pos (h : length? protectable s = some n) : 0 < n := by
  obtain ⟨q, r, m, -, -, -, rfl⟩ := length?_spec h
  exact Nat.succ_pos m

theorem length?_le (h : length? protectable s = some n) : n ≤ s.length := by
  obtain ⟨q, r, m, rfl, -, hm, rfl⟩ := length?_spec h
  exact Nat.succ_le_succ (closing?_le hm).2

/-- A span starts and ends with the same quote. -/
theorem length?_quotes (h : length? protectable s = some n) :
    ∃ q, isQuote q = true ∧ s[0]? = some q ∧ s[n - 1]? = some q := by
  obtain ⟨q, r, m, rfl, hq, hm, rfl⟩ := length?_spec h
  refine ⟨q, hq, rfl, ?_⟩
  rw [← closing?_getElem? hm, Nat.add_sub_cancel]
  obtain ⟨k, rfl⟩ := Nat.exists_eq_add_of_le' (closing?_le hm).1
  rfl

theorem length?_append (h : length? protectable s = some n) (r : Text) :
    length? protectable (s ++ r) = some n := by
  obtain ⟨q, s, m, rfl, hq, hm, rfl⟩ := length?_spec h
  rw [List.cons_append, length?, if_pos hq, closing?_append hm r, Option.map_some]

theorem length?_take (h : length? protectable s = some n) :
    length? protectable (s.take n) = some n := by
  obtain ⟨q, r, m, rfl, hq, hm, rfl⟩ := length?_spec h
  rw [List.take_succ_cons, length?, if_pos hq, closing?_take hm, Option.map_some]

/-- No span opens with a character that is no quote. -/
theorem length?_eq_none (h : ∀ c, s[0]? = some c → isQuote c = false) :
    length? protectable s = none := by
  cases s with
  | nil => rfl
  | cons q r => simp [length?, h q rfl]

end Quoted

/-- The strings of the lexer are spans, where every character may be protected. -/
theorem quotedLength?_eq : quotedLength? = Quoted.length? fun _ => true := by
  funext s
  cases s <;> rfl

/-- A text that starts with no quote starts with no string. -/
theorem quotedLength?_eq_none {s : Text} (h : ∀ c ∈ s.head?, isQuote c = false) :
    quotedLength? s = none := by
  rw [quotedLength?_eq]
  exact Quoted.length?_eq_none (by simpa [List.head?_eq_getElem?] using h)

/-- The spans that are copied are spans, where a line feed may not be protected. A string of the
lexer in which one is protected is not copied. -/
theorem Keyword.spanLength?_eq : spanLength? = Quoted.length? (· != '\n') := by
  funext s
  cases s <;> rfl

example : quotedLength? ['\'', '\\', '\n', '\''] = some 4 := by decide

example : Keyword.spanLength? ['\'', '\\', '\n', '\''] = none := by decide

end Sieve
