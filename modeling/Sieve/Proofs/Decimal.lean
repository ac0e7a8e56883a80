/-
# Numbers in base ten

The decimal text of a number is made of digits, does not start with a zero unless it is the
number zero, and reads as the number again.  Zeros in front of it, up to a fixed width, do not
change that, and each zero behind it makes the number ten times as large.

* `Text.readNat?_decimal`, `Text.readInt?_decimal`: reading undoes writing;
* `Text.readNat?_padded`, `Text.readInt?_signedDecimal`: so it does behind zeros or a sign;
* `Text.readNat?_eq_some_iff`: nothing else is read as the number;
* `Text.eq_zero_of_head?_decimal`: no zero stands in front.
-/
import Sieve.Text.Basic
import Mathlib.Data.List.Induction
import Mathlib.Data.Nat.Digits.Defs

namespace Sieve

namespace Text

/-! ## 1. Digits -/

theorem toNat_of_isDigit {c : Char} (h : c.isDigit = true) : 48 ≤ c.toNat ∧ c.toNat ≤ 57 := by
  simpa [Char.isDigit, UInt32.le_iff_toNat_le] using h

/-- A digit has no case. -/
theorem toLower_of_isDigit {c : Char} (h : c.isDigit = true) : c.toLower = c := by
  have hcapital : ¬ (c.val ≥ 'A'.val ∧ c.val ≤ 'Z'.val) := by
    rintro ⟨hcapital, -⟩
    have hlow : 65 ≤ c.toNat := UInt32.le_iff_toNat_le.mp hcapital
    have hhigh := (toNat_of_isDigit h).2
    omega
  exact dif_neg hcapital

theorem ne_of_isDigit {d c : Char} (hd : d.isDigit = true) (hc : c.isDigit = false) : d ≠ c := by
  rintro rfl
  exact absurd hd (by simp [hc])

theorem decimal_ne_nil (n : Nat) : decimal n ≠ [] := Nat.toDigits_ne_nil

theorem isDigit_of_mem_decimal {n : Nat} {c : Char} (h : c ∈ decimal n) : c.isDigit = true :=
  Nat.isDigit_of_mem_toDigits (by decide) (by decide) h

/-- The decimal text as a first digit and the others. -/
theorem exists_decimal_eq_cons (n : Nat) :
    ∃ d ds, decimal n = d :: ds ∧ d.isDigit = true ∧ ∀ c ∈ ds, c.isDigit = true := by
  obtain ⟨d, ds, h⟩ := List.exists_cons_of_ne_nil (decimal_ne_nil n)
  have digits : ∀ c ∈ d :: ds, c.isDigit = true := fun c hc => isDigit_of_mem_decimal (h ▸ hc)
  exact ⟨d, ds, h, digits d (by simp), fun c hc => digits c (by simp [hc])⟩

/-- The decimal text of a number of more than one digit is that of its tenth with one digit
behind it. -/
theorem decimal_of_ten_le {n : Nat} (h : 10 ≤ n) :
    decimal n = decimal (n / 10) ++ [Nat.digitChar (n % 10)] :=
  Nat.toDigits_of_base_le (by decide) h

/-- Only the number zero starts with a zero. -/
theorem eq_zero_of_head?_decimal {n : Nat} (h : (decimal n).head? = some '0') : n = 0 := by
  induction n using Nat.strongRecOn with
  | ind n ih =>
    rcases Nat.lt_or_ge n 10 with small | large
    · rw [decimal, Nat.toDigits_of_lt_base small, List.head?_cons, Option.some.injEq] at h
      exact Nat.digitChar_eq_zero.mp h
    · have front : (decimal (n / 10)).head? = some '0' := by
        rw [decimal_of_ten_le large] at h
        obtain ⟨d, ds, hd, -⟩ := exists_decimal_eq_cons (n / 10)
        rw [hd] at h ⊢
        exact h
      have := ih (n / 10) (by omega) front
      omega

/-- Digits are read as their value. -/
theorem readNat?_of_digits {s : Text} (hne : s ≠ []) (hs : ∀ c ∈ s, c.isDigit = true) :
    readNat? s = some (Nat.ofDigitChars 10 s 0) := by
  have nonempty : s.isEmpty = false := by simpa using hne
  rw [readNat?, nonempty, List.all_eq_true.mpr hs]
  rfl

/-- Reading undoes writing. -/
theorem readNat?_decimal (n : Nat) : readNat? (decimal n) = some n := by
  rw [readNat?_of_digits (decimal_ne_nil n) fun _ hc => isDigit_of_mem_decimal hc, decimal,
    Nat.ofDigitChars_ten_toDigits]

/-- What reads as a number is made of digits. -/
theorem isDigit_of_readNat? {s : Text} {n : Nat} (h : readNat? s = some n) {c : Char}
    (hc : c ∈ s) : c.isDigit = true := by
  unfold readNat? at h
  split at h
  · next hs =>
    rw [Bool.and_eq_true] at hs
    exact List.all_eq_true.mp hs.2 c hc
  · cases h

/-! ## 2. Zeros in front and behind -/

theorem isDigit_of_mem_zeros {k : Nat} {c : Char} (h : c ∈ List.replicate k '0') :
    c.isDigit = true := by
  rw [List.eq_of_mem_replicate h]
  rfl

theorem isDigit_of_mem_padded {width n : Nat} {c : Char} (h : c ∈ padded width n) :
    c.isDigit = true :=
  (List.mem_append.mp h).elim isDigit_of_mem_zeros isDigit_of_mem_decimal

theorem padded_ne_nil (width n : Nat) : padded width n ≠ [] :=
  List.append_ne_nil_of_right_ne_nil _ (decimal_ne_nil n)

/-- A number that fits into the width has just that width. -/
theorem length_padded {width n : Nat} (hwidth : 0 < width) (h : n < 10 ^ width) :
    (padded width n).length = width := by
  have hle : (decimal n).length ≤ width :=
    (Nat.length_toDigits_le_iff (by decide) hwidth).mpr h
  rw [padded, List.length_append, List.length_replicate]
  omega

/-- Zeros in front do not count. -/
theorem ofDigitChars_padded (width n : Nat) : Nat.ofDigitChars 10 (padded width n) 0 = n := by
  rw [padded, Nat.ofDigitChars_append, Nat.ofDigitChars_replicate_zero, Nat.mul_zero, decimal,
    Nat.ofDigitChars_ten_toDigits]

theorem readNat?_padded (width n : Nat) : readNat? (padded width n) = some n := by
  rw [readNat?_of_digits (padded_ne_nil width n) fun _ hc => isDigit_of_mem_padded hc,
    ofDigitChars_padded]

theorem exists_digitChar_eq {c : Char} (h : c.isDigit = true) :
    ∃ d < 10, Nat.digitChar d = c := by
  obtain ⟨hlow, hhigh⟩ := toNat_of_isDigit h
  refine ⟨c.toNat - 48, by omega, Char.toNat_inj.mp ?_⟩
  rw [Nat.toNat_digitChar_of_lt_ten (by omega)]
  omega

/-- Digits are the decimal text of their value, behind zeros. -/
theorem exists_zeros_append_decimal {s : Text} (hne : s ≠ [])
    (hs : ∀ c ∈ s, c.isDigit = true) :
    ∃ k, s = List.replicate k '0' ++ decimal (Nat.ofDigitChars 10 s 0) := by
  -- from the back, where a decimal text grows
  induction s using List.reverseRecOn with
  | nil => exact absurd rfl hne
  | append_singleton t c ih =>
    obtain ⟨d, hd, rfl⟩ := exists_digitChar_eq (hs c (by simp))
    have ht : ∀ c ∈ t, c.isDigit = true := fun c hc => hs c (by simp [hc])
    have last : [Nat.digitChar d] = decimal d := (Nat.toDigits_of_lt_base hd).symm
    have value : Nat.ofDigitChars 10 (t ++ [Nat.digitChar d]) 0 =
        10 * Nat.ofDigitChars 10 t 0 + d := by
      rw [Nat.ofDigitChars_append, Nat.ofDigitChars_cons_digitChar_of_lt_ten hd,
        Nat.ofDigitChars_nil]
    rw [value, last]
    by_cases hempty : t = []
    · subst hempty
      exact ⟨0, by simp⟩
    obtain ⟨k, hk⟩ := ih hempty ht
    rcases Nat.eq_zero_or_pos (Nat.ofDigitChars 10 t 0) with zero | pos
    · -- all that stands in front are zeros
      rw [zero] at hk ⊢
      refine ⟨k + 1, ?_⟩
      rw [hk, List.replicate_succ', Nat.mul_zero, Nat.zero_add]
      rfl
    · have grown : decimal (10 * Nat.ofDigitChars 10 t 0 + d) =
          decimal (Nat.ofDigitChars 10 t 0) ++ decimal d :=
        (Nat.toDigits_append_toDigits (by decide) pos hd).symm
      exact ⟨k, by rw [grown, ← List.append_assoc, ← hk]⟩

/-- What reads as a number is its decimal text behind any zeros. -/
theorem readNat?_eq_some_iff {s : Text} {n : Nat} :
    readNat? s = some n ↔ ∃ k, s = List.replicate k '0' ++ decimal n := by
  constructor
  · intro h
    have hne : s ≠ [] := by
      rintro rfl
      cases h
    have hs : ∀ c ∈ s, c.isDigit = true := fun _ hc => isDigit_of_readNat? h hc
    rw [readNat?_of_digits hne hs, Option.some.injEq] at h
    exact h ▸ exists_zeros_append_decimal hne hs
  · rintro ⟨k, rfl⟩
    have zeros : padded (k + (decimal n).length) n = List.replicate k '0' ++ decimal n := by
      rw [padded, Nat.add_sub_cancel]
    rw [← zeros, readNat?_padded]

/-- Each zero behind makes the number ten times as large. -/
theorem readNat?_padded_append (width n k : Nat) :
    readNat? (padded width n ++ List.replicate k '0') = some (n * 10 ^ k) := by
  have hdigits : ∀ c ∈ padded width n ++ List.replicate k '0', c.isDigit = true :=
    fun _ hc => (List.mem_append.mp hc).elim isDigit_of_mem_padded isDigit_of_mem_zeros
  rw [readNat?_of_digits (List.append_ne_nil_of_left_ne_nil (padded_ne_nil width n) _) hdigits,
    Nat.ofDigitChars_append, ofDigitChars_padded, Nat.ofDigitChars_replicate_zero, Nat.mul_comm]

/-! ## 3. Reading numbers -/

/-- An integer is written with digits, and a minus sign at most. -/
theorem eq_minus_or_isDigit {n : Int} {c : Char} (h : c ∈ signedDecimal n) :
    c = '-' ∨ c.isDigit = true := by
  unfold signedDecimal at h
  split at h
  · exact (List.mem_cons.mp h).imp_right isDigit_of_mem_decimal
  · exact Or.inr (isDigit_of_mem_decimal h)

theorem signedDecimal_ne_nil (n : Int) : signedDecimal n ≠ [] := by
  unfold signedDecimal
  split
  · exact List.cons_ne_nil _ _
  · exact decimal_ne_nil _

/-- Neither a sign nor a digit has a case. -/
theorem asciiLower_signedDecimal (n : Int) : asciiLower (signedDecimal n) = signedDecimal n := by
  refine (List.map_congr_left fun c hc => ?_).trans (List.map_id _)
  rcases eq_minus_or_isDigit hc with rfl | hdigit
  · rfl
  · exact toLower_of_isDigit hdigit

/-- A text that starts with a digit has no sign. -/
theorem readInt?_of_isDigit {d : Char} {s : Text} (h : d.isDigit = true) :
    readInt? (d :: s) = (readNat? (d :: s)).map fun n : Nat => (n : Int) := by
  have minus : d ≠ '-' := ne_of_isDigit h rfl
  have plus : d ≠ '+' := ne_of_isDigit h rfl
  simp [readInt?, minus, plus]

theorem readInt?_decimal (n : Nat) : readInt? (decimal n) = some (n : Int) := by
  obtain ⟨d, ds, h, hd, -⟩ := exists_decimal_eq_cons n
  rw [h, readInt?_of_isDigit hd, ← h, readNat?_decimal, Option.map_some]

/-- Reading undoes writing, whatever the sign. -/
theorem readInt?_signedDecimal (n : Int) : readInt? (signedDecimal n) = some n := by
  unfold signedDecimal
  split
  · next h =>
    rw [readInt?, readNat?_decimal, Option.map_some, Int.ofNat_natAbs_of_nonpos (by omega),
      Int.neg_neg]
  · next h => rw [readInt?_decimal, Int.natAbs_of_nonneg (by omega)]

theorem readInt64?_signedDecimal {n : Int} (h : fitsInt64 n = true) :
    readInt64? (signedDecimal n) = some n := by
  rw [readInt64?, readInt?_signedDecimal, Option.filter_some, if_pos h]

end Text

end Sieve
