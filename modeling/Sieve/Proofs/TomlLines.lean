/-
# Documents written line by line

A document whose lines are statements of their own is read as these statements in order.  So what
a writer has to prove of its output is one fact about each kind of line, and what is read back is
computed from the statements, without another look at the text.

* `Toml.IsLine`, `Toml.IsValue`: a line is a statement, and a text a value, whatever follows;
* `Toml.isLine_comment`, `Toml.isLine_header`, `Toml.isLine_entry`: the kinds of lines;
* `Toml.isValue_decimal`: a number as it is written is an integer, although a date, a time and a
  floating-point number are tried first and start with digits too;
* `Toml.read?_unlines`: the document.
-/
import Sieve.Proofs.Decimal
import Sieve.Toml.Document

namespace Sieve

namespace Toml

/-- The line is the statement, whatever follows it. -/
def IsLine (line : Text) (found : Statement) : Prop :=
  ∀ r, statement? (line ++ '\n' :: r) = some (found, r)

/-- The text is the value, whatever follows on the next line. -/
structure IsValue (v : Text) (item : Item) : Prop where
  start : ∀ r, skipGap (v ++ r) = v ++ r
  read : ∀ r, value? deepest (v ++ '\n' :: r) = some (item, '\n' :: r)

/-! ## 1. Lines -/

theorem isLine_nil : IsLine [] .blank := fun _ => rfl

theorem isLine_comment {s : Text} (h : s.all isPrinted = true) : IsLine ('#' :: s) .blank := by
  intro r
  have printed : (s ++ '\n' :: r).dropWhile isPrinted = '\n' :: r := by
    rw [List.dropWhile_append_of_pos (List.all_eq_true.mp h)]
    rfl
  have comment : skipComment (skipGap ('#' :: (s ++ '\n' :: r))) = '\n' :: r := printed
  have ends : lineEnd? ('#' :: (s ++ '\n' :: r)) = some r := by
    unfold lineEnd?
    rw [comment]
    rfl
  show (lineEnd? ('#' :: (s ++ '\n' :: r))).map _ = _
  rw [ends, Option.map_some]

/-- A key that needs no quotes. -/
structure IsBareKey (k : Text) : Prop where
  ne_nil : k ≠ []
  all : k.all isKeyChar = true

theorem IsBareKey.chars {k : Text} (hk : IsBareKey k) : ∀ c ∈ k, isKeyChar c = true :=
  List.all_eq_true.mp hk.all

theorem isGap_of_isKeyChar {c : Char} (h : isKeyChar c = true) : isGap c = false := by
  refine Bool.eq_false_iff.mpr fun hg => ?_
  simp only [isGap, Bool.or_eq_true, beq_iff_eq] at hg
  rcases hg with rfl | rfl <;> exact absurd h (by decide)

theorem skipGap_of_isKeyChar {c : Char} (h : isKeyChar c = true) (s : Text) :
    skipGap (c :: s) = c :: s := by
  simp [skipGap, isGap_of_isKeyChar h]

theorem lineBreak?_of_isKeyChar {c : Char} (h : isKeyChar c = true) (s : Text) :
    lineBreak? (c :: s) = none := by
  have feed : c ≠ '\n' := by rintro rfl; exact absurd h (by decide)
  have carriage : c ≠ '\r' := by rintro rfl; exact absurd h (by decide)
  unfold lineBreak?
  split
  · next h => exact absurd (List.cons.inj h).1 feed
  · next h => exact absurd (List.cons.inj h).1 carriage
  · rfl

section Keys

variable {k r : Text}

/-- A bare key goes as far as its characters do. -/
theorem IsBareKey.simpleKey? (hk : IsBareKey k) (hr : ∀ c ∈ r.head?, isKeyChar c = false) :
    simpleKey? (k ++ r) = some (k, skipGap r) := by
  obtain ⟨c, s, rfl⟩ := List.exists_cons_of_ne_nil hk.ne_nil
  have hc : isKeyChar c = true := hk.chars c (by simp)
  have double : c ≠ '"' := by rintro rfl; exact absurd hc (by decide)
  have single : c ≠ '\'' := by rintro rfl; exact absurd hc (by decide)
  have taken : ((c :: s) ++ r).takeWhile isKeyChar = c :: s := by
    rw [List.takeWhile_append_of_pos hk.chars]
    cases r with
    | nil => simp
    | cons d t => simp [hr d rfl]
  have left : ((c :: s) ++ r).dropWhile isKeyChar = r := by
    rw [List.dropWhile_append_of_pos hk.chars]
    cases r with
    | nil => rfl
    | cons d t => simp [hr d rfl]
  have start : skipGap ((c :: s) ++ r) = c :: (s ++ r) := skipGap_of_isKeyChar hc _
  unfold Toml.simpleKey?
  rw [start]
  split
  · next h => exact absurd (List.cons.inj h).1 double
  · next h => exact absurd (List.cons.inj h).1 single
  · rw [← List.cons_append, taken, left]
    rfl

/-- A bare key with no dot behind it is the whole path. -/
theorem IsBareKey.key? (hk : IsBareKey k) (hr : ∀ c ∈ r.head?, isKeyChar c = false)
    (hdot : (skipGap r).head? ≠ some '.') : key? deepest (k ++ r) = some ([], k, skipGap r) := by
  show Toml.key? (78 + 1) (k ++ r) = _
  rw [Toml.key?, hk.simpleKey? hr]
  split
  · next h => cases h
  · next h =>
    rw [Option.some.injEq, Prod.mk.injEq] at h
    exact absurd (by rw [h.2]; rfl) hdot
  · next h =>
    cases h
    rfl

theorem isLine_header (hk : IsBareKey k) : IsLine ('[' :: k ++ [']']) (.header [] k) := by
  intro r
  obtain ⟨c, s, rfl⟩ := List.exists_cons_of_ne_nil hk.ne_nil
  have bracket : c ≠ '[' := by rintro rfl; exact absurd (hk.chars '[' (by simp)) (by decide)
  have path := hk.key? (r := ']' :: '\n' :: r) (by simp; decide) (by simp [skipGap, isGap])
  have text : '[' :: (c :: s) ++ [']'] ++ '\n' :: r = '[' :: ((c :: s) ++ ']' :: '\n' :: r) := by
    simp
  have start : skipGap ('[' :: ((c :: s) ++ ']' :: '\n' :: r)) =
      '[' :: ((c :: s) ++ ']' :: '\n' :: r) := rfl
  rw [text]
  unfold statement?
  rw [start]
  split
  · next h => cases h
  · next h => exact absurd (List.cons.inj (List.cons.inj h).2).1 bracket
  · next h =>
    cases h
    rw [path]
    rfl
  · next h => cases h
  · next h _ => exact absurd rfl (h _)

/-- The line of a key with its value. -/
theorem isLine_entry (hk : IsBareKey k) {v : Text} {item : Item} (hv : IsValue v item) :
    IsLine (k ++ " = ".toList ++ v) (.entry [] k item) := by
  intro r
  obtain ⟨c, s, rfl⟩ := List.exists_cons_of_ne_nil hk.ne_nil
  have hc : isKeyChar c = true := hk.chars c (by simp)
  have path := hk.key? (r := ' ' :: '=' :: ' ' :: (v ++ '\n' :: r)) (by simp; decide)
    (by simp [skipGap, isGap])
  have text : (c :: s) ++ " = ".toList ++ v ++ '\n' :: r =
      (c :: s) ++ ' ' :: '=' :: ' ' :: (v ++ '\n' :: r) := by
    simp
  have entry : keyValue? (value? deepest) ((c :: s) ++ ' ' :: '=' :: ' ' :: (v ++ '\n' :: r)) =
      some (([], c :: s, item), '\n' :: r) := by
    have value : value? deepest (skipGap (' ' :: (v ++ '\n' :: r))) = some (item, '\n' :: r) := by
      show value? deepest (skipGap (v ++ '\n' :: r)) = _
      rw [hv.start, hv.read]
    unfold keyValue?
    rw [path]
    show (value? deepest (skipGap (' ' :: (v ++ '\n' :: r)))).map _ = _
    rw [value]
    rfl
  have start : skipGap ((c :: s) ++ ' ' :: '=' :: ' ' :: (v ++ '\n' :: r)) =
      c :: (s ++ ' ' :: '=' :: ' ' :: (v ++ '\n' :: r)) := skipGap_of_isKeyChar hc _
  have noBreak : lineBreak? (c :: (s ++ ' ' :: '=' :: ' ' :: (v ++ '\n' :: r))) = none :=
    lineBreak?_of_isKeyChar hc _
  rw [text]
  unfold statement?
  rw [start]
  split
  · next h => cases h
  · next h => exact absurd (hc) (by rw [(List.cons.inj h).1]; decide)
  · next h => exact absurd (hc) (by rw [(List.cons.inj h).1]; decide)
  · next h => exact absurd (hc) (by rw [(List.cons.inj h).1]; decide)
  · rw [noBreak]
    dsimp only
    rw [← List.cons_append, entry]
    rfl

end Keys

/-! ## 2. Values -/

theorem isValue_true : IsValue "true".toList (.bool true) := ⟨fun _ => rfl, fun _ => rfl⟩

theorem isValue_false : IsValue "false".toList (.bool false) := ⟨fun _ => rfl, fun _ => rfl⟩

section Digits

variable {ds r : Text}

/-- A field of digits at the front of a whole number ends inside the number or right behind
it. -/
theorem fixed?_digits {width m : Nat} {t : Text} (hds : ∀ c ∈ ds, c.isDigit = true)
    (h : Timestamp.fixed? width (ds ++ '\n' :: r) = some (m, t)) :
    ∃ es, (∀ c ∈ es, c.isDigit = true) ∧ t = es ++ '\n' :: r := by
  simp only [Timestamp.fixed?] at h
  split at h
  case isFalse => cases h
  obtain ⟨n, hn, h⟩ := Option.map_eq_some_iff.mp h
  cases h
  have long : width ≤ ds.length := by
    -- Otherwise the line break would be one of the digits.
    refine Nat.le_of_not_lt fun short => ?_
    have inside : '\n' ∈ (ds ++ '\n' :: r).take width := by
      obtain ⟨k, hk⟩ : ∃ k, width - ds.length = k + 1 := ⟨width - ds.length - 1, by omega⟩
      rw [List.take_append, hk]
      simp
    exact absurd (Text.isDigit_of_readNat? hn inside) (by decide)
  refine ⟨ds.drop width, fun c hc => hds c (List.mem_of_mem_drop hc), ?_⟩
  exact List.drop_append_of_le_length long

/-- Behind such a field there is a digit or the line break, and no mark. -/
theorem mark?_fixed?_digits {width m : Nat} {t : Text} (hds : ∀ c ∈ ds, c.isDigit = true)
    (h : Timestamp.fixed? width (ds ++ '\n' :: r) = some (m, t)) {c : Char}
    (hc : c.isDigit = false) (hbreak : c ≠ '\n') : Timestamp.mark? c t = none := by
  obtain ⟨es, hes, rfl⟩ := fixed?_digits hds h
  cases es with
  | nil => simp [Timestamp.mark?, hbreak.symm]
  | cons d es =>
    have : d ≠ c := Text.ne_of_isDigit (hes d (by simp)) hc
    simp [Timestamp.mark?, this]

/-- A whole number is no date and no time. -/
theorem skipMoment?_digits (hds : ∀ c ∈ ds, c.isDigit = true) :
    skipMoment? (ds ++ '\n' :: r) = none := by
  have date : skipDate? (ds ++ '\n' :: r) = none := by
    unfold skipDate?
    cases hf : Timestamp.fixed? 4 (ds ++ '\n' :: r) with
    | none => rfl
    | some p =>
      have := mark?_fixed?_digits hds hf (c := '-') (by decide) (by decide)
      simp [this]
  have time : skipTime? (ds ++ '\n' :: r) = none := by
    unfold skipTime?
    cases hf : Timestamp.fixed? 2 (ds ++ '\n' :: r) with
    | none => rfl
    | some p =>
      have := mark?_fixed?_digits hds hf (c := ':') (by decide) (by decide)
      simp [this]
  unfold skipMoment?
  rw [date]
  exact time

theorem digitRun_digits (hds : ∀ c ∈ ds, c.isDigit = true) :
    digitRun Char.isDigit (ds ++ '\n' :: r) = (ds, '\n' :: r) := by
  induction ds with
  | nil => rfl
  | cons d ds ih =>
    have hd : d.isDigit = true := hds d (by simp)
    have plain : d ≠ '_' := Text.ne_of_isDigit hd rfl
    have rest := ih fun c hc => hds c (by simp [hc])
    rw [List.cons_append, digitRun]
    · simp [hd, rest]
    · exact fun _ _ h => absurd h plain

/-- No name that starts with a letter stands where a digit does. -/
theorem not_isPrefixOf_digit (name : Text) {d : Char} {s : Text} (hd : d.isDigit = true)
    (hname : name.head?.map Char.isDigit = some false) : name.isPrefixOf (d :: s) = false := by
  obtain _ | ⟨c, name⟩ := name
  · cases hname
  · have : d ≠ c := Text.ne_of_isDigit hd (Option.some.inj hname)
    simp [List.isPrefixOf, this.symm]

/-- A digit is no sign. -/
theorem signText_of_isDigit {d : Char} (hd : d.isDigit = true) (s : Text) :
    signText (d :: s) = ([], d :: s) := by
  have minus : d ≠ '-' := Text.ne_of_isDigit hd rfl
  have plus : d ≠ '+' := Text.ne_of_isDigit hd rfl
  simp [signText, minus, plus]

end Digits

section Decimal

variable (n : Nat) (r : Text)

/-- The whole part of a number as it is written is the number: no zero stands in front that could
end it early. -/
theorem wholePart?_decimal :
    wholePart? (Text.decimal n ++ '\n' :: r) = some (Text.decimal n, '\n' :: r) := by
  obtain ⟨d, ds, h, hd, hds⟩ := Text.exists_decimal_eq_cons n
  by_cases zero : d = '0'
  · have hn : n = 0 := Text.eq_zero_of_head?_decimal (by rw [h, zero]; rfl)
    subst hn
    rfl
  · have run : digitRun Char.isDigit (d :: ds ++ '\n' :: r) = (d :: ds, '\n' :: r) :=
      digitRun_digits (by simpa [hd] using hds)
    rw [h, List.cons_append] at *
    unfold wholePart?
    rw [signText_of_isDigit hd]
    split
    · next hs => exact absurd (List.cons.inj (Prod.mk.inj hs).2).1 zero
    · next hs =>
      cases hs
      have digits : digits? Char.isDigit (d :: (ds ++ '\n' :: r)) = some (d :: ds, '\n' :: r) := by
        rw [← run]
        simp [digits?, hd]
      rw [digits]
      rfl

/-- A number as it is written is no floating-point number: it has no fraction and no power. -/
theorem skipFloat?_decimal : skipFloat? (Text.decimal n ++ '\n' :: r) = none := by
  have whole := wholePart?_decimal n r
  obtain ⟨d, ds, h, hd, hds⟩ := Text.exists_decimal_eq_cons n
  rw [h, List.cons_append] at whole ⊢
  unfold skipFloat?
  rw [signText_of_isDigit hd]
  simp only [not_isPrefixOf_digit "inf".toList hd (by decide),
    not_isPrefixOf_digit "nan".toList hd (by decide), whole]
  rfl

theorem integer?_decimal (hn : Text.fitsInt64 n = true) :
    integer? (Text.decimal n ++ '\n' :: r) = some ((n : Int), '\n' :: r) := by
  have whole := wholePart?_decimal n r
  have value := Text.readInt?_decimal n
  obtain ⟨d, ds, h, hd, hds⟩ := Text.exists_decimal_eq_cons n
  have plain : ∀ c t, d :: (ds ++ '\n' :: r) = '0' :: c :: t → c = '\n' := by
    intro c t hct
    have hn : n = 0 := Text.eq_zero_of_head?_decimal (by rw [h, (List.cons.inj hct).1]; rfl)
    subst hn
    cases h
    exact (List.cons.inj (List.cons.inj hct).2).1.symm
  rw [h] at whole value ⊢
  rw [List.cons_append] at whole ⊢
  unfold integer?
  simp only
  split
  · next hs => exact absurd (plain _ _ hs) (by decide)
  · next hs => exact absurd (plain _ _ hs) (by decide)
  · next hs => exact absurd (plain _ _ hs) (by decide)
  · rw [whole]
    simp [value, hn]

theorem value?_decimal (hn : Text.fitsInt64 n = true) :
    value? deepest (Text.decimal n ++ '\n' :: r) = some (.int n, '\n' :: r) := by
  have moment : skipMoment? (Text.decimal n ++ '\n' :: r) = none :=
    skipMoment?_digits fun _ hc => Text.isDigit_of_mem_decimal hc
  have float := skipFloat?_decimal n r
  have integer := integer?_decimal n r hn
  obtain ⟨d, ds, h, hd, hds⟩ := Text.exists_decimal_eq_cons n
  rw [h, List.cons_append] at moment float integer ⊢
  have array : d ≠ '[' := Text.ne_of_isDigit hd rfl
  have table : d ≠ '{' := Text.ne_of_isDigit hd rfl
  have string : ¬(d = '"' ∨ d = '\'') := by
    rintro (rfl | rfl) <;> exact absurd hd (by decide)
  show value? (78 + 1) (d :: (ds ++ '\n' :: r)) = _
  unfold value?
  split
  · next hs => exact absurd (List.cons.inj hs).1 array
  · next hs => exact absurd (List.cons.inj hs).1 table
  · unfold plainValue?
    simp only [if_neg string, not_isPrefixOf_digit "true".toList hd (by decide),
      not_isPrefixOf_digit "false".toList hd (by decide), moment, float, integer]
    rfl

end Decimal

/-- A number as it is written is an integer, if it has room in 64 bits with a sign. -/
theorem isValue_decimal {n : Nat} (hn : Text.fitsInt64 n = true) :
    IsValue (Text.decimal n) (.int n) where
  start r := by
    obtain ⟨d, ds, h, hd, -⟩ := Text.exists_decimal_eq_cons n
    have key : isKeyChar d = true := by simp [isKeyChar, Char.isAlphanum, hd]
    rw [h, List.cons_append, skipGap_of_isKeyChar key]
  read r := value?_decimal n r hn

/-! ## 3. Documents -/

theorem statements?_cons (fuel : Nat) (st : State) (c : Char) (s : Text) :
    statements? (fuel + 1) st (c :: s) =
      match statement? (c :: s) with
      | none => none
      | some (found, rest) => (st.add? found).bind fun st => statements? fuel st rest := rfl

/-- Lines that are statements are read one after the other. -/
theorem statements?_unlines {lines : List Text} {found : List Statement}
    (h : List.Forall₂ IsLine lines found) (fuel : Nat) (hf : lines.length ≤ fuel) (st : State) :
    statements? fuel st (Text.unlines lines) = (found.foldlM State.add? st).map State.entries := by
  induction h generalizing fuel st with
  | nil => cases fuel <;> rfl
  | @cons line statement lines found isLine _ ih =>
    obtain _ | fuel := fuel
    · simp at hf
    have front := isLine (Text.unlines lines)
    obtain ⟨c, s, text⟩ : ∃ c s, line ++ '\n' :: Text.unlines lines = c :: s := by
      cases line <;> simp
    rw [Text.unlines_cons, List.foldlM_cons]
    rw [text] at front ⊢
    rw [statements?_cons, front]
    show (st.add? statement).bind _ = ((st.add? statement).bind _).map _
    cases st.add? statement with
    | none => rfl
    | some st => exact ih fuel (by simpa using hf) st

theorem length_le_unlines (lines : List Text) : lines.length ≤ (Text.unlines lines).length := by
  induction lines with
  | nil => exact Nat.le_refl 0
  | cons line lines ih =>
    rw [Text.unlines_cons, List.length_append, List.length_cons, List.length_cons]
    omega

/-- **A document whose lines are statements holds what the statements make of an empty one.** -/
theorem read?_unlines {lines : List Text} {found : List Statement}
    (h : List.Forall₂ IsLine lines found) (mark : (Text.unlines lines).head? ≠ some '\uFEFF') :
    read? (Text.unlines lines) = (found.foldlM State.add? ⟨[], []⟩).map State.entries := by
  unfold read?
  rw [if_neg mark]
  exact statements?_unlines h _ (length_le_unlines lines) _

end Toml

end Sieve
