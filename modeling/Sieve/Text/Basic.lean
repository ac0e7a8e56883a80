/-
# Texts

A text is a list of characters.  Everything this library reads, cuts, joins and writes is a
text; strings appear only at its edges, where a program's arguments come in and its output
goes out.  A list keeps every function on texts a plain recursion, so that what is read off
the front of a text and what is left of it add up to the text.

* `utf8Size`: the length that positions count in;
* `split`, `unlines`, `occursIn`, `unescape`: cutting a text, joining lines, looking into a text;
* `decimal`, `signedDecimal`, `padded`: numbers in base ten;
* `readNat?`, `readInt?`, `readInt64?`: reading them again.
-/

namespace Sieve

/-- A text: its characters in order. -/
abbrev Text := List Char

namespace Text

/-! ## 1. Size -/

/-- The number of bytes the text takes in UTF-8. -/
def utf8Size : Text → Nat
  | [] => 0
  | c :: r => c.utf8Size + utf8Size r

@[simp] theorem utf8Size_nil : utf8Size [] = 0 := rfl

@[simp] theorem utf8Size_cons (c : Char) (s : Text) :
    utf8Size (c :: s) = c.utf8Size + utf8Size s := rfl

@[simp] theorem utf8Size_append (s t : Text) :
    utf8Size (s ++ t) = utf8Size s + utf8Size t := by
  induction s with
  | nil => simp
  | cons c r ih => simp [ih, Nat.add_assoc]

/-- A text that is not empty takes at least one byte. -/
theorem utf8Size_pos {s : Text} (h : s ≠ []) : 0 < utf8Size s := by
  cases s with
  | nil => exact absurd rfl h
  | cons c r =>
    have := c.utf8Size_pos
    simp only [utf8Size_cons]
    omega

/-! ## 2. Cutting and looking -/

/-- The pieces between the separators: one more than there are separators. -/
def split (sep : Char) : Text → List Text
  | [] => [[]]
  | c :: r =>
    if c = sep then [] :: split sep r
    else
      match split sep r with
      | [] => [[c]]
      | piece :: more => (c :: piece) :: more

theorem split_ne_nil (sep : Char) (s : Text) : split sep s ≠ [] := by
  cases s with
  | nil => simp [split]
  | cons c r =>
    unfold split
    split
    · simp
    · split <;> simp

/-- No piece holds a separator. -/
theorem notMem_of_mem_split {sep : Char} {s piece : Text} (h : piece ∈ split sep s) :
    sep ∉ piece := by
  induction s generalizing piece with
  | nil => simp_all [split]
  | cons c r ih =>
    unfold split at h
    split at h
    · rcases List.mem_cons.mp h with rfl | h
      · simp
      · exact ih h
    · next hc =>
      split at h
      · simp_all [Ne.symm hc]
      · next first more hpieces =>
        rw [hpieces] at ih
        rcases List.mem_cons.mp h with rfl | h
        · simpa [Ne.symm hc] using ih List.mem_cons_self
        · exact ih (List.mem_cons_of_mem first h)

/-- A text without separators is one piece. -/
theorem split_eq_self {sep : Char} {s : Text} (h : sep ∉ s) : split sep s = [s] := by
  induction s with
  | nil => rfl
  | cons c r ih =>
    obtain ⟨hc, hr⟩ : sep ≠ c ∧ sep ∉ r := by simpa using h
    rw [split, if_neg (Ne.symm hc), ih hr]

/-- The first piece ends at the first separator. -/
theorem split_append {sep : Char} {s : Text} (h : sep ∉ s) (r : Text) :
    split sep (s ++ sep :: r) = s :: split sep r := by
  induction s with
  | nil => simp [split]
  | cons c t ih =>
    obtain ⟨hc, ht⟩ : sep ≠ c ∧ sep ∉ t := by simpa using h
    rw [List.cons_append, split, if_neg (Ne.symm hc), ih ht]

/-- Pieces with separators between are cut into these pieces again. -/
theorem split_intercalate {sep : Char} : ∀ {pieces : List Text}, pieces ≠ [] →
    (∀ piece ∈ pieces, sep ∉ piece) → split sep ([sep].intercalate pieces) = pieces
  | [], hne, _ => absurd rfl hne
  | [piece], _, h => by simpa using split_eq_self (h piece (by simp))
  | piece :: next :: more, _, h => by
    obtain ⟨hpiece, hmore⟩ := List.forall_mem_cons.mp h
    rw [List.intercalate_cons_cons, List.append_assoc, List.singleton_append,
      split_append hpiece, split_intercalate (by simp) hmore]

/-- The part before the first separator and the part after it. -/
def cut? (sep : Char) : Text → Option (Text × Text)
  | [] => none
  | c :: r => if c = sep then some ([], r) else (cut? sep r).map fun p => (c :: p.1, p.2)

/-- The text with these lines, each with the line break that ends it. -/
def unlines (lines : List Text) : Text := lines.flatMap (· ++ ['\n'])

@[simp] theorem unlines_nil : unlines [] = [] := rfl

@[simp] theorem unlines_cons (l : Text) (ls : List Text) :
    unlines (l :: ls) = l ++ '\n' :: unlines ls := by
  simp [unlines]

/-- The lines of a text that ends with a line break, and the nothing behind it. -/
theorem split_unlines {lines : List Text} (h : ∀ l ∈ lines, '\n' ∉ l) :
    split '\n' (unlines lines) = lines ++ [[]] := by
  induction lines with
  | nil => rfl
  | cons l ls ih =>
    obtain ⟨hl, hls⟩ := List.forall_mem_cons.mp h
    rw [unlines_cons, split_append hl, ih hls, List.cons_append]

/-- Whether `part` stands somewhere in the text. -/
def occursIn (part : Text) : Text → Bool
  | [] => part.isEmpty
  | c :: r => part.isPrefixOf (c :: r) || occursIn part r

theorem occursIn_iff {part s : Text} : occursIn part s = true ↔ part <:+: s := by
  induction s with
  | nil => simp [occursIn]
  | cons c r ih => simp [occursIn, ih, List.infix_cons_iff]

/-- Every `\q` becomes `q`, read from the left. -/
def unescape (q : Char) : Text → Text
  | [] => []
  | [c] => [c]
  | c :: d :: r => if c = '\\' ∧ d = q then q :: unescape q r else c :: unescape q (d :: r)

/-- ASCII letters become small; every other character stays. -/
def asciiLower (s : Text) : Text := s.map Char.toLower

/-! ## 3. Numbers in base ten -/

/-- The decimal digits of a natural number. -/
def decimal (n : Nat) : Text := Nat.toDigits 10 n

/-- The decimal text of an integer, with a minus sign below zero. -/
def signedDecimal (n : Int) : Text :=
  if n < 0 then '-' :: decimal n.natAbs else decimal n.natAbs

/-- The decimal digits of `n`, with zeros in front up to `width` characters. -/
def padded (width n : Nat) : Text :=
  List.replicate (width - (decimal n).length) '0' ++ decimal n

/-- The text with blanks behind it up to `width` characters. -/
def fill (width : Nat) (s : Text) : Text := s ++ List.replicate (width - s.length) ' '

/-- The value of a run of decimal digits; none for an empty run or any other character. -/
def readNat? (s : Text) : Option Nat :=
  if !s.isEmpty && s.all Char.isDigit then some (s.foldl (fun n c => 10 * n + (c.toNat - 48)) 0)
  else none

/-- An optional sign and decimal digits. -/
def readInt? : Text → Option Int
  | '-' :: r => (readNat? r).map fun (n : Nat) => -(n : Int)
  | '+' :: r => (readNat? r).map fun (n : Nat) => (n : Int)
  | s => (readNat? s).map fun (n : Nat) => (n : Int)

/-- Whether an integer fits into 64 bits with a sign. -/
def fitsInt64 (n : Int) : Bool := -9223372036854775808 ≤ n && n ≤ 9223372036854775807

/-- The integer of 64 bits that a text stands for. -/
def readInt64? (s : Text) : Option Int := (readInt? s).filter fitsInt64

end Text

end Sieve
