/-
# The small pieces of TOML

Blanks, comments, line ends, keys, strings, numbers and dates.  Every reader takes its piece
off the front of a text and gives what it stands for and the rest, or nothing if the piece is
not there.
-/
import Sieve.Binary64.Numeral
import Sieve.Literal.Timestamp

namespace Sieve

namespace Toml

/-! ## 1. Between the pieces -/

/-- A space or a tab. -/
def isGap (c : Char) : Bool := c == ' ' || c == '\t'

/-- The text behind spaces and tabs. -/
def skipGap (s : Text) : Text := s.dropWhile isGap

/-- A character that may stand in comments and strings: a tab, or no control character. -/
def isPrinted (c : Char) : Bool := c == '\t' || (32 ≤ c.toNat && c.toNat != 127)

/-- The text behind a comment, if one starts here. -/
def skipComment : Text → Text
  | '#' :: r => r.dropWhile isPrinted
  | s => s

/-- The text behind a line break. -/
def lineBreak? : Text → Option Text
  | '\n' :: r => some r
  | '\r' :: '\n' :: r => some r
  | _ => none

/-- The text behind the rest of a line, which may hold a comment and nothing else. -/
def lineEnd? (s : Text) : Option Text :=
  match skipComment (skipGap s) with
  | [] => some []
  | r => lineBreak? r

/-- The text behind spaces, tabs, line breaks and comments. -/
def skipLines : Text → Text
  | [] => []
  | '\r' :: '\n' :: r => skipLines r
  | c :: r =>
    if isGap c || c == '\n' then skipLines r
    else if c = '#' then skipLines (r.dropWhile isPrinted)
    else c :: r
  termination_by s => s.length
  decreasing_by
    all_goals
      have := (List.dropWhile_suffix (l := r) isPrinted).length_le
      simp only [List.length_cons]
      omega

/-! ## 2. Strings -/

/-- The value of hexadecimal digits. -/
def readHex? (s : Text) : Option Nat :=
  s.foldlM (fun n c =>
    ("0123456789abcdef".toList.findIdx? (· == c.toLower)).map fun d => 16 * n + d) 0

/-- The character with the code point that hexadecimal digits give. -/
def readCodePoint? (s : Text) : Option Char :=
  (readHex? s).bind fun n => if h : n.isValidChar then some (Char.ofNatAux n h) else none

/-- The character that a letter stands for behind a backslash. -/
def escaped? (c : Char) : Option Char :=
  if c = 'b' then some '\x08'
  else if c = 't' then some '\t'
  else if c = 'n' then some '\n'
  else if c = 'f' then some '\x0c'
  else if c = 'r' then some '\r'
  else if c = '"' ∨ c = '\\' then some c
  else none

/-- A string in double quotes, behind its opening quote. -/
def basicString? : Text → Option (Text × Text)
  | [] => none
  | '"' :: r => some ([], r)
  | '\\' :: 'u' :: a :: b :: c :: d :: r => do
    let x ← readCodePoint? [a, b, c, d]
    let (s, rest) ← basicString? r
    return (x :: s, rest)
  | '\\' :: 'U' :: a :: b :: c :: d :: e :: f :: g :: h :: r => do
    let x ← readCodePoint? [a, b, c, d, e, f, g, h]
    let (s, rest) ← basicString? r
    return (x :: s, rest)
  | '\\' :: c :: r => do
    let x ← escaped? c
    let (s, rest) ← basicString? r
    return (x :: s, rest)
  | c :: r =>
    if isPrinted c && c != '\\' then do
      let (s, rest) ← basicString? r
      return (c :: s, rest)
    else none

/-- A string in single quotes, behind its opening quote. -/
def literalString? : Text → Option (Text × Text)
  | [] => none
  | '\'' :: r => some ([], r)
  | c :: r =>
    if isPrinted c then do
      let (s, rest) ← literalString? r
      return (c :: s, rest)
    else none

/-- Up to two quotes more belong to a string of several lines when they follow its end. -/
def skipQuotes (q : Char) : Text → Text
  | c :: d :: r => if c = q ∧ d = q then r else if c = q then d :: r else c :: d :: r
  | [c] => if c = q then [] else [c]
  | [] => []

/-- The text behind a string of several lines in triple double quotes, from inside it. -/
def longBasicString? : Text → Option Text
  | [] => none
  | '"' :: '"' :: '"' :: r => some (skipQuotes '"' r)
  | '\\' :: 'u' :: a :: b :: c :: d :: r =>
    (readCodePoint? [a, b, c, d]).bind fun _ => longBasicString? r
  | '\\' :: 'U' :: a :: b :: c :: d :: e :: f :: g :: h :: r =>
    (readCodePoint? [a, b, c, d, e, f, g, h]).bind fun _ => longBasicString? r
  | '\\' :: c :: r =>
    if (escaped? c).isSome then longBasicString? r
    else if (lineBreak? (skipGap (c :: r))).isSome then longBasicString? (c :: r)
    else none
  | '\r' :: '\n' :: r => longBasicString? r
  | c :: r => if (isPrinted c && c != '\\') || c == '\n' then longBasicString? r else none

/-- The text behind a string of several lines in triple single quotes, from inside it. -/
def longLiteralString? : Text → Option Text
  | [] => none
  | '\'' :: '\'' :: '\'' :: r => some (skipQuotes '\'' r)
  | '\r' :: '\n' :: r => longLiteralString? r
  | c :: r => if isPrinted c || c == '\n' then longLiteralString? r else none

/-- The text behind a string of any of the four kinds. -/
def skipString? : Text → Option Text
  | '"' :: '"' :: '"' :: r => longBasicString? r
  | '"' :: r => (basicString? r).map (·.2)
  | '\'' :: '\'' :: '\'' :: r => longLiteralString? r
  | '\'' :: r => (literalString? r).map (·.2)
  | _ => none

/-! ## 3. Keys -/

/-- A character of a key without quotes. -/
def isKeyChar (c : Char) : Bool := c.isAlphanum || c == '-' || c == '_'

/-- One key, bare or in quotes, with the spaces and tabs around it. -/
def simpleKey? (s : Text) : Option (Text × Text) :=
  match skipGap s with
  | '"' :: r => (basicString? r).map fun (k, rest) => (k, skipGap rest)
  | '\'' :: r => (literalString? r).map fun (k, rest) => (k, skipGap rest)
  | r =>
    let k := r.takeWhile isKeyChar
    if k.isEmpty then none else some (k, skipGap (r.dropWhile isKeyChar))

/-- Keys with dots between them: all but the last, the last, and the rest of the text. -/
def key? (fuel : Nat) (s : Text) : Option (List Text × Text × Text) :=
  match fuel with
  | 0 => none
  | fuel + 1 =>
    match simpleKey? s with
    | none => none
    | some (k, '.' :: r) => (key? fuel r).map fun (path, last, rest) => (k :: path, last, rest)
    | some (k, r) => some ([], k, r)

/-- The greatest number of keys in a path, and of values nested in one another. -/
def deepest : Nat := 79

/-! ## 4. Numbers -/

/-- Digits of one kind, single underscores between them left out. -/
def digitRun (isDigit : Char → Bool) : Text → Text × Text
  | [] => ([], [])
  | '_' :: d :: r =>
    if isDigit d then
      let (ds, rest) := digitRun isDigit r
      (d :: ds, rest)
    else ([], '_' :: d :: r)
  | c :: r =>
    if isDigit c then
      let (ds, rest) := digitRun isDigit r
      (c :: ds, rest)
    else ([], c :: r)

/-- Digits that do not start with an underscore. -/
def digits? (isDigit : Char → Bool) : Text → Option (Text × Text)
  | [] => none
  | c :: r => if isDigit c then some (digitRun isDigit (c :: r)) else none

/-- The sign in front of a number, kept as text. -/
def signText : Text → Text × Text
  | '-' :: r => (['-'], r)
  | '+' :: r => (['+'], r)
  | s => ([], s)

/-- A whole number in base ten, with its sign and without underscores. No zero may stand in
front of other digits. -/
def wholePart? (s : Text) : Option (Text × Text) :=
  match signText s with
  | (sign, '0' :: r) => some (sign ++ ['0'], r)
  | (sign, r) => (digits? Char.isDigit r).map fun (ds, rest) => (sign ++ ds, rest)

/-- The power of ten of a number. -/
def powerPart? : Text → Option (Text × Text)
  | c :: r =>
    if c = 'e' ∨ c = 'E' then
      let (sign, r) := signText r
      (digits? Char.isDigit r).map fun (ds, rest) => ('e' :: sign ++ ds, rest)
    else none
  | [] => none

/-- The fraction of a number. -/
def fractionPart? : Text → Option (Text × Text)
  | '.' :: r => (digits? Char.isDigit r).map fun (ds, rest) => ('.' :: ds, rest)
  | _ => none

/-- A floating-point number. One that is too great for the type is refused. -/
def skipFloat? (s : Text) : Option Text :=
  let (_, unsigned) := signText s
  if "inf".toList.isPrefixOf unsigned || "nan".toList.isPrefixOf unsigned then
    some (unsigned.drop 3)
  else do
    let (whole, r) ← wholePart? s
    let (fraction, r') := (fractionPart? r).getD ([], r)
    let (power, rest) := (powerPart? r').getD ([], r')
    if fraction.isEmpty && power.isEmpty then none
    else if Binary64.read? (whole ++ fraction ++ power) = some (.infinite false) then none
    else some rest

/-- The value of digits in a base up to 16. -/
def ofDigits? (base : Nat) (s : Text) : Option Int :=
  s.foldlM (fun n c =>
    ("0123456789abcdef".toList.findIdx? (· == c.toLower)).map fun (d : Nat) => base * n + d) 0

/-- Whether a character is a digit in a base up to 16. -/
def isDigitOf (base : Nat) (c : Char) : Bool :=
  match "0123456789abcdef".toList.findIdx? (· == c.toLower) with
  | some d => d < base
  | none => false

/-- An integer of 64 bits in base ten, or behind `0x`, `0o` or `0b` in base 16, 8 or 2. -/
def integer? (s : Text) : Option (Int × Text) :=
  let based (base : Nat) (r : Text) : Option (Int × Text) := do
    let (ds, rest) ← digits? (isDigitOf base) r
    let n ← ofDigits? base ds
    return (n, rest)
  let found := match s with
    | '0' :: 'x' :: r => based 16 r
    | '0' :: 'o' :: r => based 8 r
    | '0' :: 'b' :: r => based 2 r
    | _ => do
      let (t, rest) ← wholePart? s
      let n ← Text.readInt? t
      return (n, rest)
  found.filter fun p => Text.fitsInt64 p.1

/-! ## 5. Dates and times -/

open Timestamp (mark? fixed?)

/-- The text behind a time of day. -/
def skipTime? (s : Text) : Option Text := do
  let (hour, s) ← fixed? 2 s
  let s ← mark? ':' s
  let (minute, s) ← fixed? 2 s
  let s ← mark? ':' s
  let (second, s) ← fixed? 2 s
  if 23 < hour ∨ 59 < minute ∨ 60 < second then none
  else
    match s with
    | '.' :: d :: r => if d.isDigit then some (r.dropWhile Char.isDigit) else some s
    | _ => some s

/-- The text behind a distance from UTC, if there is one. Its minus is the ASCII hyphen. -/
def skipOffset (s : Text) : Text :=
  if s.head? = some '\u2212' then s
  else
    match Timestamp.offset? s with
    | some (_, r) => r
    | none => s

/-- The text behind a date. -/
def skipDate? (s : Text) : Option Text := do
  let (year, s) ← fixed? 4 s
  let s ← mark? '-' s
  let (month, s) ← fixed? 2 s
  let s ← mark? '-' s
  let (day, s) ← fixed? 2 s
  let _ ← Date.ofParts? year month day
  return s

/-- The text behind a date, a time, or a date with a time. -/
def skipMoment? (s : Text) : Option Text :=
  match skipDate? s with
  | none => skipTime? s
  | some r =>
    match r with
    | c :: t =>
      if c = 'T' ∨ c = 't' ∨ c = ' ' then some (((skipTime? t).map skipOffset).getD r)
      else some r
    | [] => some r

end Toml

end Sieve
