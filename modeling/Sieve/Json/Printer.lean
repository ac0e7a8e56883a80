/-
# Writing JSON

Two layouts of the same value: `compact`, with nothing between the tokens, and `pretty`, with
one item or field a line and two spaces for every level.  In a string the quote, the backslash
and the control characters below the space are escaped, and nothing else.  Both layouts are those of
the library `serde_json`.
-/
import Sieve.Json.Basic
import Sieve.Binary64.Shortest

namespace Sieve

namespace Json

/-! ## 1. Strings and numbers -/

/-- A hexadecimal digit of a number below 16. -/
def hexDigit (n : Nat) : Char := "0123456789abcdef".toList.getD n '0'

/-- A character as it stands in a JSON string. -/
def escapeChar (c : Char) : Text :=
  if c = '"' then "\\\"".toList
  else if c = '\\' then "\\\\".toList
  else if c = '\n' then "\\n".toList
  else if c = '\r' then "\\r".toList
  else if c = '\t' then "\\t".toList
  else if c = '\x08' then "\\b".toList
  else if c = '\x0c' then "\\f".toList
  else if c.toNat < 32 then "\\u00".toList ++ [hexDigit (c.toNat / 16), hexDigit (c.toNat % 16)]
  else [c]

/-- A string with its quotes. -/
def quote (s : Text) : Text := '"' :: s.flatMap escapeChar ++ ['"']

/-- A floating-point number, or null where there is none. -/
def number (x : Binary64) : Text := x.scientific?.getD "null".toList

/-! ## 2. Compact -/

mutual

/-- The value with nothing between its tokens. -/
def compact : Json → Text
  | null => "null".toList
  | bool true => "true".toList
  | bool false => "false".toList
  | int n => Text.signedDecimal n
  | float x => number x
  | string s => quote s
  | array items => '[' :: [','].intercalate (compactItems items) ++ [']']
  | object fields => '{' :: [','].intercalate (compactFields fields) ++ ['}']

/-- Each item on its own. -/
def compactItems : List Json → List Text
  | [] => []
  | v :: more => compact v :: compactItems more

/-- Each field on its own. -/
def compactFields : List (Text × Json) → List Text
  | [] => []
  | (name, v) :: more => (quote name ++ ':' :: compact v) :: compactFields more

end

/-! ## 3. Pretty -/

/-- Entries between brackets, one a line, `depth` levels inside. -/
def block (opening closing : Char) (depth : Nat) (entries : List Text) : Text :=
  if entries.isEmpty then [opening, closing]
  else
    let margin := '\n' :: List.replicate (2 * (depth + 1)) ' '
    opening :: (margin ++ (',' :: margin).intercalate entries) ++
      '\n' :: List.replicate (2 * depth) ' ' ++ [closing]

mutual

/-- The value as it stands `depth` levels inside. -/
def prettyAt (depth : Nat) : Json → Text
  | null => "null".toList
  | bool true => "true".toList
  | bool false => "false".toList
  | int n => Text.signedDecimal n
  | float x => number x
  | string s => quote s
  | array items => block '[' ']' depth (prettyItems (depth + 1) items)
  | object fields => block '{' '}' depth (prettyFields (depth + 1) fields)

/-- Each item on its own. -/
def prettyItems (depth : Nat) : List Json → List Text
  | [] => []
  | v :: more => prettyAt depth v :: prettyItems depth more

/-- Each field on its own. -/
def prettyFields (depth : Nat) : List (Text × Json) → List Text
  | [] => []
  | (name, v) :: more =>
    (quote name ++ ':' :: ' ' :: prettyAt depth v) :: prettyFields depth more

end

/-- The value with one item or field a line. -/
def pretty (v : Json) : Text := prettyAt 0 v

end Json

end Sieve
