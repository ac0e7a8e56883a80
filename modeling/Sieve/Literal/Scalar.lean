/-
# Typed literals

What a condition compares a column with: one typed literal, or a list of them for a
membership test.  A list is one value; it is bound to one placeholder.

* `Scalar.text`, `Value.text`: a literal as it is shown, strings between single quotes with
  nothing escaped.
-/
import Sieve.Literal.Uuid
import Sieve.Literal.Timestamp
import Sieve.Binary64.Shortest

namespace Sieve

/-- One typed literal. -/
inductive Scalar where
  | null
  | bool (b : Bool)
  /-- An integer of 64 bits with a sign. -/
  | int (n : Int)
  | float (x : Binary64)
  | timestamp (t : Timestamp)
  | uuid (u : Uuid)
  | string (s : Text)
  deriving DecidableEq, Repr

namespace Scalar

/-- A short name for the type of the literal. -/
def typeName : Scalar → Text
  | null => "null".toList
  | bool _ => "bool".toList
  | int _ => "int".toList
  | float _ => "float".toList
  | timestamp _ => "timestamp".toList
  | uuid _ => "uuid".toList
  | string _ => "string".toList

/-- Whether the literal is `NULL`. -/
def isNull : Scalar → Bool
  | null => true
  | _ => false

/-- A text between single quotes. -/
def quoted (s : Text) : Text := '\'' :: s ++ ['\'']

/-- The literal as it is shown. -/
def text : Scalar → Text
  | null => "NULL".toList
  | bool true => "true".toList
  | bool false => "false".toList
  | int n => Text.signedDecimal n
  | float x => x.plain
  | timestamp t => quoted t.text
  | uuid u => quoted u.text
  | string s => quoted s

end Scalar

/-- The right-hand side of a condition. -/
inductive Value where
  | scalar (s : Scalar)
  | list (items : List Scalar)
  deriving DecidableEq, Repr

namespace Value

/-- Whether the value is the one literal `NULL`. -/
def isNull : Value → Bool
  | scalar s => s.isNull
  | list _ => false

/-- The value as it is shown, a list between brackets. -/
def text : Value → Text
  | scalar s => s.text
  | list items => '[' :: ", ".toList.intercalate (items.map Scalar.text) ++ [']']

/-- The type shown beside a bound value. -/
def typeName : Value → Text
  | scalar s => s.typeName
  | list _ => "list".toList

end Value

end Sieve
