/-
# JSON values

The values of JSON as far as this library writes them.  Numbers are integers or floating-point
values; an infinite value and one that is no number have no JSON form and are written as null.
The fields of an object keep their order.
-/
import Sieve.Binary64.Basic
import Sieve.Text.Basic

namespace Sieve

/-- A JSON value. -/
inductive Json where
  | null
  | bool (b : Bool)
  | int (n : Int)
  | float (x : Binary64)
  | string (s : Text)
  | array (items : List Json)
  | object (fields : List (Text × Json))
  deriving Repr

namespace Json

/-- The value, or null if there is none. -/
def ofOption {α : Type} (f : α → Json) : Option α → Json
  | none => null
  | some a => f a

/-- An array of texts. -/
def texts (items : List Text) : Json := array (items.map string)

/-- The field, if there is a value for it. -/
def field? {α : Type} (name : Text) (f : α → Json) : Option α → List (Text × Json)
  | none => []
  | some a => [(name, f a)]

end Json

end Sieve
