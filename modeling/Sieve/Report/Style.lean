/-
# Colours

Reports may be coloured for a terminal.  A style is a pair of escape sequences around a text,
and every report takes a switch that turns all of them off, so that the plain report and the
coloured one are the same function.

The sequences are those of the library `owo-colors`, which shows a styled value as an escape
sequence, the text of the value and another escape sequence.  This is how `Style.paint` is defined,
and that nothing but the escape sequences is added is proved of it, as `Tinted.paint`.
-/
import Sieve.Text.Basic

namespace Sieve

/-- A way to set off a piece of a report. -/
inductive Style where
  | bold
  | dimmed
  | cyan
  | green
  | yellow
  | magenta
  deriving DecidableEq, Repr

namespace Style

/-- The escape sequence of a terminal for the given numbers. -/
def escape (numbers : Text) : Text := '\x1b' :: '[' :: numbers ++ ['m']

/-- The sequence that turns the style on. -/
def opening : Style → Text
  | bold => escape "1".toList
  | dimmed => escape "2".toList
  | cyan => escape "36".toList
  | green => escape "32".toList
  | yellow => escape "33".toList
  | magenta => escape "35".toList

/-- The sequence that turns the style off. -/
def closing : Style → Text
  | bold | dimmed => escape "0".toList
  | cyan | green | yellow | magenta => escape "39".toList

/-- The text in the style, or as it is with colours off. -/
def paint (style : Style) (colours : Bool) (s : Text) : Text :=
  if colours then style.opening ++ s ++ style.closing else s

@[simp] theorem paint_false (style : Style) (s : Text) : style.paint false s = s := rfl

end Style

namespace Report

/-- The text, or `(none)` for the empty one. -/
def orNone (s : Text) : Text := if s.isEmpty then "(none)".toList else s

end Report

end Sieve
