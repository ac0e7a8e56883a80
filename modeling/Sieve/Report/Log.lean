/-
# The log

Messages that go beside the output.  A message may quote what the user wrote, so the characters
that could steer a terminal are spelled out in it.  Which messages are shown is left to the
switches: the variable of the environment that would overrule them is taken to be unset, and the
time and the colours of a line are left out.
-/
import Sieve.Text.Basic

namespace Sieve

/-- A message, by its weight. Details of a message stand behind it as they are. -/
inductive LogEntry where
  | debug (message details : Text)
  | warning (message : Text)
  deriving DecidableEq, Repr

namespace LogEntry

/-- The hexadecimal digits of a number, in small letters. -/
def hexadecimal (n : Nat) : Text := Nat.toDigits 16 n

/-- A character of a message, spelled out if it could steer a terminal. -/
def escapeChar (c : Char) : Text :=
  if c = '\x1b' then "\\x1b".toList
  else if c = '\x07' then "\\x07".toList
  else if c = '\x08' then "\\x08".toList
  else if c = '\x0c' then "\\x0c".toList
  else if c = '\x7f' then "\\x7f".toList
  else if 0x80 ≤ c.toNat ∧ c.toNat ≤ 0x9f then
    "\\u".toList ++ '\x7b' :: hexadecimal c.toNat ++ ['\x7d']
  else [c]

/-- The line of the log. -/
def text : LogEntry → Text
  | debug message details =>
    "DEBUG ".toList ++ message.flatMap escapeChar ++ ' ' :: details ++ ['\n']
  | warning message => "WARN ".toList ++ message.flatMap escapeChar ++ ['\n']

/-- Whether the message is shown. -/
def isShown (verbose quiet : Bool) : LogEntry → Bool
  | debug .. => verbose
  | warning _ => verbose || !quiet

/-- The lines that are shown. -/
def shown (verbose quiet : Bool) (log : List LogEntry) : Text :=
  (log.filter (isShown verbose quiet)).flatMap text

end LogEntry

end Sieve
