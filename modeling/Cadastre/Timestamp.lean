/-
# Timestamps

A timestamp is a date of the Gregorian calendar, extended in both directions to
the years -262143 to 262142, and a time of day in nanoseconds. A leap second is
the second 59 of a minute with one second more of nanoseconds. There is no time
zone: an offset from UTC is taken off when a text is read.

Key definitions: `Date`, `TimeOfDay`, `Timestamp`, `Timestamp.minusOffset?`,
`Timestamp.text`.
-/
import Cadastre.Power
import Cadastre.Text.Digits

namespace Cadastre

/-- A year of 366 days. -/
def isLeapYear (year : Int) : Bool :=
  year % 4 == 0 && (year % 100 != 0 || year % 400 == 0)

/-- The number of days of a month. -/
def daysInMonth (year : Int) : Nat → Nat
  | 2 => if isLeapYear year then 29 else 28
  | 4 | 6 | 9 | 11 => 30
  | _ => 31

/-- The dates that can be represented. -/
def Date.Valid (year : Int) (month day : Nat) : Prop :=
  -262143 ≤ year ∧ year ≤ 262142 ∧ 1 ≤ month ∧ month ≤ 12 ∧ 1 ≤ day ∧ day ≤ daysInMonth year month

instance (year : Int) (month day : Nat) : Decidable (Date.Valid year month day) :=
  inferInstanceAs (Decidable (_ ∧ _))

/-- A day of the calendar. -/
structure Date where
  year : Int
  month : Nat
  day : Nat
  valid : Date.Valid year month day
  deriving DecidableEq, Repr

namespace Date

/-- The date with the given year, month and day, if there is one. -/
def ofFields? (year : Int) (month day : Nat) : Option Date :=
  if h : Valid year month day then some ⟨year, month, day, h⟩ else none

/-- The day after. -/
def next? (d : Date) : Option Date :=
  if d.day < daysInMonth d.year d.month then ofFields? d.year d.month (d.day + 1)
  else if d.month < 12 then ofFields? d.year (d.month + 1) 1
  else ofFields? (d.year + 1) 1 1

/-- The day before. -/
def previous? (d : Date) : Option Date :=
  if 1 < d.day then ofFields? d.year d.month (d.day - 1)
  else if 1 < d.month then
    ofFields? d.year (d.month - 1) (daysInMonth d.year (d.month - 1))
  else ofFields? (d.year - 1) 12 31

theorem ofFields?_self (d : Date) : ofFields? d.year d.month d.day = some d := by
  simp [ofFields?, d.valid]

end Date

/-- The times that can be represented. -/
def TimeOfDay.Valid (minute second nano : Nat) : Prop :=
  minute < 1440 ∧ second < 60 ∧ (nano < 10 ^ 9 ∨ (second = 59 ∧ nano < 2 * 10 ^ 9))

instance (minute second nano : Nat) : Decidable (TimeOfDay.Valid minute second nano) :=
  inferInstanceAs (Decidable (_ ∧ _))

/-- A time of day: the minute of the day, the second of the minute and the
nanoseconds, a whole second more of them in a leap second. -/
structure TimeOfDay where
  minute : Nat
  second : Nat
  nano : Nat
  valid : TimeOfDay.Valid minute second nano
  deriving DecidableEq, Repr

namespace TimeOfDay

def ofFields? (minute second nano : Nat) : Option TimeOfDay :=
  if h : Valid minute second nano then some ⟨minute, second, nano, h⟩ else none

theorem ofFields?_self (t : TimeOfDay) : ofFields? t.minute t.second t.nano = some t := by
  simp [ofFields?, t.valid]

end TimeOfDay

/-- A date and a time of day. -/
structure Timestamp where
  date : Date
  time : TimeOfDay
  deriving DecidableEq, Repr

namespace Timestamp

/-- The timestamp less `offset` minutes, where it can be represented; the
offset is shorter than a day. -/
def minusOffset? (ts : Timestamp) (offset : Int) : Option Timestamp :=
  let m := (ts.time.minute : Int) - offset
  let date := if m < 0 then ts.date.previous? else if m < 1440 then some ts.date else ts.date.next?
  match date, TimeOfDay.ofFields? (m % 1440).toNat ts.time.second ts.time.nano with
  | some d, some t => some ⟨d, t⟩
  | _, _ => none

/-! ### Text -/

/-- A year: four digits, or a sign and at least four digits outside 0 to 9999. -/
def yearChars (year : Int) : List Char :=
  if 0 ≤ year ∧ year ≤ 9999 then Text.padded 4 year.natAbs
  else (if year < 0 then '-' else '+') :: Text.padded 4 year.natAbs

/-- A fraction of a second in 0, 3, 6 or 9 digits, the fewest that are exact. -/
def fractionChars (nano : Nat) : List Char :=
  if nano = 0 then []
  else if nano % 1000000 = 0 then '.' :: Text.padded 3 (nano / 1000000)
  else if nano % 1000 = 0 then '.' :: Text.padded 6 (nano / 1000)
  else '.' :: Text.padded 9 nano

/-- The seconds of a time; a leap second is the second 60. -/
def secondChars (t : TimeOfDay) : List Char :=
  if t.nano < 10 ^ 9 then Text.padded 2 t.second ++ fractionChars t.nano
  else Text.padded 2 (t.second + 1) ++ fractionChars (t.nano - 10 ^ 9)

/-- The characters of a date. -/
def dateChars (d : Date) : List Char :=
  yearChars d.year ++ '-' :: Text.padded 2 d.month ++ '-' :: Text.padded 2 d.day

/-- The characters of a time of day. -/
def timeChars (t : TimeOfDay) : List Char :=
  Text.padded 2 (t.minute / 60) ++ ':' :: Text.padded 2 (t.minute % 60) ++ ':' :: secondChars t

/-- The timestamp as text. -/
def text (ts : Timestamp) : String :=
  String.ofList (dateChars ts.date ++ 'T' :: timeChars ts.time)

end Timestamp
end Cadastre
