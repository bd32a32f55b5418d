/-
# Reading timestamps

A text is read by a layout, a list of items that each take characters off its
front; nothing may remain. `Timestamp.parse?` tries the layouts of ISO 8601 in
order: the strict form of the internet with its offset, the lenient forms with
an offset, the lenient forms without one, and the date alone. A lenient number
may have blanks in front and fewer digits, and a lenient offset blanks and
colons inside. `Timestamp.ofRecord?` reads the text in which a stored timestamp
is written.

Key definitions: `Timestamp.Item`, `Timestamp.readLayout`, `Timestamp.parse?`,
`Timestamp.ofRecord?`.
-/
import Cadastre.Text.Blank
import Cadastre.Timestamp

namespace Cadastre
namespace Timestamp

/-- The numbers of a date and time. -/
inductive Field where
  | year
  | month
  | day
  | hour
  | minute
  | second
  deriving DecidableEq, Repr

/-- A step of reading a text. -/
inductive Item where
  /-- A number with blanks in front; a year may have a sign and any length. -/
  | lenient (f : Field)
  /-- A number of exactly `count` digits. -/
  | exact (f : Field) (count : Nat)
  /-- One of the given characters. -/
  | oneOf (cs : List Char)
  | blanks
  /-- A point and digits, or nothing; digits after the ninth are dropped. -/
  | fraction
  | lenientOffset
  /-- A `Z`, or a sign, two digits, a colon and two digits. -/
  | strictOffset
  deriving DecidableEq, Repr

/-- What has been read of a text. The offset is in minutes. -/
structure Parts where
  year : Int := 0
  month : Nat := 0
  day : Nat := 0
  hour : Nat := 0
  minute : Nat := 0
  second : Nat := 0
  nano : Nat := 0
  offset : Int := 0
  deriving DecidableEq, Repr

/-- The parts with a field set. -/
def Parts.set (p : Parts) (n : Int) : Field → Parts
  | .year => { p with year := n }
  | .month => { p with month := n.toNat }
  | .day => { p with day := n.toNat }
  | .hour => { p with hour := n.toNat }
  | .minute => { p with minute := n.toNat }
  | .second => { p with second := n.toNat }

/-- The timestamp of the parts: second 60 is a leap second, and the offset is
taken off. -/
def Parts.timestamp? (p : Parts) : Option Timestamp :=
  if p.hour < 24 ∧ p.minute < 60 ∧ p.second ≤ 60 ∧ p.nano < 10 ^ 9 then
    let second := if p.second = 60 then 59 else p.second
    let nano := if p.second = 60 then 10 ^ 9 + p.nano else p.nano
    match Date.ofFields? p.year p.month p.day,
        TimeOfDay.ofFields? (p.hour * 60 + p.minute) second nano with
    | some d, some t => minusOffset? ⟨d, t⟩ p.offset
    | _, _ => none
  else none

/-- Reads a number that is not strict about its length. -/
def readLenient : Field → List Char → Option (Int × List Char)
  | .year, '-' :: cs => (Text.readAny cs).map fun (n, rest) => (-(n : Int), rest)
  | .year, '+' :: cs => (Text.readAny cs).map fun (n, rest) => ((n : Int), rest)
  | .year, cs => (Text.readUpTo 4 cs).map fun (n, rest) => ((n : Int), rest)
  | _, cs => (Text.readUpTo 2 cs).map fun (n, rest) => ((n : Int), rest)

/-- Reads the digits of a fraction, scaled to nanoseconds. -/
def readFraction : List Char → Option (Nat × List Char)
  | '.' :: cs =>
    match (cs.take 9).takeWhile Char.isDigit with
    | [] => none
    | ds => some (Text.digitsValue ds * 10 ^ (9 - ds.length), cs.dropWhile Char.isDigit)
  | cs => some (0, cs)

/-- The sign of an offset; the minus sign of typography counts. -/
def readSign : List Char → Option (Int × List Char)
  | '+' :: cs => some (1, cs)
  | '-' :: cs => some (-1, cs)
  | '−' :: cs => some (-1, cs)
  | _ => none

/-- The text after the blanks and colons it starts with. -/
def dropSeparators (cs : List Char) : List Char :=
  cs.dropWhile fun c => c == ':' || Text.isBlank c

/-- The text after exactly one colon. -/
def dropColon? : List Char → Option (List Char)
  | ':' :: cs => some cs
  | _ => none

/-- Reads a sign, two digits of hours, what `separator` takes, and two digits of
minutes. An offset is shorter than a day. -/
def readOffset (separator : List Char → Option (List Char)) (cs : List Char) :
    Option (Int × List Char) := do
  let (sign, cs) ← readSign cs
  let (hours, cs) ← Text.readExactly 2 cs
  let cs ← separator cs
  let (minutes, cs) ← Text.readExactly 2 cs
  if hours < 24 ∧ minutes < 60 then some (sign * ((hours : Int) * 60 + minutes), cs) else none

/-- Reads an item. -/
def Item.read (p : Parts) : Item → List Char → Option (Parts × List Char)
  | .lenient f, cs => (readLenient f (Text.dropBlanks cs)).map fun (n, rest) => (p.set n f, rest)
  | .exact f count, cs =>
    (Text.readExactly count cs).map fun (n, rest) => (p.set n f, rest)
  | .oneOf expected, c :: cs => if expected.contains c then some (p, cs) else none
  | .oneOf _, [] => none
  | .blanks, cs => some (p, Text.dropBlanks cs)
  | .fraction, cs => (readFraction cs).map fun (n, rest) => ({ p with nano := n }, rest)
  | .lenientOffset, cs =>
    (readOffset (fun cs => some (dropSeparators cs)) (Text.dropBlanks cs)).map
      fun (n, rest) => ({ p with offset := n }, rest)
  | .strictOffset, 'Z' :: cs => some (p, cs)
  | .strictOffset, 'z' :: cs => some (p, cs)
  | .strictOffset, cs =>
    (readOffset dropColon? cs).map fun (n, rest) => ({ p with offset := n }, rest)

/-- Reads a whole text by a layout. -/
def readItems : List Item → Parts → List Char → Option Parts
  | [], p, [] => some p
  | [], _, _ :: _ => none
  | i :: is, p, cs =>
    match i.read p cs with
    | some (p, rest) => readItems is p rest
    | none => none

/-- The timestamp of a text in a layout. -/
def readLayout (layout : List Item) (cs : List Char) : Option Timestamp :=
  (readItems layout {} cs).bind Parts.timestamp?

/-! ### Layouts -/

def dash : Item := .oneOf ['-']

def colon : Item := .oneOf [':']

def lenientDate : List Item := [.lenient .year, dash, .lenient .month, dash, .lenient .day]

def lenientMinute : List Item := [.lenient .hour, colon, .lenient .minute]

def lenientTime : List Item := lenientMinute ++ [colon, .lenient .second, .fraction]

/-- The strict form, with an offset. -/
def internetLayout : List Item :=
  [.exact .year 4, dash, .exact .month 2, dash, .exact .day 2, .oneOf ['t', 'T', ' '],
    .exact .hour 2, colon, .exact .minute 2, colon, .exact .second 2, .fraction, .strictOffset]

/-- The layouts of ISO 8601, in the order in which they are tried. -/
def isoLayouts : List (List Item) :=
  [internetLayout,
    lenientDate ++ [.oneOf ['T']] ++ lenientTime ++ [.lenientOffset],
    lenientDate ++ [.blanks] ++ lenientTime ++ [.lenientOffset],
    lenientDate ++ [.oneOf ['T']] ++ lenientTime,
    lenientDate ++ [.blanks] ++ lenientTime,
    lenientDate ++ [.oneOf ['T']] ++ lenientMinute,
    lenientDate ++ [.blanks] ++ lenientMinute,
    lenientDate]

/-- The layout of a stored timestamp; blanks may stand between its items. -/
def recordLayout : List Item :=
  [.lenient .year, .blanks, dash, .lenient .month, .blanks, dash, .lenient .day, .blanks,
    .oneOf ['T'], .lenient .hour, .blanks, colon, .lenient .minute, .blanks, colon,
    .lenient .second, .fraction, .blanks]

/-- The timestamp that a text of ISO 8601 writes, normalised to UTC. -/
def parse? (s : String) : Option Timestamp := isoLayouts.findSome? fun l => readLayout l s.toList

/-- The timestamp that a stored text writes. -/
def ofRecord? (s : String) : Option Timestamp := readLayout recordLayout s.toList

end Timestamp
end Cadastre
