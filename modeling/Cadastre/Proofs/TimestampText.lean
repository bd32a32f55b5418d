/-
# The text of a timestamp is an ISO 8601 text

A text is tried by eight layouts in order, of different leniency, and the first that takes
it decides what it means. The text of a timestamp has no offset, so it passes the three
layouts with an offset, which come first: two of them read it to its end and miss the
offset there, and the third stops at the `T`, as the first does at a sign of the year. The
next layout takes the text apart into the parts that were written, with the leap second as
the second 60 (`Timestamp.parse?_text`).

With an offset after it, the text of a year of four digits is of the first layout, the
strict one of the internet, and the timestamp is read as so many minutes earlier
(`Timestamp.parse?_text_append`), which may be in the year before or after.

What the layouts share is how far they read: to read a front part of a text is to read it
in the presence of what follows (`Timestamp.readThrough`), and a fraction ends where
neither a digit nor a point follows.

Key definitions: `Timestamp.readThrough`, `Timestamp.Offset`.
Key theorems: `Timestamp.readThrough_lenientTime`, `Timestamp.readThrough_strict`,
`Timestamp.parse?_text`, `Timestamp.parse?_text_append`, `Timestamp.survivesAsText`.
-/
import Cadastre.Proofs.Calendar
import Cadastre.Proofs.RoundTrip.Timestamp

namespace Cadastre
namespace Timestamp

/-! ### Reading the front of a text -/

/-- Reads the items off the front of a text. -/
def readThrough : List Item → Parts → List Char → Option (Parts × List Char)
  | [], p, cs => some (p, cs)
  | i :: is, p, cs => (i.read p cs).bind fun r => readThrough is r.1 r.2

variable {is js : List Item} {p : Parts} {cs rest : List Char}

theorem readItems_append : readItems (is ++ js) p cs =
    (readThrough is p cs).bind fun r => readItems js r.1 r.2 := by
  induction is generalizing p cs with
  | nil => rfl
  | cons i is ih =>
    rw [List.cons_append, readItems, readThrough]
    cases i.read p cs with
    | none => rfl
    | some r => exact ih

theorem readThrough_append : readThrough (is ++ js) p cs =
    (readThrough is p cs).bind fun r => readThrough js r.1 r.2 := by
  induction is generalizing p cs with
  | nil => rfl
  | cons i is ih =>
    rw [List.cons_append, readThrough, readThrough]
    cases i.read p cs with
    | none => rfl
    | some r => exact ih

/-- Neither a digit nor a point stands in front, so a fraction ends here. -/
def EndsFraction (rest : List Char) : Prop := ∀ c ∈ rest.head?, c.isDigit = false ∧ c ≠ '.'

theorem readThrough_lenientDate (d : Date) (rest : List Char) :
    readThrough lenientDate {} (dateChars d ++ rest) =
      some ({ year := d.year, month := d.month, day := d.day }, rest) := by
  obtain ⟨hmonth, hday⟩ := date_lt d
  simp only [lenientDate, dash, dateChars, List.append_assoc, List.cons_append, readThrough,
    read_year, read_oneOf_self, Option.bind_some,
    read_lenient_padded (f := .month) (by decide) hmonth,
    read_lenient_padded (f := .day) (by decide) hday, Parts.set, Int.toNat_natCast]

theorem readThrough_lenientTime (t : TimeOfDay) (p : Parts) (hr : EndsFraction rest) :
    readThrough lenientTime p (timeChars t ++ rest) =
      some ({ p with
        hour := t.minute / 60
        minute := t.minute % 60
        second := writtenSecond t
        nano := writtenNano t }, rest) := by
  obtain ⟨hsecond, hnano⟩ := written_lt t
  have hminute := t.valid.1
  simp only [lenientTime, lenientMinute, colon, timeChars, secondChars_eq, List.append_assoc,
    List.cons_append, List.nil_append, readThrough, read_oneOf_self, Option.bind_some,
    read_lenient_padded (f := .hour) (by decide) (show t.minute / 60 < 100 by omega),
    read_lenient_padded (f := .minute) (by decide) (show t.minute % 60 < 100 by omega),
    read_lenient_padded (f := .second) (by decide) hsecond, read_fraction hnano _ hr, Parts.set,
    Int.toNat_natCast]

/-- A number of as many digits as it should have is read. -/
theorem readExactly_padded {w n : Nat} (h : n < 10 ^ (w + 1)) (rest : List Char) :
    Text.readExactly (w + 1) (Text.padded (w + 1) n ++ rest) = some (n, rest) := by
  have hl := Text.length_padded h
  have hd : (Text.padded (w + 1) n).takeWhile Char.isDigit = Text.padded (w + 1) n :=
    List.takeWhile_eq_self_iff.2 fun c hc => Text.isDigit_of_mem_padded hc
  unfold Text.readExactly
  rw [List.take_left' hl, hd, List.drop_left' hl]
  simp [hl, Text.digitsValue_padded]

theorem read_exact_padded {f : Field} {w n : Nat} (h : n < 10 ^ (w + 1)) (p : Parts)
    (rest : List Char) :
    (Item.exact f (w + 1)).read p (Text.padded (w + 1) n ++ rest) = some (p.set n f, rest) := by
  simp only [Item.read, readExactly_padded h, Option.map_some]

/-- The strict layout but for the offset. -/
def strictItems : List Item := internetLayout.dropLast

/-- A year of four digits is written in the strict form. -/
theorem readThrough_strict {ts : Timestamp} (hyear : 0 ≤ ts.date.year ∧ ts.date.year ≤ 9999)
    (hr : EndsFraction rest) :
    readThrough strictItems {} (dateChars ts.date ++ 'T' :: (timeChars ts.time ++ rest)) =
      some (writtenParts ts, rest) := by
  obtain ⟨hmonth, hday⟩ := date_lt ts.date
  obtain ⟨hsecond, hnano⟩ := written_lt ts.time
  have hminute := ts.time.valid.1
  have hnatAbs : ts.date.year.natAbs < 10 ^ (3 + 1) := by omega
  have hcast : (ts.date.year.natAbs : Int) = ts.date.year := by omega
  have hT : ∀ p cs, (Item.oneOf ['t', 'T', ' ']).read p ('T' :: cs) = some (p, cs) :=
    fun _ _ => rfl
  simp only [strictItems, internetLayout, dash, colon, List.dropLast, dateChars, yearChars,
    if_pos hyear, timeChars, secondChars_eq, List.append_assoc, List.cons_append, readThrough,
    read_exact_padded (f := .year) (w := 3) hnatAbs,
    read_exact_padded (f := .month) (w := 1) hmonth,
    read_exact_padded (f := .day) (w := 1) hday,
    read_exact_padded (f := .hour) (w := 1) (show ts.time.minute / 60 < 100 by omega),
    read_exact_padded (f := .minute) (w := 1) (show ts.time.minute % 60 < 100 by omega),
    read_exact_padded (f := .second) (w := 1) hsecond,
    read_oneOf_self, hT, read_fraction hnano _ hr, Option.bind_some, Parts.set, Int.toNat_natCast,
    hcast]
  rfl

/-! ### A text without offset -/

theorem endsFraction_nil : EndsFraction [] := by simp [EndsFraction]

theorem text_toList (ts : Timestamp) :
    ts.text.toList = dateChars ts.date ++ 'T' :: (timeChars ts.time ++ []) := by
  rw [text, String.toList_ofList, List.append_nil]

/-- The strict layout stops at the sign of a year, and misses an offset otherwise. -/
theorem readLayout_internet_text (ts : Timestamp) :
    readLayout internetLayout ts.text.toList = none := by
  rw [text_toList]
  by_cases hyear : 0 ≤ ts.date.year ∧ ts.date.year ≤ 9999
  · have hlayout : internetLayout = strictItems ++ [.strictOffset] := rfl
    rw [readLayout, hlayout, readItems_append, readThrough_strict hyear endsFraction_nil]
    rfl
  · have hsign : ∀ rest, (Item.exact .year 4).read {} (yearChars ts.date.year ++ rest) = none := by
      intro rest
      rw [yearChars, if_neg hyear]
      split <;> rfl
    simp only [readLayout, internetLayout, readItems, dateChars, List.append_assoc, hsign,
      Option.bind_none]

/-- A lenient layout with a `T` reads as far as the text goes. -/
theorem readItems_lenient (ts : Timestamp) (js : List Item) :
    readItems (lenientDate ++ [.oneOf ['T']] ++ lenientTime ++ js) {}
      (dateChars ts.date ++ 'T' :: (timeChars ts.time ++ [])) =
        readItems js (writtenParts ts) [] := by
  rw [readItems_append, readThrough_append, readThrough_append, readThrough_lenientDate]
  simp only [Option.bind_some, readThrough, read_oneOf_self,
    readThrough_lenientTime _ _ endsFraction_nil]
  rfl

/-- One without a `T` stops at it. -/
theorem readItems_lenient_blanks (ts : Timestamp) (js : List Item) :
    readItems (lenientDate ++ [.blanks] ++ lenientTime ++ js) {}
      (dateChars ts.date ++ 'T' :: (timeChars ts.time ++ [])) = none := by
  have hT : ∀ (p : Parts) cs, readThrough lenientTime p ('T' :: cs) = none := fun _ _ => rfl
  have hblanks : ∀ cs, Text.dropBlanks ('T' :: cs) = 'T' :: cs := fun _ =>
    Text.dropBlanks_eq_self (by decide)
  rw [readItems_append, readThrough_append, readThrough_append, readThrough_lenientDate]
  simp only [Option.bind_some, readThrough, read_blanks, hblanks, hT, Option.bind_none]

/-- The text of a timestamp is read as the timestamp. -/
theorem parse?_text (ts : Timestamp) : parse? ts.text = some ts := by
  have hoffset : readLayout (lenientDate ++ [.oneOf ['T']] ++ lenientTime ++ [.lenientOffset])
      ts.text.toList = none := by
    rw [text_toList, readLayout, readItems_lenient]
    rfl
  have hblanks : readLayout (lenientDate ++ [.blanks] ++ lenientTime ++ [.lenientOffset])
      ts.text.toList = none := by
    rw [text_toList, readLayout, readItems_lenient_blanks]
    rfl
  have hplain : readLayout (lenientDate ++ [.oneOf ['T']] ++ lenientTime) ts.text.toList =
      some ts := by
    have hread := readItems_lenient ts []
    rw [List.append_nil] at hread
    rw [text_toList, readLayout, hread]
    exact timestamp?_writtenParts ts
  simp only [parse?, isoLayouts, List.findSome?, readLayout_internet_text, hoffset, hblanks, hplain]

/-! ### A text with an offset -/

/-- An offset from UTC, shorter than a day. -/
structure Offset where
  /-- Whether the offset is taken off UTC. -/
  negative : Bool
  hours : Nat
  minutes : Nat
  valid : hours ≤ 23 ∧ minutes ≤ 59

namespace Offset

/-- The offset in minutes. -/
def total (o : Offset) : Int :=
  (if o.negative then -1 else 1) * ((o.hours : Int) * 60 + o.minutes)

def chars (o : Offset) : List Char :=
  (if o.negative then '-' else '+') :: (Text.padded 2 o.hours ++ ':' :: Text.padded 2 o.minutes)

/-- The offset as text: a sign, two digits, a colon and two digits. -/
def text (o : Offset) : String := String.ofList o.chars

theorem total_bounds (o : Offset) : -1440 < o.total ∧ o.total < 1440 := by
  obtain ⟨hhours, hminutes⟩ := o.valid
  unfold total
  split <;> omega

theorem endsFraction_chars (o : Offset) : EndsFraction o.chars := by
  intro c hc
  rw [← Option.some.inj hc]
  cases o.negative <;> decide

theorem readOffset_chars (o : Offset) : readOffset dropColon? o.chars = some (o.total, []) := by
  obtain ⟨hhours, hminutes⟩ := o.valid
  have hsign : readSign o.chars = some (if o.negative then -1 else 1,
      Text.padded 2 o.hours ++ ':' :: (Text.padded 2 o.minutes ++ [])) := by
    unfold chars
    rw [List.append_nil]
    cases o.negative <;> rfl
  have hday : o.hours < 24 ∧ o.minutes < 60 := by omega
  unfold readOffset
  simp only [hsign, readExactly_padded (w := 1) (show o.hours < 10 ^ (1 + 1) by omega),
    readExactly_padded (w := 1) (show o.minutes < 10 ^ (1 + 1) by omega), dropColon?,
    Option.bind_eq_bind, Option.bind_some, if_pos hday]
  rfl

/-- The strict layout reads the offset to its end. -/
theorem read_strictOffset (o : Offset) (p : Parts) :
    Item.strictOffset.read p o.chars = some ({ p with offset := o.total }, []) := by
  have hread : Item.strictOffset.read p o.chars =
      (readOffset dropColon? o.chars).map fun r => ({ p with offset := r.1 }, r.2) := by
    unfold chars
    cases o.negative <;> rfl
  rw [hread, readOffset_chars]
  rfl

end Offset

/-- A text of a year of four digits with an offset after it is read by the strict layout. -/
theorem readLayout_internet_append {ts : Timestamp}
    (hyear : 0 ≤ ts.date.year ∧ ts.date.year ≤ 9999) (o : Offset) :
    readLayout internetLayout (ts.text ++ o.text).toList = minusOffset? ts o.total := by
  have hlayout : internetLayout = strictItems ++ [.strictOffset] := rfl
  have hlist : (ts.text ++ o.text).toList =
      dateChars ts.date ++ 'T' :: (timeChars ts.time ++ o.chars) := by
    rw [String.toList_append, text, Offset.text, String.toList_ofList, String.toList_ofList,
      List.append_assoc, List.cons_append]
  rw [hlist, readLayout, hlayout, readItems_append, readThrough_strict hyear o.endsFraction_chars]
  simp only [Option.bind_some, readItems, o.read_strictOffset]
  exact timestamp?_offset ts o.total

/-- The offset is taken off. -/
theorem parse?_text_append {ts : Timestamp} (hyear : 0 ≤ ts.date.year ∧ ts.date.year ≤ 9999)
    (o : Offset) (u : Timestamp) :
    parse? (ts.text ++ o.text) = some u ↔ ts.IsMinus o.total u := by
  obtain ⟨hlow, hhigh⟩ := o.total_bounds
  obtain ⟨v, hv⟩ := exists_isMinus ts (by omega) (by omega) hlow hhigh
  have hminus := (minusOffset?_eq_some_iff hlow hhigh).2 hv
  have hparse : parse? (ts.text ++ o.text) = some v := by
    simp only [parse?, isoLayouts, List.findSome?, readLayout_internet_append hyear, hminus]
  rw [hparse, ← hminus, minusOffset?_eq_some_iff hlow hhigh]

/-- The text of a timestamp is read as the timestamp, and with an offset after it, in the
years of four digits, as the timestamp less the offset. -/
theorem survivesAsText (ts : Timestamp) :
    parse? ts.text = some ts ∧
      (0 ≤ ts.date.year ∧ ts.date.year ≤ 9999 → ∀ o : Offset,
        (∃ u, parse? (ts.text ++ o.text) = some u) ∧
          ∀ u, parse? (ts.text ++ o.text) = some u ↔ ts.IsMinus o.total u) := by
  refine ⟨parse?_text ts, fun hyear o => ⟨?_, parse?_text_append hyear o⟩⟩
  obtain ⟨hlow, hhigh⟩ := o.total_bounds
  obtain ⟨u, hu⟩ := exists_isMinus ts (by omega) (by omega) hlow hhigh
  exact ⟨u, (parse?_text_append hyear o u).2 hu⟩

end Timestamp

namespace Sample

/-- Half a second into the leap second that ends the year 9999. -/
def lastSecond : Timestamp := ⟨⟨9999, 12, 31, by decide⟩, ⟨1439, 59, 1500000000, by decide⟩⟩

/-- Five hours and a half behind UTC. -/
def behind : Timestamp.Offset := ⟨true, 5, 30, by decide⟩

end Sample

/-- In UTC the leap second lies in the year 10000. -/
theorem Sample.survivesAsText_lastSecond :
    Timestamp.parse? Sample.lastSecond.text = some Sample.lastSecond ∧
      (0 ≤ Sample.lastSecond.date.year ∧ Sample.lastSecond.date.year ≤ 9999) ∧
      (∃ u, Timestamp.parse? (Sample.lastSecond.text ++ Sample.behind.text) = some u) ∧
      ∀ u, Timestamp.parse? (Sample.lastSecond.text ++ Sample.behind.text) = some u ↔
        Sample.lastSecond.IsMinus Sample.behind.total u := by
  obtain ⟨htext, hoffset⟩ := Timestamp.survivesAsText Sample.lastSecond
  have hyear : 0 ≤ Sample.lastSecond.date.year ∧ Sample.lastSecond.date.year ≤ 9999 := by decide
  exact ⟨htext, hyear, hoffset hyear Sample.behind⟩

example : Timestamp.parse? "9999-12-31T23:59:60.500-05:30" =
    some ⟨⟨10000, 1, 1, by decide⟩, ⟨329, 59, 1500000000, by decide⟩⟩ := by
  decide +kernel

end Cadastre
