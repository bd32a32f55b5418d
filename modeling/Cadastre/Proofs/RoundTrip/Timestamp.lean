/-
# Timestamps are read back from their text

A stored timestamp is its text. The numbers of the text are padded to the
widths that the reader takes at once, so every item of the layout ends where
the next one begins (`readUpTo_padded`, `readAny_append`), and the parts that
are read are those of the timestamp: second 60 is read as the leap second that
it was written for, and the offset is zero.

Key theorems: `Text.length_padded`, `Text.readUpTo_padded`,
`Timestamp.readItems_record`, `Timestamp.ofRecord?_text`.
-/
import Cadastre.Timestamp.Reader
import Mathlib.Data.List.TakeWhile

namespace Cadastre
namespace Text

/-! ### Numbers of a fixed width -/

theorem length_decimal_le {n : Nat} :
    ∀ {w : Nat}, n < 10 ^ (w + 1) → (decimal n).length ≤ w + 1 := by
  fun_induction decimal n with
  | case1 n h => intro w _; simp
  | case2 n h ih =>
    intro w hn
    cases w with
    | zero => omega
    | succ w =>
      have hd : n / 10 < 10 ^ (w + 1) := by
        rw [Nat.div_lt_iff_lt_mul (by decide)]
        rwa [Nat.pow_succ] at hn
      have := ih hd
      simp only [List.length_append, List.length_singleton]
      omega

/-- A number that fits is padded to the width. -/
theorem length_padded {w n : Nat} (h : n < 10 ^ (w + 1)) : (padded (w + 1) n).length = w + 1 := by
  have := length_decimal_le h
  simp only [padded, List.length_append, List.length_replicate]
  omega

theorem takeWhile_digits {ds rest : List Char} (hd : ∀ c ∈ ds, c.isDigit = true)
    (hr : ∀ c ∈ rest.head?, c.isDigit = false) : (ds ++ rest).takeWhile Char.isDigit = ds := by
  rw [List.takeWhile_append_of_pos hd]
  cases rest with
  | nil => simp
  | cons c rest => simp [hr c rfl]

theorem dropWhile_digits {ds rest : List Char} (hd : ∀ c ∈ ds, c.isDigit = true)
    (hr : ∀ c ∈ rest.head?, c.isDigit = false) : (ds ++ rest).dropWhile Char.isDigit = rest := by
  rw [List.dropWhile_append_of_pos hd]
  cases rest with
  | nil => simp
  | cons c rest => simp [hr c rfl]

/-- As many digits as the reader takes are read, whatever follows. -/
theorem readUpTo_padded {w n : Nat} (h : n < 10 ^ (w + 1)) (rest : List Char) :
    readUpTo (w + 1) (padded (w + 1) n ++ rest) = some (n, rest) := by
  have hl := length_padded h
  have ht : (padded (w + 1) n ++ rest).take (w + 1) = padded (w + 1) n := List.take_left' hl
  have hw : (padded (w + 1) n).takeWhile Char.isDigit = padded (w + 1) n :=
    List.takeWhile_eq_self_iff.2 fun c hc => isDigit_of_mem_padded hc
  rw [readUpTo, ht, hw]
  cases hp : padded (w + 1) n with
  | nil => rw [hp] at hl; simp at hl
  | cons d ds =>
    simp only [← hp, hl, digitsValue_padded, List.drop_left' hl]

/-- All digits are read up to the first character that is none. -/
theorem readAny_append {ds rest : List Char} (hd : ∀ c ∈ ds, c.isDigit = true) (hne : ds ≠ [])
    (hr : ∀ c ∈ rest.head?, c.isDigit = false) :
    readAny (ds ++ rest) = some (digitsValue ds, rest) := by
  rw [readAny, takeWhile_digits hd hr, dropWhile_digits hd hr]
  cases ds with
  | nil => exact absurd rfl hne
  | cons d ds => rfl

theorem isBlank_of_isDigit {c : Char} (h : c.isDigit = true) : isBlank c = false := by
  simp only [Char.isDigit, Bool.and_eq_true, decide_eq_true_eq] at h
  have h1 : 48 ≤ c.toNat := h.1
  have h2 : c.toNat ≤ 57 := h.2
  simp only [isBlank, Bool.or_eq_false_iff, Bool.and_eq_false_iff, decide_eq_false_iff_not,
    beq_eq_false_iff_ne]
  omega

theorem exists_digit_padded {w n : Nat} (h : n < 10 ^ (w + 1)) :
    ∃ d ds, padded (w + 1) n = d :: ds ∧ d.isDigit = true := by
  have hl := length_padded h
  cases hp : padded (w + 1) n with
  | nil => rw [hp] at hl; simp at hl
  | cons d ds =>
    have hmem : d ∈ padded (w + 1) n := hp ▸ List.mem_cons_self
    exact ⟨d, ds, rfl, isDigit_of_mem_padded hmem⟩

theorem dropBlanks_padded {w n : Nat} (h : n < 10 ^ (w + 1)) (rest : List Char) :
    dropBlanks (padded (w + 1) n ++ rest) = padded (w + 1) n ++ rest := by
  obtain ⟨d, ds, hp, hd⟩ := exists_digit_padded h
  rw [hp, List.cons_append, dropBlanks_eq_self (isBlank_of_isDigit hd)]

end Text

namespace Timestamp

/-! ### The items of the layout -/

/-- A field of two digits, the year apart, is read up to what follows. -/
theorem read_lenient_padded {f : Field} (hf : f ≠ .year) {n : Nat} (h : n < 100) (p : Parts)
    (rest : List Char) :
    (Item.lenient f).read p (Text.padded 2 n ++ rest) = some (p.set n f, rest) := by
  have hr := Text.readUpTo_padded (w := 1) h rest
  have hb := Text.dropBlanks_padded (w := 1) h rest
  cases f with
  | year => exact absurd rfl hf
  | _ => simp only [Item.read, hb, readLenient, hr, Option.map_some]

theorem readLenient_year_of_isDigit {c : Char} (h : c.isDigit = true) (cs : List Char) :
    readLenient .year (c :: cs) =
      (Text.readUpTo 4 (c :: cs)).map fun (n, rest) => ((n : Int), rest) := by
  unfold readLenient
  split
  · rename_i heq
    cases heq
    exact absurd h (by decide)
  · rename_i heq
    cases heq
    exact absurd h (by decide)
  · rfl
  · simp_all

/-- The year is read up to the hyphen, with its sign and in its whole length. -/
theorem read_year {y : Int} (p : Parts) (rest : List Char) :
    (Item.lenient .year).read p (yearChars y ++ '-' :: rest) =
      some ({ p with year := y }, '-' :: rest) := by
  have hdigits : ∀ c ∈ Text.padded 4 y.natAbs, c.isDigit = true := fun c hc =>
    Text.isDigit_of_mem_padded hc
  have hne : Text.padded 4 y.natAbs ≠ [] := by
    intro h
    have hl : 0 < (Text.decimal y.natAbs).length := by
      fun_induction Text.decimal y.natAbs <;> simp
    have hp := congrArg List.length h
    simp only [Text.padded, List.length_append, List.length_replicate, List.length_nil] at hp
    omega
  have hend : ∀ c ∈ ('-' :: rest).head?, c.isDigit = false := by simp
  have hany := Text.readAny_append hdigits hne hend
  rw [Text.digitsValue_padded] at hany
  unfold yearChars
  split
  · rename_i hy
    have hlt : y.natAbs < 10 ^ (3 + 1) := by omega
    obtain ⟨d, ds, hp, hd⟩ := Text.exists_digit_padded hlt
    have hup := Text.readUpTo_padded hlt ('-' :: rest)
    simp only [Item.read, Text.dropBlanks_padded hlt]
    rw [hp] at hup ⊢
    rw [List.cons_append] at hup ⊢
    rw [readLenient_year_of_isDigit hd, hup]
    simp only [Option.map_some, Parts.set]
    congr 3
    omega
  · rename_i hy
    split
    · rename_i hneg
      have hb : Text.dropBlanks ('-' :: (Text.padded 4 y.natAbs ++ '-' :: rest)) =
          '-' :: (Text.padded 4 y.natAbs ++ '-' :: rest) := Text.dropBlanks_eq_self (by decide)
      simp only [Item.read, List.cons_append, hb, readLenient, hany, Option.map_some, Parts.set]
      congr 3
      omega
    · rename_i hpos
      have hb : Text.dropBlanks ('+' :: (Text.padded 4 y.natAbs ++ '-' :: rest)) =
          '+' :: (Text.padded 4 y.natAbs ++ '-' :: rest) := Text.dropBlanks_eq_self (by decide)
      simp only [Item.read, List.cons_append, hb, readLenient, hany, Option.map_some, Parts.set]
      congr 3
      omega

/-- A fraction is read in as many digits as it was written. -/
theorem readFraction_point {w n : Nat} (hw : w + 1 ≤ 9) (h : n < 10 ^ (w + 1)) {rest : List Char}
    (hr : ∀ c ∈ rest.head?, c.isDigit = false) :
    readFraction ('.' :: (Text.padded (w + 1) n ++ rest)) =
      some (n * 10 ^ (9 - (w + 1)), rest) := by
  have hl := Text.length_padded h
  have hd : ∀ c ∈ Text.padded (w + 1) n, c.isDigit = true := fun c hc =>
    Text.isDigit_of_mem_padded hc
  have ht : (Text.padded (w + 1) n ++ rest).take 9 =
      Text.padded (w + 1) n ++ rest.take (9 - (w + 1)) := by
    rw [List.take_append, hl, List.take_of_length_le (by omega)]
  have hr' : ∀ c ∈ (rest.take (9 - (w + 1))).head?, c.isDigit = false := by
    intro c hc
    rw [List.head?_take] at hc
    split at hc
    · cases hc
    · exact hr c hc
  obtain ⟨d, ds, hp, -⟩ := Text.exists_digit_padded h
  rw [readFraction, ht, Text.takeWhile_digits hd hr', Text.dropWhile_digits hd hr, hp]
  simp only [← hp, Text.digitsValue_padded, hl]

/-- A fraction is read up to what follows, unless this could be part of it. -/
theorem readFraction_fractionChars {n : Nat} (h : n < 10 ^ 9) {rest : List Char}
    (hr : ∀ c ∈ rest.head?, c.isDigit = false ∧ c ≠ '.') :
    readFraction (fractionChars n ++ rest) = some (n, rest) := by
  have hdigit : ∀ c ∈ rest.head?, c.isDigit = false := fun c hc => (hr c hc).1
  unfold fractionChars
  split
  · rename_i h0
    subst h0
    rw [List.nil_append]
    unfold readFraction
    split
    · exact absurd rfl (hr '.' rfl).2
    · rfl
  · split
    · rename_i h6
      rw [List.cons_append, readFraction_point (w := 2) (by omega) (by omega) hdigit]
      congr 2
      omega
    · split
      · rename_i h3
        rw [List.cons_append, readFraction_point (w := 5) (by omega) (by omega) hdigit]
        congr 2
        omega
      · rw [List.cons_append, readFraction_point (w := 8) (by omega) h hdigit]
        congr 2
        omega

/-- The second that is written: a leap second is the second 60. -/
def writtenSecond (t : TimeOfDay) : Nat := if t.nano < 10 ^ 9 then t.second else t.second + 1

/-- The nanoseconds that are written. -/
def writtenNano (t : TimeOfDay) : Nat := if t.nano < 10 ^ 9 then t.nano else t.nano - 10 ^ 9

theorem secondChars_eq (t : TimeOfDay) :
    secondChars t = Text.padded 2 (writtenSecond t) ++ fractionChars (writtenNano t) := by
  unfold secondChars writtenSecond writtenNano
  split <;> rfl

/-- What is read of the text of a timestamp. -/
def writtenParts (ts : Timestamp) : Parts where
  year := ts.date.year
  month := ts.date.month
  day := ts.date.day
  hour := ts.time.minute / 60
  minute := ts.time.minute % 60
  second := writtenSecond ts.time
  nano := writtenNano ts.time

theorem read_blanks (p : Parts) (cs : List Char) :
    Item.blanks.read p cs = some (p, Text.dropBlanks cs) := rfl

theorem read_oneOf_self (p : Parts) (c : Char) (cs : List Char) :
    (Item.oneOf [c]).read p (c :: cs) = some (p, cs) := by
  simp [Item.read]

theorem read_fraction {n : Nat} (h : n < 10 ^ 9) (p : Parts) {rest : List Char}
    (hr : ∀ c ∈ rest.head?, c.isDigit = false ∧ c ≠ '.') :
    Item.fraction.read p (fractionChars n ++ rest) = some ({ p with nano := n }, rest) := by
  simp only [Item.read, readFraction_fractionChars h hr, Option.map_some]

/-- A field is read up to the character after it, and that character too. -/
theorem readItems_field {f : Field} {p q : Parts} {ds rest : List Char} {c : Char}
    (is : List Item) (hc : Text.isBlank c = false)
    (hf : (Item.lenient f).read p (ds ++ c :: rest) = some (q, c :: rest)) :
    readItems (.lenient f :: .blanks :: .oneOf [c] :: is) p (ds ++ c :: rest) =
      readItems is q rest := by
  simp only [readItems, hf, read_blanks, Text.dropBlanks_eq_self hc, read_oneOf_self]

theorem date_lt (d : Date) : d.month < 100 ∧ d.day < 100 := by
  obtain ⟨_, _, _, hmonth, _, hday⟩ := d.valid
  unfold daysInMonth at hday
  repeat' split at hday
  all_goals omega

theorem written_lt (t : TimeOfDay) : writtenSecond t < 100 ∧ writtenNano t < 10 ^ 9 := by
  obtain ⟨_, hs, hn⟩ := t.valid
  unfold writtenSecond writtenNano
  split <;> omega

/-- The layout takes the text apart into the parts that were written. -/
theorem readItems_record (ts : Timestamp) :
    readItems recordLayout {} (dateChars ts.date ++ 'T' :: timeChars ts.time) =
      some (writtenParts ts) := by
  obtain ⟨hmonth, hday⟩ := date_lt ts.date
  obtain ⟨hsecond, hnano⟩ := written_lt ts.time
  have hminute := ts.time.valid.1
  have hfraction : ∀ p, Item.fraction.read p (fractionChars (writtenNano ts.time)) =
      some ({ p with nano := writtenNano ts.time }, []) := by
    intro p
    have hend : ∀ c ∈ ([] : List Char).head?, c.isDigit = false ∧ c ≠ '.' := by simp
    simpa using read_fraction hnano p hend
  simp only [recordLayout, dash, colon, dateChars, timeChars, secondChars_eq, List.append_assoc,
    List.cons_append]
  rw [readItems_field _ (by decide) (read_year _ _),
    readItems_field _ (by decide) (read_lenient_padded (by decide) hmonth _ _),
    readItems_field _ (by decide) (read_lenient_padded (by decide) hday _ _),
    readItems_field _ (by decide) (read_lenient_padded (by decide) (by omega) _ _),
    readItems_field _ (by decide) (read_lenient_padded (by decide) (by omega) _ _)]
  simp only [readItems, read_lenient_padded (f := .second) (by decide) hsecond, hfraction,
    read_blanks, Parts.set, Int.toNat_natCast]
  rfl

/-! ### The timestamp -/

theorem minusOffset?_zero (ts : Timestamp) : minusOffset? ts 0 = some ts := by
  have hm := ts.time.valid.1
  have h0 : ¬ ((ts.time.minute : Int) < 0) := by omega
  have h1 : (ts.time.minute : Int) < 1440 := by omega
  have h2 : ((ts.time.minute : Int) % 1440).toNat = ts.time.minute := by omega
  simp only [minusOffset?, Int.sub_zero, h0, h1, h2, if_false, if_true, TimeOfDay.ofFields?_self]

/-- The parts that were written are those of the timestamp, before the offset is taken
off. -/
theorem timestamp?_offset (ts : Timestamp) (offset : Int) :
    ({ writtenParts ts with offset := offset } : Parts).timestamp? = minusOffset? ts offset := by
  obtain ⟨hm, hs, hn⟩ := ts.time.valid
  have hminute : ts.time.minute / 60 * 60 + ts.time.minute % 60 = ts.time.minute := by omega
  unfold Parts.timestamp? writtenParts writtenSecond writtenNano
  by_cases hl : ts.time.nano < 10 ^ 9
  · have h60 : ts.time.second ≠ 60 := by omega
    have hall : ts.time.minute / 60 < 24 ∧ ts.time.minute % 60 < 60 ∧ ts.time.second ≤ 60 ∧
        ts.time.nano < 10 ^ 9 := by omega
    simp only [hl, if_true, hall, h60, if_false, hminute, Date.ofFields?_self,
      TimeOfDay.ofFields?_self]
    simp
  · -- a leap second is written as the second 60
    obtain ⟨hs59, hn2⟩ := hn.resolve_left hl
    have hsum : 10 ^ 9 + (ts.time.nano - 10 ^ 9) = ts.time.nano := by omega
    have hall : ts.time.minute / 60 < 24 ∧ ts.time.minute % 60 < 60 ∧ ts.time.second + 1 ≤ 60 ∧
        ts.time.nano - 10 ^ 9 < 10 ^ 9 := by omega
    have h60 : ts.time.second + 1 = 60 := by omega
    have htime : TimeOfDay.ofFields? ts.time.minute 59 ts.time.nano = some ts.time := by
      rw [← hs59]
      exact TimeOfDay.ofFields?_self ts.time
    simp only [hl, if_false, hall, h60, if_true, hminute, hsum, Date.ofFields?_self, htime]
    simp

theorem timestamp?_writtenParts (ts : Timestamp) : (writtenParts ts).timestamp? = some ts := by
  rw [← minusOffset?_zero ts, ← timestamp?_offset ts 0]
  rfl

/-- A stored timestamp is read back. -/
theorem ofRecord?_text (ts : Timestamp) : ofRecord? ts.text = some ts := by
  rw [ofRecord?, text, String.toList_ofList, readLayout, readItems_record, Option.bind_some,
    timestamp?_writtenParts]

end Timestamp
end Cadastre
