/-
# Counting days and minutes

The calendar is defined by its fields: how many days a month has, which date is the next
and which the one before. Here the days are counted. A date has a number, made up of the
days of the years, of the months and of the month before it, and the number tells dates
apart (`Date.number_injective`). The next date has the number after, and a date has a next
one unless it is the last (`Date.next?_eq_some_iff`).

To take an offset off a timestamp is to go back by so many minutes and keep the second
(`Timestamp.IsMinus`), across days, months and years, as long as the dates go
(`Timestamp.minusOffset?_eq_some_iff`); only the first year and the last end too early for
it (`Timestamp.exists_isMinus`).

Key definitions: `daysBeforeYear`, `daysThroughMonth`, `Date.number`,
`Timestamp.minutes`, `Timestamp.IsMinus`.
Key theorems: `daysBeforeYear_succ`, `Date.number_injective`, `Date.next?_eq_some_iff`,
`Date.previous?_eq_some_iff`, `Timestamp.exists_isMinus`,
`Timestamp.minusOffset?_eq_some_iff`.
-/
import Cadastre.Timestamp

namespace Cadastre

/-! ### Days of years and months -/

/-- The number of days of the months up to the given one. -/
def daysThroughMonth (year : Int) : Nat → Nat
  | 0 => 0
  | m + 1 => daysThroughMonth year m + daysInMonth year (m + 1)

/-- The number of days from the first of the year 0 to the first of the given one; the
years in between that are divisible by 4 are leap years, except for those divisible by 100
but not by 400. -/
def daysBeforeYear (year : Int) : Int :=
  365 * year + (year + 3) / 4 - (year + 99) / 100 + (year + 399) / 400

theorem daysThroughMonth_mono (year : Int) {m n : Nat} (h : m ≤ n) :
    daysThroughMonth year m ≤ daysThroughMonth year n := by
  induction h with
  | refl => exact Nat.le_refl _
  | step _ ih => exact Nat.le_trans ih (Nat.le_add_right _ _)

/-- A year has 366 days or 365. -/
theorem daysThroughMonth_twelve (year : Int) :
    daysThroughMonth year 12 = if isLeapYear year then 366 else 365 := by
  simp only [daysThroughMonth, daysInMonth]
  split <;> rfl

theorem isLeapYear_iff {year : Int} :
    isLeapYear year = true ↔ year % 4 = 0 ∧ (year % 100 ≠ 0 ∨ year % 400 = 0) := by
  simp [isLeapYear]

/-- The next year begins when the months of this one are over. -/
theorem daysBeforeYear_succ (year : Int) :
    daysBeforeYear (year + 1) = daysBeforeYear year + daysThroughMonth year 12 := by
  rw [daysThroughMonth_twelve]
  unfold daysBeforeYear
  by_cases hleap : isLeapYear year = true
  · have hyear := isLeapYear_iff.1 hleap
    rw [if_pos hleap]
    omega
  · have hyear := mt isLeapYear_iff.2 hleap
    rw [if_neg hleap]
    omega

theorem daysBeforeYear_mono {x y : Int} (h : x ≤ y) : daysBeforeYear x ≤ daysBeforeYear y := by
  unfold daysBeforeYear
  omega

namespace Date

/-- The number of the day, counted from the first of the year 0. -/
def number (d : Date) : Int :=
  daysBeforeYear d.year + daysThroughMonth d.year (d.month - 1) + d.day

variable {d e : Date}

/-- The day lies in its month. -/
theorem month_bounds (d : Date) :
    daysThroughMonth d.year (d.month - 1) + d.day ≤ daysThroughMonth d.year d.month ∧
      1 ≤ d.month ∧ d.month ≤ 12 ∧ 1 ≤ d.day ∧ d.day ≤ daysInMonth d.year d.month := by
  obtain ⟨_, _, hmonth, htwelve, hday, hlast⟩ := d.valid
  obtain ⟨m, hm⟩ : ∃ m, d.month = m + 1 := ⟨d.month - 1, by omega⟩
  refine ⟨?_, hmonth, htwelve, hday, hlast⟩
  rw [hm, Nat.add_sub_cancel, daysThroughMonth]
  rw [hm] at hlast
  omega

/-- The day lies in its year. -/
theorem year_bounds (d : Date) :
    daysBeforeYear d.year < d.number ∧ d.number ≤ daysBeforeYear (d.year + 1) := by
  obtain ⟨hle, _, htwelve, hday, _⟩ := d.month_bounds
  have hyear := daysThroughMonth_mono d.year htwelve
  rw [daysBeforeYear_succ]
  unfold number
  omega

/-- Dates of one number are of one year, of one month of it, and of one day of that. -/
theorem number_injective (h : d.number = e.number) : d = e := by
  have hyear : d.year = e.year := by
    obtain ⟨hd, hd'⟩ := d.year_bounds
    obtain ⟨he, he'⟩ := e.year_bounds
    rcases Int.lt_trichotomy d.year e.year with hlt | heq | hlt
    · have := daysBeforeYear_mono (x := d.year + 1) (y := e.year) hlt
      omega
    · exact heq
    · have := daysBeforeYear_mono (x := e.year + 1) (y := d.year) hlt
      omega
  obtain ⟨hd, hdmonth, _, hdday, _⟩ := d.month_bounds
  obtain ⟨he, hemonth, _, heday, _⟩ := e.month_bounds
  unfold number at h
  rw [hyear] at h hd
  have hmonth : d.month = e.month := by
    rcases Nat.lt_trichotomy d.month e.month with hlt | heq | hlt
    · have := daysThroughMonth_mono e.year (m := d.month) (n := e.month - 1) (by omega)
      omega
    · exact heq
    · have := daysThroughMonth_mono e.year (m := e.month) (n := d.month - 1) (by omega)
      omega
  rw [hmonth] at h
  have hday : d.day = e.day := by omega
  cases d
  cases e
  cases hyear
  cases hmonth
  cases hday
  rfl

/-! ### The next date and the one before -/

theorem fields_of_ofFields? {year : Int} {month day : Nat} (h : ofFields? year month day = some d) :
    d.year = year ∧ d.month = month ∧ d.day = day := by
  unfold ofFields? at h
  split at h
  · cases h
    exact ⟨rfl, rfl, rfl⟩
  · cases h

theorem exists_ofFields? {year : Int} {month day : Nat} (h : Valid year month day) :
    ∃ d, ofFields? year month day = some d := ⟨⟨year, month, day, h⟩, dif_pos h⟩

theorem daysInMonth_pos (year : Int) (month : Nat) : 1 ≤ daysInMonth year month := by
  unfold daysInMonth
  repeat' split
  all_goals omega

/-- The days through a month are those before it and its own. -/
theorem daysThroughMonth_pred (year : Int) {month : Nat} (h : 1 ≤ month) :
    daysThroughMonth year (month - 1) + daysInMonth year month = daysThroughMonth year month := by
  obtain ⟨m, rfl⟩ : ∃ m, month = m + 1 := ⟨month - 1, by omega⟩
  rfl

theorem number_of_next? (h : d.next? = some e) : e.number = d.number + 1 := by
  obtain ⟨_, hmonth, _, _, hlast⟩ := d.month_bounds
  have hpred := daysThroughMonth_pred d.year hmonth
  unfold next? at h
  split at h
  · obtain ⟨hy, hm, hd⟩ := fields_of_ofFields? h
    rw [number, number, hy, hm, hd]
    omega
  · -- the last day of its month
    split at h
    · obtain ⟨hy, hm, hd⟩ := fields_of_ofFields? h
      rw [number, number, hy, hm, hd, Nat.add_sub_cancel]
      omega
    · -- the last day of its year
      have htwelve : d.month = 12 := by omega
      have hthrough : daysThroughMonth d.year d.month = daysThroughMonth d.year 12 := by
        rw [htwelve]
      have hnone : daysThroughMonth (d.year + 1) (1 - 1) = 0 := rfl
      obtain ⟨hy, hm, hd⟩ := fields_of_ofFields? h
      rw [number, number, hy, hm, hd, hnone, daysBeforeYear_succ]
      omega

/-- A date that is not the last has a next one. -/
theorem exists_next (h : d.number < e.number) : ∃ n, d.next? = some n := by
  obtain ⟨hfirst, hend, hmonth, htwelve, hday, hlast⟩ := d.valid
  unfold next?
  split
  · exact exists_ofFields? ⟨hfirst, hend, hmonth, htwelve, by omega, by omega⟩
  · split
    · exact exists_ofFields? ⟨hfirst, hend, by omega, by omega, Nat.le_refl 1,
        daysInMonth_pos _ _⟩
    · -- the last day of the last year is later than any other
      have hyear : d.year ≠ 262142 := by
        intro hyear
        have hthrough : daysThroughMonth d.year d.month = daysThroughMonth d.year 12 := by
          rw [show d.month = 12 by omega]
        have hpred := daysThroughMonth_pred d.year hmonth
        have hsucc := daysBeforeYear_succ d.year
        have hle := e.year_bounds.2
        have hmono := daysBeforeYear_mono (x := e.year + 1) (y := d.year + 1) (by
          have := e.valid.2.1
          omega)
        unfold number at h hle
        omega
      exact exists_ofFields? ⟨by omega, by omega, by decide, by decide, by decide,
        daysInMonth_pos _ _⟩

/-- The next date is the one with the number after. -/
theorem next?_eq_some_iff : d.next? = some e ↔ e.number = d.number + 1 := by
  refine ⟨number_of_next?, fun h => ?_⟩
  obtain ⟨n, hn⟩ := exists_next (d := d) (e := e) (by omega)
  have hnumber := number_of_next? hn
  rw [hn, number_injective (hnumber.trans h.symm)]

theorem number_of_previous? (h : d.previous? = some e) : e.number = d.number - 1 := by
  obtain ⟨_, hmonth, _, hday, _⟩ := d.month_bounds
  unfold previous? at h
  split at h
  · obtain ⟨hy, hm, hd⟩ := fields_of_ofFields? h
    rw [number, number, hy, hm, hd]
    omega
  · -- the first day of its month
    split at h
    · obtain ⟨hy, hm, hd⟩ := fields_of_ofFields? h
      have hpred := daysThroughMonth_pred d.year (show 1 ≤ d.month - 1 by omega)
      rw [number, number, hy, hm, hd]
      omega
    · -- the first day of its year
      have hone : d.month = 1 := by omega
      obtain ⟨hy, hm, hd⟩ := fields_of_ofFields? h
      have hsucc := daysBeforeYear_succ (d.year - 1)
      have hpred := daysThroughMonth_pred (d.year - 1) (show 1 ≤ 12 by decide)
      rw [Int.sub_add_cancel] at hsucc
      rw [number, number, hy, hm, hd, hone, hsucc]
      simp only [Nat.sub_self, daysThroughMonth, daysInMonth] at hpred ⊢
      omega

/-- A date that is not the first has one before it. -/
theorem exists_previous (h : e.number < d.number) : ∃ n, d.previous? = some n := by
  obtain ⟨hfirst, hend, hmonth, htwelve, hday, hlast⟩ := d.valid
  unfold previous?
  split
  · exact exists_ofFields? ⟨hfirst, hend, hmonth, htwelve, by omega, by omega⟩
  · split
    · exact exists_ofFields? ⟨hfirst, hend, by omega, by omega, daysInMonth_pos _ _,
        Nat.le_refl _⟩
    · -- the first day of the first year is earlier than any other
      have hyear : d.year ≠ -262143 := by
        intro hyear
        have hnone : daysThroughMonth d.year (d.month - 1) = 0 := by
          rw [show d.month = 1 by omega]
          rfl
        have hlt := e.year_bounds.1
        have hmono := daysBeforeYear_mono (x := d.year) (y := e.year) (by
          have := e.valid.1
          omega)
        unfold number at h hlt
        omega
      exact exists_ofFields? ⟨by omega, by omega, by decide, by decide, by decide, Nat.le_refl 31⟩

/-- The date before is the one with the number before. -/
theorem previous?_eq_some_iff : d.previous? = some e ↔ e.number = d.number - 1 := by
  refine ⟨number_of_previous?, fun h => ?_⟩
  obtain ⟨n, hn⟩ := exists_previous (d := d) (e := e) (by omega)
  have hnumber := number_of_previous? hn
  rw [hn, number_injective (hnumber.trans h.symm)]

/-- In all years but the first and the last, the dates around a date are there. -/
theorem exists_number (hfirst : -262143 < d.year) (hlast : d.year < 262142) {k : Int}
    (hlow : -1 ≤ k) (hhigh : k ≤ 1) : ∃ e : Date, e.number = d.number + k := by
  obtain ⟨hbegin, hend⟩ := d.year_bounds
  rcases (show k = -1 ∨ k = 0 ∨ k = 1 by omega) with rfl | rfl | rfl
  · let first : Date := ⟨-262143, 1, 1, by decide⟩
    have hyear := daysBeforeYear_mono (x := first.year + 1) (y := d.year) hfirst
    have hbound := first.year_bounds.2
    obtain ⟨e, he⟩ := exists_previous (d := d) (e := first) (by omega)
    exact ⟨e, number_of_previous? he⟩
  · exact ⟨d, (Int.add_zero _).symm⟩
  · let last : Date := ⟨262142, 12, 31, by decide⟩
    have hyear := daysBeforeYear_mono (x := d.year + 1) (y := last.year) hlast
    have hbound := last.year_bounds.1
    obtain ⟨e, he⟩ := exists_next (d := d) (e := last) (by omega)
    exact ⟨e, number_of_next? he⟩

end Date

namespace Timestamp

/-! ### Taking off an offset -/

/-- The number of the minute, counted from the first of the year 0. -/
def minutes (ts : Timestamp) : Int := ts.date.number * 1440 + ts.time.minute

/-- `ts.IsMinus offset u`: the second timestamp is so many minutes before the first, at the
same second of its minute, with the same fraction. -/
structure IsMinus (ts : Timestamp) (offset : Int) (u : Timestamp) : Prop where
  minutes : u.minutes = ts.minutes - offset
  second : u.time.second = ts.time.second
  nano : u.time.nano = ts.time.nano

/-- In all years but the first and the last, every offset can be taken off. -/
theorem exists_isMinus (ts : Timestamp) (hfirst : -262143 < ts.date.year)
    (hlast : ts.date.year < 262142) {offset : Int} (hlow : -1440 < offset) (hhigh : offset < 1440) :
    ∃ u, ts.IsMinus offset u := by
  obtain ⟨hminute, htime⟩ := ts.time.valid
  obtain ⟨e, he⟩ := Date.exists_number hfirst hlast (k := (ts.time.minute - offset) / 1440)
    (by omega) (by omega)
  let u : Timestamp :=
    ⟨e, ⟨(((ts.time.minute : Int) - offset) % 1440).toNat, ts.time.second, ts.time.nano,
      by omega, htime⟩⟩
  refine ⟨u, ?_, rfl, rfl⟩
  have hminutes : (u.time.minute : Int) = (ts.time.minute - offset) % 1440 :=
    Int.toNat_of_nonneg (Int.emod_nonneg _ (by decide))
  have hnumber : u.date.number = ts.date.number + (ts.time.minute - offset) / 1440 := he
  unfold minutes
  omega

theorem ofFields?_time_eq_some_iff {minute second nano : Nat} {t : TimeOfDay} :
    TimeOfDay.ofFields? minute second nano = some t ↔
      t.minute = minute ∧ t.second = second ∧ t.nano = nano := by
  unfold TimeOfDay.ofFields?
  constructor
  · intro h
    split at h
    · cases h
      exact ⟨rfl, rfl, rfl⟩
    · cases h
  · rintro ⟨rfl, rfl, rfl⟩
    exact dif_pos t.valid

/-- The date that holds a minute which lies less than a day off the given date. -/
theorem date_eq_some_iff {d e : Date} {m : Int} (hlow : -1440 < m) (hhigh : m < 2880) :
    (if m < 0 then d.previous? else if m < 1440 then some d else d.next?) = some e ↔
      e.number = d.number + m / 1440 := by
  split
  · have hdiv : m / 1440 = -1 := by omega
    rw [Date.previous?_eq_some_iff, hdiv]
    omega
  · split
    · have hdiv : m / 1440 = 0 := by omega
      rw [hdiv, Int.add_zero, Option.some.injEq]
      exact ⟨fun h => h ▸ rfl, fun h => Date.number_injective h.symm⟩
    · have hdiv : m / 1440 = 1 := by omega
      rw [Date.next?_eq_some_iff, hdiv]

theorem date_and_time_eq_some_iff {date : Option Date} {time : Option TimeOfDay} {u : Timestamp} :
    (match date, time with
      | some d, some t => some (⟨d, t⟩ : Timestamp)
      | _, _ => none) = some u ↔ date = some u.date ∧ time = some u.time := by
  obtain ⟨d, t⟩ := u
  cases date <;> cases time <;> simp

/-- An offset shorter than a day is taken off as long as there are dates. -/
theorem minusOffset?_eq_some_iff {ts u : Timestamp} {offset : Int} (hlow : -1440 < offset)
    (hhigh : offset < 1440) : ts.minusOffset? offset = some u ↔ ts.IsMinus offset u := by
  have hminute := ts.time.valid.1
  have huminute := u.time.valid.1
  have hdate := @date_eq_some_iff ts.date u.date (ts.time.minute - offset) (by omega) (by omega)
  have htime := @ofFields?_time_eq_some_iff (((ts.time.minute : Int) - offset) % 1440).toNat
    ts.time.second ts.time.nano u.time
  have hboth : ts.minusOffset? offset = some u ↔
      u.date.number = ts.date.number + (ts.time.minute - offset) / 1440 ∧
        u.time.minute = (((ts.time.minute : Int) - offset) % 1440).toNat ∧
          u.time.second = ts.time.second ∧ u.time.nano = ts.time.nano := by
    rw [← hdate, ← htime]
    exact date_and_time_eq_some_iff
  rw [hboth]
  constructor
  · rintro ⟨hnumber, hmin, hsecond, hnano⟩
    refine ⟨?_, hsecond, hnano⟩
    unfold minutes
    omega
  · rintro ⟨hminutes, hsecond, hnano⟩
    unfold minutes at hminutes
    exact ⟨by omega, by omega, hsecond, hnano⟩

end Timestamp
end Cadastre
