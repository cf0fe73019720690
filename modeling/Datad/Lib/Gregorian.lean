/-
  Datad/Lib/Gregorian.lean
  ========================
  **The Gregorian calendar.**  A date is a year, a month and a day that the calendar has,
  and `next` is the day after it.  `daysFromCivil` is the formula for the number of a day,
  which is 0 for the first of January 1970; it counts on with `next` (`number_next`), and
  no two dates have one number (`number_injective`).

  The formula lets a year begin with March: then the leap day is its last, and the months
  before it have the lengths of `(153 m + 2) / 5`.
-/
import Mathlib.Logic.Function.Iterate
import Mathlib.Tactic.IntervalCases

namespace Gregorian

/-! ### Dates -/

def IsLeap (y : Int) : Prop := y % 4 = 0 ∧ (y % 100 ≠ 0 ∨ y % 400 = 0)

instance (y : Int) : Decidable (IsLeap y) := inferInstanceAs (Decidable (_ ∧ _))

def daysInMonth (y m : Int) : Int :=
  if m = 2 then if IsLeap y then 29 else 28
  else if m = 4 ∨ m = 6 ∨ m = 9 ∨ m = 11 then 30 else 31

@[ext]
structure Date where
  year : Int
  month : Int
  day : Int
  one_le_month : 1 ≤ month
  month_le : month ≤ 12
  one_le_day : 1 ≤ day
  day_le : day ≤ daysInMonth year month
deriving DecidableEq

theorem one_le_daysInMonth (y m : Int) : 1 ≤ daysInMonth y m := by
  unfold daysInMonth
  split
  · split <;> decide
  · split <;> decide

/-- The day after. -/
def Date.next (d : Date) : Date :=
  if h : d.day < daysInMonth d.year d.month then
    { d with
      day := d.day + 1
      one_le_day := Int.le_trans d.one_le_day (by omega)
      day_le := h }
  else if h : d.month < 12 then
    { year := d.year
      month := d.month + 1
      day := 1
      one_le_month := Int.le_trans d.one_le_month (by omega)
      month_le := h
      one_le_day := Int.le_refl 1
      day_le := one_le_daysInMonth _ _ }
  else
    { year := d.year + 1
      month := 1
      day := 1
      one_le_month := Int.le_refl 1
      month_le := by decide
      one_le_day := Int.le_refl 1
      day_le := one_le_daysInMonth _ _ }

/-- The first of January 1970. -/
def epoch : Date := ⟨1970, 1, 1, by decide, by decide, by decide, by decide⟩

/-! ### The number of a day -/

/-- The days from the first of January 1970. -/
def daysFromCivil (y m d : Int) : Int :=
  let y := if m ≤ 2 then y - 1 else y
  let era := y / 400
  let yoe := y - era * 400
  let doy := (153 * (if 2 < m then m - 3 else m + 9) + 2) / 5 + d - 1
  let doe := yoe * 365 + yoe / 4 - yoe / 100 + doy
  era * 146097 + doe - 719468

def Date.number (d : Date) : Int := daysFromCivil d.year d.month d.day

example : epoch.number = 0 := by decide

/-- The year and the month, counted from March. -/
def marchYear (y m : Int) : Int := if m ≤ 2 then y - 1 else y

def marchMonth (m : Int) : Int := if 2 < m then m - 3 else m + 9

/-- The days in front of the first of March of a year. -/
def yearStart (y : Int) : Int := 365 * y + y / 4 - y / 100 + y / 400

/-- The days in front of the first of a month, in a year that begins with March. -/
def monthStart (m : Int) : Int := (153 * m + 2) / 5

theorem daysFromCivil_eq (y m d : Int) :
    daysFromCivil y m d =
      yearStart (marchYear y m) + monthStart (marchMonth m) + d - 719469 := by
  unfold daysFromCivil yearStart monthStart marchMonth marchYear
  dsimp only
  omega

theorem yearStart_succ (y : Int) :
    yearStart (y + 1) = yearStart y + if IsLeap (y + 1) then 366 else 365 := by
  unfold yearStart
  by_cases h : IsLeap (y + 1)
  · rw [if_pos h]
    unfold IsLeap at h
    omega
  · rw [if_neg h]
    unfold IsLeap at h
    omega

theorem yearStart_lt {y y' : Int} (h : y < y') : yearStart y < yearStart y' := by
  unfold yearStart
  omega

/-- An era of 400 years has 146097 days. -/
theorem yearStart_era (y era : Int) :
    yearStart (y + era * 400) = yearStart y + era * 146097 := by
  unfold yearStart
  omega

theorem monthStart_lt {m m' : Int} (h : m < m') : monthStart m < monthStart m' := by
  unfold monthStart
  omega

/-! ### The length of a month -/

theorem daysInMonth_eq {y m : Int} (low : 1 ≤ m) (high : m ≤ 12) (short : m ≠ 2) :
    daysInMonth y m = monthStart (marchMonth m + 1) - monthStart (marchMonth m) := by
  unfold daysInMonth
  rw [if_neg short]
  interval_cases m <;> first | rfl | exact absurd rfl short

/-- February ends with the year. -/
theorem daysInMonth_february (y : Int) :
    daysInMonth y 2 = yearStart y - yearStart (y - 1) - monthStart 11 := by
  have h := yearStart_succ (y - 1)
  rw [Int.sub_add_cancel] at h
  have start : monthStart 11 = 337 := rfl
  rw [daysInMonth, if_pos rfl, h, start]
  split <;> omega

theorem marchMonth_bounds {m : Int} (low : 1 ≤ m) (high : m ≤ 12) :
    0 ≤ marchMonth m ∧ marchMonth m ≤ 11 := by
  unfold marchMonth
  omega

/-- No month goes on beyond the start of the next one. -/
theorem month_end_le {y m : Int} (low : 1 ≤ m) (high : m ≤ 12) :
    monthStart (marchMonth m) + daysInMonth y m ≤ monthStart (marchMonth m + 1) := by
  by_cases short : m = 2
  · subst short
    have start : monthStart (marchMonth 2) = 337 := rfl
    have stop : monthStart (marchMonth 2 + 1) = 367 := rfl
    rw [start, stop, daysInMonth, if_pos rfl]
    split <;> decide
  · rw [daysInMonth_eq low high short]
    omega

/-- No month goes on beyond the end of the year. -/
theorem month_end_le_year {y m : Int} (low : 1 ≤ m) (high : m ≤ 12) :
    yearStart (marchYear y m) + monthStart (marchMonth m) + daysInMonth y m ≤
      yearStart (marchYear y m + 1) := by
  by_cases short : m = 2
  · subst short
    have year : marchYear y 2 = y - 1 := rfl
    have start : monthStart (marchMonth 2) = monthStart 11 := rfl
    rw [year, start, daysInMonth_february, Int.sub_add_cancel]
    omega
  · have last : marchMonth m + 1 ≤ 11 := by
      unfold marchMonth
      omega
    have february : monthStart (marchMonth m + 1) ≤ monthStart 11 := by
      unfold monthStart
      omega
    have start : monthStart 11 = 337 := rfl
    have year := yearStart_succ (marchYear y m)
    rw [daysInMonth_eq low high short]
    split at year <;> omega

/-- A day in front of the next month and of the next year is a day of the month. -/
theorem le_daysInMonth {y m d : Int} (low : 1 ≤ m) (high : m ≤ 12)
    (month : monthStart (marchMonth m) + d ≤ monthStart (marchMonth m + 1))
    (year : yearStart (marchYear y m) + monthStart (marchMonth m) + d ≤
      yearStart (marchYear y m + 1)) : d ≤ daysInMonth y m := by
  by_cases short : m = 2
  · subst short
    have february : marchYear y 2 = y - 1 := rfl
    have start : monthStart (marchMonth 2) = monthStart 11 := rfl
    rw [february, start, Int.sub_add_cancel] at year
    rw [daysInMonth_february]
    omega
  · rw [daysInMonth_eq low high short]
    omega

/-! ### The number counts on -/

theorem daysFromCivil_succ (y m d : Int) :
    daysFromCivil y m (d + 1) = daysFromCivil y m d + 1 := by
  rw [daysFromCivil_eq, daysFromCivil_eq]
  omega

theorem daysFromCivil_month {y m : Int} (low : 1 ≤ m) (high : m < 12) :
    daysFromCivil y (m + 1) 1 = daysFromCivil y m (daysInMonth y m) + 1 := by
  rw [daysFromCivil_eq, daysFromCivil_eq]
  by_cases short : m = 2
  · subst short
    have year : marchYear y 2 = y - 1 := rfl
    have year' : marchYear y (2 + 1) = y := rfl
    have start : monthStart (marchMonth 2) = monthStart 11 := rfl
    have start' : monthStart (marchMonth (2 + 1)) = 0 := rfl
    rw [year, year', start, start', daysInMonth_february]
    omega
  · have year : marchYear y (m + 1) = marchYear y m := by
      unfold marchYear
      omega
    have month : marchMonth (m + 1) = marchMonth m + 1 := by
      unfold marchMonth
      omega
    rw [daysInMonth_eq low (by omega) short, year, month]
    omega

theorem daysFromCivil_year (y : Int) :
    daysFromCivil (y + 1) 1 1 = daysFromCivil y 12 (daysInMonth y 12) + 1 := by
  rw [daysFromCivil_eq, daysFromCivil_eq]
  have year : marchYear (y + 1) 1 = marchYear y 12 := Int.add_sub_cancel y 1
  have december : daysInMonth y 12 = 31 := rfl
  have start : monthStart (marchMonth 12) = 275 := rfl
  have start' : monthStart (marchMonth 1) = 306 := rfl
  rw [year, december, start, start']
  omega

namespace Date

theorem number_next (d : Date) : d.next.number = d.number + 1 := by
  unfold next
  split
  · exact daysFromCivil_succ d.year d.month d.day
  · rename_i full
    have last : d.day = daysInMonth d.year d.month := by
      have := d.day_le
      omega
    split
    · rename_i month
      have h := daysFromCivil_month (y := d.year) d.one_le_month month
      rw [← last] at h
      exact h
    · rename_i month
      have december : d.month = 12 := by
        have := d.month_le
        omega
      have h := daysFromCivil_year d.year
      rw [← december, ← last] at h
      exact h

theorem number_iterate (d : Date) (n : Nat) : (next^[n] d).number = d.number + n := by
  induction n with
  | zero => simp
  | succ n ih =>
    rw [Function.iterate_succ_apply', number_next, ih]
    omega

end Date

/-! ### No two dates have one number -/

/-- A number is between one value of an increasing function and the next at one place only. -/
theorem between_unique {f : Int → Int} (mono : ∀ {a b}, a < b → f a < f b) {x a b : Int}
    (startA : f a ≤ x) (stopA : x < f (a + 1)) (startB : f b ≤ x) (stopB : x < f (b + 1)) :
    a = b := by
  have up : ∀ {a b}, a < b → f (a + 1) ≤ f b := by
    intro a b h
    rcases Int.lt_or_eq_of_le (Int.add_one_le_of_lt h) with h | h
    · exact Int.le_of_lt (mono h)
    · exact Int.le_of_eq (congrArg f h)
  rcases Int.lt_trichotomy a b with h | h | h
  · have := up h
    omega
  · exact h
  · have := up h
    omega

namespace Date

variable (d : Date)

/-- The day of the year that begins with March, from 0. -/
def dayOfYear : Int := monthStart (marchMonth d.month) + d.day - 1

theorem number_eq : d.number = yearStart (marchYear d.year d.month) + d.dayOfYear - 719468 := by
  rw [number, daysFromCivil_eq, dayOfYear]
  omega

theorem dayOfYear_month : monthStart (marchMonth d.month) ≤ d.dayOfYear ∧
    d.dayOfYear < monthStart (marchMonth d.month + 1) := by
  have first := d.one_le_day
  have last := d.day_le
  have stop := month_end_le (y := d.year) d.one_le_month d.month_le
  unfold dayOfYear
  omega

theorem dayOfYear_year : 0 ≤ d.dayOfYear ∧ d.dayOfYear <
    yearStart (marchYear d.year d.month + 1) - yearStart (marchYear d.year d.month) := by
  have first := d.one_le_day
  have last := d.day_le
  have start : 0 ≤ monthStart (marchMonth d.month) := by
    have march := (marchMonth_bounds d.one_le_month d.month_le).1
    unfold monthStart
    omega
  have stop := month_end_le_year (y := d.year) d.one_le_month d.month_le
  unfold dayOfYear
  omega

theorem number_injective : Function.Injective number := by
  intro d d' same
  rw [number_eq, number_eq] at same
  have bounds := d.dayOfYear_year
  have bounds' := d'.dayOfYear_year
  have year : marchYear d.year d.month = marchYear d'.year d'.month := by
    apply between_unique yearStart_lt (x := d.number + 719468)
    all_goals
      rw [number_eq]
      omega
  have dayOfYear : d.dayOfYear = d'.dayOfYear := by
    rw [year] at same
    omega
  have month : marchMonth d.month = marchMonth d'.month := by
    have inside := d.dayOfYear_month
    have inside' := d'.dayOfYear_month
    rw [← dayOfYear] at inside'
    exact between_unique monthStart_lt inside.1 inside.2 inside'.1 inside'.2
  have day : d.day = d'.day := by
    unfold Date.dayOfYear at dayOfYear
    rw [month] at dayOfYear
    omega
  have month : d.month = d'.month := by
    have low := d.one_le_month
    have high := d.month_le
    have low' := d'.one_le_month
    have high' := d'.month_le
    unfold marchMonth at month
    omega
  have year : d.year = d'.year := by
    rw [month] at year
    unfold marchYear at year
    omega
  exact Date.ext year month day

/-- The date with a number is found by counting from the first of January 1970. -/
theorem eq_iterate_epoch {n : Nat} (h : d.number = n) : d = next^[n] epoch := by
  apply number_injective
  rw [h, number_iterate]
  have zero : epoch.number = 0 := by decide
  omega

end Date

/-! ### Dates and times from numbers -/

def Date.ofNumbers? (y m d : Int) : Option Date :=
  if h : 1 ≤ m ∧ m ≤ 12 ∧ 1 ≤ d ∧ d ≤ daysInMonth y m then
    some ⟨y, m, d, h.1, h.2.1, h.2.2.1, h.2.2.2⟩
  else none

theorem Date.ofNumbers?_self (d : Date) : ofNumbers? d.year d.month d.day = some d :=
  dif_pos ⟨d.one_le_month, d.month_le, d.one_le_day, d.day_le⟩

/-- A time of the day. -/
structure Time where
  hour : Nat
  minute : Nat
  second : Nat
  hour_lt : hour < 24
  minute_lt : minute < 60
  second_lt : second < 60
deriving DecidableEq

namespace Time

def ofNumbers? (h m s : Nat) : Option Time :=
  if fits : h < 24 ∧ m < 60 ∧ s < 60 then some ⟨h, m, s, fits.1, fits.2.1, fits.2.2⟩ else none

theorem ofNumbers?_self (t : Time) : ofNumbers? t.hour t.minute t.second = some t :=
  dif_pos ⟨t.hour_lt, t.minute_lt, t.second_lt⟩

/-- The seconds from midnight. -/
def seconds (t : Time) : Nat := t.hour * 3600 + t.minute * 60 + t.second

end Time

/-- The seconds from the first of January 1970. -/
def unixSeconds (d : Date) (t : Time) : Int := d.number * 86400 + t.seconds

end Gregorian
