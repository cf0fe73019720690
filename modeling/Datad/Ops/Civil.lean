/-
  Datad/Ops/Civil.lean
  ====================
  **The date of a line** (`rust/src/ops/record.rs`, `civil`).

  `dateOf` is the date that `civil` computes, for days in front of 1970 too.  That it is a
  date of the calendar and has the number it was computed from rests on the years: the
  quotient by 365, corrected by three others, is the year of the era that the day is in.
  The program computes in `i64`; `civilChecked` asks of each operation whether it fits.
-/
import Datad.Lib.Gregorian
import Datad.Ops.Record

namespace Datad

namespace Record

open Gregorian

/-! ### The year of the era -/

/-- Of a day of an era of 400 years. -/
def yearOfEra (doe : Int) : Int := (doe - doe / 1460 + doe / 36524 - doe / 146096) / 365

/-- By centuries, by four years, by years and by days: of 365 days there are some left for
    one more only in the last of four years, if it is a leap year. -/
theorem yearOfEra_split {c q r k : Int} (hc : 0 ≤ c ∧ c ≤ 3) (hq : 0 ≤ q ∧ q ≤ 24)
    (hr : 0 ≤ r ∧ r ≤ 3) (hk : 0 ≤ k ∧ k ≤ 365) (leap : k = 365 → r = 3 ∧ (q < 24 ∨ c = 3)) :
    yearOfEra (36524 * c + 1461 * q + 365 * r + k) = 100 * c + 4 * q + r := by
  have centuries : (36524 * c + 1461 * q + 365 * r + k) / 36524 -
      (36524 * c + 1461 * q + 365 * r + k) / 146096 = c := by
    by_cases inside : 1461 * q + 365 * r + k < 36524
    · have century : (36524 * c + 1461 * q + 365 * r + k) / 36524 = c := by omega
      have era : (36524 * c + 1461 * q + 365 * r + k) / 146096 = 0 := by omega
      rw [century, era, Int.sub_zero]
    · -- the last day of the era
      obtain ⟨rfl, rfl, rfl⟩ : q = 24 ∧ r = 3 ∧ k = 365 := by omega
      obtain rfl : c = 3 := by omega
      rfl
  -- a day is left over in each four years, and 24 in each century
  have fours : (36524 * c + 1461 * q + 365 * r + k) / 1460 =
      25 * c + q + if 24 * c + q + 365 * r + k < 1460 then 0 else 1 := by
    split <;> omega
  unfold yearOfEra
  rw [fours]
  split <;> omega

theorem yearStart_split {c q r : Int} (hc : 0 ≤ c ∧ c ≤ 3) (hq : 0 ≤ q ∧ q ≤ 24)
    (hr : 0 ≤ r ∧ r ≤ 3) :
    yearStart (100 * c + 4 * q + r) = 36524 * c + 1461 * q + 365 * r := by
  have fours : (100 * c + 4 * q + r) / 4 = 25 * c + q := by omega
  have century : (100 * c + 4 * q + r) / 100 = c := by omega
  have era : (100 * c + 4 * q + r) / 400 = 0 := by omega
  rw [yearStart, fours, century, era]
  omega

theorem yearOfEra_bounds {doe : Int} (low : 0 ≤ doe) (high : doe ≤ 146096) :
    0 ≤ yearOfEra doe ∧ yearOfEra doe < 400 := by
  unfold yearOfEra
  omega

/-- A day is in the year that is computed for it. -/
theorem yearOfEra_spec {doe : Int} (low : 0 ≤ doe) (high : doe ≤ 146096) :
    yearStart (yearOfEra doe) ≤ doe ∧ doe < yearStart (yearOfEra doe + 1) := by
  obtain ⟨c, hc⟩ : ∃ c, c = min (doe / 36524) 3 := ⟨_, rfl⟩
  obtain ⟨q, hq⟩ : ∃ q, q = (doe - 36524 * c) / 1461 := ⟨_, rfl⟩
  obtain ⟨r, hr⟩ : ∃ r, r = min ((doe - 36524 * c - 1461 * q) / 365) 3 := ⟨_, rfl⟩
  obtain ⟨k, hk⟩ : ∃ k, k = doe - 36524 * c - 1461 * q - 365 * r := ⟨_, rfl⟩
  have boundsC : 0 ≤ c ∧ c ≤ 3 := by omega
  have boundsQ : 0 ≤ q ∧ q ≤ 24 := by omega
  have boundsR : 0 ≤ r ∧ r ≤ 3 := by omega
  have boundsK : 0 ≤ k ∧ k ≤ 365 := by omega
  have leap : k = 365 → r = 3 ∧ (q < 24 ∨ c = 3) := by omega
  have split : doe = 36524 * c + 1461 * q + 365 * r + k := by omega
  rw [split, yearOfEra_split boundsC boundsQ boundsR boundsK leap, yearStart_succ,
    yearStart_split boundsC boundsQ boundsR]
  constructor
  · omega
  · by_cases last : k = 365
    · have : IsLeap (100 * c + 4 * q + r + 1) := by
        have := leap last
        unfold IsLeap
        omega
      rw [if_pos this]
      omega
    · have : (365 : Int) ≤ if IsLeap (100 * c + 4 * q + r + 1) then 366 else 365 := by
        split <;> decide
      omega

/-! ### The date -/

section Date

variable (z : Int)

/-- The days of `civil` from the first of March of the year 0: the era, the day of it, its
    year, the day of that from March, its month, and the month from January. -/
def era : Int := z.fdiv 146097

def dayOfEra : Int := z - era z * 146097

def dayOfYear : Int :=
  let yoe := yearOfEra (dayOfEra z)
  dayOfEra z - (365 * yoe + yoe / 4 - yoe / 100)

def monthOfYear : Int := (5 * dayOfYear z + 2) / 153

def month : Int := if monthOfYear z < 10 then monthOfYear z + 3 else monthOfYear z - 9

theorem era_eq : era z = z / 146097 := Int.fdiv_eq_ediv_of_nonneg z (by decide)

theorem dayOfEra_bounds : 0 ≤ dayOfEra z ∧ dayOfEra z ≤ 146096 := by
  rw [dayOfEra, era_eq]
  omega

theorem year_bounds : 0 ≤ yearOfEra (dayOfEra z) ∧ yearOfEra (dayOfEra z) < 400 :=
  yearOfEra_bounds (dayOfEra_bounds z).1 (dayOfEra_bounds z).2

theorem dayOfYear_eq : dayOfYear z = dayOfEra z - yearStart (yearOfEra (dayOfEra z)) := by
  have year := year_bounds z
  unfold dayOfYear yearStart
  dsimp only
  omega

theorem dayOfYear_bounds : 0 ≤ dayOfYear z ∧ dayOfYear z <
    yearStart (yearOfEra (dayOfEra z) + 1) - yearStart (yearOfEra (dayOfEra z)) := by
  have bounds := dayOfEra_bounds z
  have year := yearOfEra_spec bounds.1 bounds.2
  rw [dayOfYear_eq]
  omega

theorem dayOfYear_le : dayOfYear z ≤ 365 := by
  have bounds := (dayOfYear_bounds z).2
  rw [yearStart_succ] at bounds
  split at bounds <;> omega

theorem monthOfYear_bounds : 0 ≤ monthOfYear z ∧ monthOfYear z ≤ 11 := by
  have low := (dayOfYear_bounds z).1
  have high := dayOfYear_le z
  unfold monthOfYear
  omega

theorem monthOfYear_spec : monthStart (monthOfYear z) ≤ dayOfYear z ∧
    dayOfYear z < monthStart (monthOfYear z + 1) := by
  unfold monthStart monthOfYear
  omega

theorem month_bounds : 1 ≤ month z ∧ month z ≤ 12 := by
  have bounds := monthOfYear_bounds z
  unfold month
  omega

theorem marchMonth_month : marchMonth (month z) = monthOfYear z := by
  have bounds := monthOfYear_bounds z
  unfold marchMonth month
  omega

def day : Int := dayOfYear z - (153 * monthOfYear z + 2) / 5 + 1

def year : Int := yearOfEra (dayOfEra z) + era z * 400 + if month z ≤ 2 then 1 else 0

theorem one_le_day : 1 ≤ day z := by
  have start : (153 * monthOfYear z + 2) / 5 ≤ dayOfYear z := (monthOfYear_spec z).1
  unfold day
  omega

theorem day_eq : day z = dayOfYear z - monthStart (monthOfYear z) + 1 := rfl

theorem marchYear_year : marchYear (year z) (month z) = yearOfEra (dayOfEra z) + era z * 400 := by
  unfold marchYear year
  omega

theorem day_le : day z ≤ daysInMonth (year z) (month z) := by
  have inYear := (dayOfYear_bounds z).2
  have inMonth := (monthOfYear_spec z).2
  have bounds := month_bounds z
  apply le_daysInMonth bounds.1 bounds.2
  · rw [marchMonth_month, day_eq]
    omega
  · have next : yearOfEra (dayOfEra z) + era z * 400 + 1 =
        yearOfEra (dayOfEra z) + 1 + era z * 400 := Int.add_right_comm ..
    rw [marchMonth_month, marchYear_year, next, yearStart_era, yearStart_era, day_eq]
    omega

theorem daysFromCivil_date : daysFromCivil (year z) (month z) (day z) = z - 719468 := by
  rw [daysFromCivil_eq, marchYear_year, marchMonth_month, yearStart_era, day_eq, dayOfYear_eq]
  unfold dayOfEra
  omega

end Date

/-- The date that `civil` computes. -/
def dateOf (days : Int) : Date where
  year := year (days + 719468)
  month := month (days + 719468)
  day := day (days + 719468)
  one_le_month := (month_bounds _).1
  month_le := (month_bounds _).2
  one_le_day := one_le_day _
  day_le := day_le _

theorem number_dateOf (days : Int) : (dateOf days).number = days := by
  have h := daysFromCivil_date (days + 719468)
  rw [Int.add_sub_cancel] at h
  exact h

/-- The time that `civil` computes. -/
def timeOf (rem : Nat) (h : rem < 86400) : Time where
  hour := rem / 3600
  minute := rem % 3600 / 60
  second := rem % 60
  hour_lt := by omega
  minute_lt := by omega
  second_lt := by omega

theorem seconds_timeOf (rem : Nat) (h : rem < 86400) : (timeOf rem h).seconds = rem := by
  unfold Time.seconds timeOf
  dsimp only
  omega

/-- The year with four digits, all else with two. -/
def dateText (d : Date) (t : Time) : String :=
  String.ofList (padded 4 d.year ++ '-' :: padded 2 d.month ++ '-' :: padded 2 d.day ++ ' ' ::
    padded 2 t.hour ++ ':' :: padded 2 t.minute ++ ':' :: padded 2 t.second)

theorem civil_eq (secs : Nat) :
    civil secs = dateText (dateOf (secs / 86400 : Nat))
      (timeOf (secs % 86400) (Nat.mod_lt secs (by decide))) := rfl

/-! ### The operations fit -/

/-- What an operation on `i64` gives, unless it overflows. -/
def i64 (n : Int) : Option Int := if -2 ^ 63 ≤ n ∧ n < 2 ^ 63 then some n else none

/-- `as i64` -/
def asI64 (n : Nat) : Int := Int.bmod n (2 ^ 64)

/-! Quotients by a positive number fit, and round towards zero. -/

def yearOfEraChecked (doe : Int) : Option Int := do
  let years ← i64 ((← i64 ((← i64 (doe - doe.tdiv 1460)) + doe.tdiv 36524)) - doe.tdiv 146096)
  return years.tdiv 365

def dayOfYearChecked (doe yoe : Int) : Option Int := do
  let start ← i64 ((← i64 ((← i64 (365 * yoe)) + yoe.tdiv 4)) - yoe.tdiv 100)
  i64 (doe - start)

def monthOfYearChecked (doy : Int) : Option Int := do
  return (← i64 ((← i64 (5 * doy)) + 2)).tdiv 153

def dayChecked (doy mp : Int) : Option Int := do
  let start := (← i64 ((← i64 (153 * mp)) + 2)).tdiv 5
  i64 ((← i64 (doy - start)) + 1)

def monthChecked (mp : Int) : Option Int := if mp < 10 then i64 (mp + 3) else i64 (mp - 9)

def yearChecked (yoe era m : Int) : Option Int := do
  i64 ((← i64 (yoe + (← i64 (era * 400)))) + if m ≤ 2 then 1 else 0)

/-- `civil`, which fails where an operation on `i64` overflows. -/
def civilChecked (secs : UInt64) : Option String := do
  let days := asI64 (secs / 86400).toNat
  let rem := (secs % 86400).toNat
  let z ← i64 (days + 719468)
  let era := z.ediv 146097
  let doe ← i64 (z - (← i64 (era * 146097)))
  let yoe ← yearOfEraChecked doe
  let doy ← dayOfYearChecked doe yoe
  let mp ← monthOfYearChecked doy
  let d ← dayChecked doy mp
  let m ← monthChecked mp
  let y ← yearChecked yoe era m
  return String.ofList (padded 4 y ++ '-' :: padded 2 m ++ '-' :: padded 2 d ++ ' ' ::
    padded 2 (rem / 3600 : Nat) ++ ':' :: padded 2 (rem % 3600 / 60 : Nat) ++ ':' ::
    padded 2 (rem % 60 : Nat))

section Fits

theorem i64_eq {n : Int} (low : -2 ^ 63 ≤ n) (high : n < 2 ^ 63) : i64 n = some n :=
  if_pos ⟨low, high⟩

theorem asI64_eq {n : Nat} (h : n < 2 ^ 63) : asI64 n = n := by
  unfold asI64
  rw [Int.bmod_def]
  omega

theorem yearOfEraChecked_eq {doe : Int} (low : 0 ≤ doe) (high : doe ≤ 146096) :
    yearOfEraChecked doe = some (yearOfEra doe) := by
  have years : 0 ≤ doe - doe / 1460 + doe / 36524 - doe / 146096 := by omega
  have quotient : ∀ k, doe.tdiv k = doe / k := fun k => Int.tdiv_eq_ediv_of_nonneg low
  unfold yearOfEraChecked yearOfEra
  simp (disch := omega) only [Option.bind_eq_bind, quotient, i64_eq, Option.bind_some]
  exact congrArg some (Int.tdiv_eq_ediv_of_nonneg years)

variable (z : Int)

theorem dayOfYearChecked_eq :
    dayOfYearChecked (dayOfEra z) (yearOfEra (dayOfEra z)) = some (dayOfYear z) := by
  have day := dayOfEra_bounds z
  have bounds := year_bounds z
  have quotient : ∀ k, (yearOfEra (dayOfEra z)).tdiv k = yearOfEra (dayOfEra z) / k :=
    fun k => Int.tdiv_eq_ediv_of_nonneg bounds.1
  unfold dayOfYearChecked dayOfYear
  simp (disch := omega) only [Option.bind_eq_bind, quotient, i64_eq, Option.bind_some]

theorem monthOfYearChecked_eq : monthOfYearChecked (dayOfYear z) = some (monthOfYear z) := by
  have low := (dayOfYear_bounds z).1
  have high := dayOfYear_le z
  have numerator : 0 ≤ 5 * dayOfYear z + 2 := by omega
  unfold monthOfYearChecked monthOfYear
  simp (disch := omega) only [Option.bind_eq_bind, i64_eq, Option.bind_some]
  exact congrArg some (Int.tdiv_eq_ediv_of_nonneg numerator)

theorem dayChecked_eq : dayChecked (dayOfYear z) (monthOfYear z) = some (day z) := by
  have low := (dayOfYear_bounds z).1
  have high := dayOfYear_le z
  have month := monthOfYear_bounds z
  have quotient : (153 * monthOfYear z + 2).tdiv 5 = (153 * monthOfYear z + 2) / 5 :=
    Int.tdiv_eq_ediv_of_nonneg (by omega)
  unfold dayChecked day
  simp (disch := omega) only [Option.bind_eq_bind, quotient, i64_eq, Option.bind_some]

theorem monthChecked_eq : monthChecked (monthOfYear z) = some (month z) := by
  have bounds := monthOfYear_bounds z
  unfold monthChecked month
  split
  · exact i64_eq (by omega) (by omega)
  · exact i64_eq (by omega) (by omega)

theorem yearChecked_eq (low : 0 ≤ era z) (high : era z < 2 ^ 48) :
    yearChecked (yearOfEra (dayOfEra z)) (era z) (month z) = some (year z) := by
  have bounds := year_bounds z
  unfold yearChecked year
  simp (disch := omega) only [Option.bind_eq_bind, i64_eq, Option.bind_some]

end Fits

/-- No operation overflows. -/
theorem civilChecked_eq (secs : UInt64) : civilChecked secs = some (civil secs.toNat) := by
  have size := secs.toNat_lt
  have quotient : (secs / 86400).toNat = secs.toNat / 86400 := rfl
  have remainder : (secs % 86400).toNat = secs.toNat % 86400 := rfl
  unfold civilChecked
  rw [quotient, remainder, asI64_eq (by omega), civil_eq]
  obtain ⟨days, low, high, hdays⟩ : ∃ days : Int, 0 ≤ days ∧ days < 2 ^ 48 ∧
      ((secs.toNat / 86400 : Nat) : Int) = days := ⟨_, by omega, by omega, rfl⟩
  have euclid : (days + 719468).ediv 146097 = era (days + 719468) := (era_eq _).symm
  have era_bounds : 0 ≤ era (days + 719468) ∧ era (days + 719468) < 2 ^ 48 := by
    rw [era_eq]
    omega
  have day : days + 719468 - era (days + 719468) * 146097 = dayOfEra (days + 719468) := rfl
  have day_bounds := dayOfEra_bounds (days + 719468)
  simp (disch := omega) only [hdays, Option.bind_eq_bind, i64_eq, Option.bind_some, euclid, day]
  rw [yearOfEraChecked_eq day_bounds.1 day_bounds.2, Option.bind_some, dayOfYearChecked_eq,
    Option.bind_some, monthOfYearChecked_eq, Option.bind_some, dayChecked_eq, Option.bind_some,
    monthChecked_eq, Option.bind_some, yearChecked_eq _ era_bounds.1 era_bounds.2,
    Option.bind_some]
  rfl

/-! ### Reading the date back -/

/-- Numbers with the marks between them. -/
def readNumbers : List Char → List Char → Option (List Nat)
  | [], s =>
      if s ≠ [] ∧ s.all Char.isDigit = true then some [Nat.ofDigitChars 10 s 0] else none
  | mark :: marks, s =>
      match s.takeWhile Char.isDigit, s.dropWhile Char.isDigit with
      | c :: ds, c' :: rest =>
          if c' = mark then
            (readNumbers marks rest).map fun ns => Nat.ofDigitChars 10 (c :: ds) 0 :: ns
          else none
      | _, _ => none

/-- A text as date and time, if they are in the calendar. -/
def readCivil (s : String) : Option (Date × Time) :=
  match readNumbers ['-', '-', ' ', ':', ':'] s.toList with
  | some [y, m, d, hour, minute, second] => do
      return (← Date.ofNumbers? y m d, ← Time.ofNumbers? hour minute second)
  | _ => none

/-- Digits that stand for a number. -/
structure Numeral (ds : List Char) (n : Nat) : Prop where
  some_digit : ds ≠ []
  digits : ∀ c ∈ ds, c.isDigit = true
  value : Nat.ofDigitChars 10 ds 0 = n

theorem numeral_padded (width n : Nat) : Numeral (padded width n) n where
  some_digit := List.append_ne_nil_of_right_ne_nil _ Nat.toDigits_ne_nil
  digits := by
    intro c hc
    rcases List.mem_append.mp hc with hc | hc
    · rw [List.eq_of_mem_replicate hc]
      rfl
    · exact Codes.isDigit_toDigits hc
  value := by
    have text : padded width n =
      List.replicate (width - (Nat.toDigits 10 n).length) '0' ++ Nat.toDigits 10 n := rfl
    rw [text, Nat.ofDigitChars_append, Nat.ofDigitChars_replicate_zero, Nat.mul_zero,
      Nat.ofDigitChars_ten_toDigits]

theorem readNumbers_last {ds : List Char} {n : Nat} (h : Numeral ds n) :
    readNumbers [] ds = some [n] := by
  have digits : ds.all Char.isDigit = true := List.all_eq_true.mpr h.digits
  rw [readNumbers, if_pos ⟨h.some_digit, digits⟩, h.value]

theorem readNumbers_mark {ds rest : List Char} {n : Nat} {mark : Char} {marks : List Char}
    (h : Numeral ds n) (other : mark.isDigit = false) :
    readNumbers (mark :: marks) (ds ++ mark :: rest) = (readNumbers marks rest).map (n :: ·) := by
  have front : (ds ++ mark :: rest).takeWhile Char.isDigit = ds := by
    rw [List.takeWhile_append_of_pos h.digits]
    simp [other]
  have behind : (ds ++ mark :: rest).dropWhile Char.isDigit = mark :: rest := by
    rw [List.dropWhile_append_of_pos h.digits]
    simp [other]
  obtain ⟨c, ds', hds⟩ := List.exists_cons_of_ne_nil h.some_digit
  rw [readNumbers, front, behind, hds]
  dsimp only
  rw [if_pos rfl, ← hds, h.value]

theorem readCivil_dateText (d : Date) (t : Time) (low : 0 ≤ d.year) :
    readCivil (dateText d t) = some (d, t) := by
  obtain ⟨y, year⟩ := Int.eq_ofNat_of_zero_le low
  obtain ⟨m, month⟩ := Int.eq_ofNat_of_zero_le (Int.le_trans (by decide) d.one_le_month)
  obtain ⟨day, hday⟩ := Int.eq_ofNat_of_zero_le (Int.le_trans (by decide) d.one_le_day)
  have numbers : readNumbers ['-', '-', ' ', ':', ':'] (dateText d t).toList =
      some [y, m, day, t.hour, t.minute, t.second] := by
    rw [dateText, String.toList_ofList, year, month, hday]
    simp only [List.append_assoc, List.cons_append]
    rw [readNumbers_mark (numeral_padded 4 y) rfl, readNumbers_mark (numeral_padded 2 m) rfl,
      readNumbers_mark (numeral_padded 2 day) rfl, readNumbers_mark (numeral_padded 2 t.hour) rfl,
      readNumbers_mark (numeral_padded 2 t.minute) rfl,
      readNumbers_last (numeral_padded 2 t.second)]
    rfl
  unfold readCivil
  rw [numbers]
  dsimp only
  rw [← year, ← month, ← hday, Date.ofNumbers?_self, Time.ofNumbers?_self]
  rfl

theorem year_dateOf_nonneg {days : Int} (h : 0 ≤ days) : 0 ≤ (dateOf days).year := by
  have years := year_bounds (days + 719468)
  have eras : 0 ≤ era (days + 719468) := by
    rw [era_eq]
    omega
  change 0 ≤ year (days + 719468)
  unfold year
  omega

/-- The date is counted from the first of January 1970, a day for each 86400 seconds. -/
theorem dateOf_eq_iterate (days : Nat) : dateOf days = Date.next^[days] epoch :=
  (dateOf days).eq_iterate_epoch (number_dateOf days)

/-- **The date of a line is right.**  No operation overflows; the text is a date of the
    calendar and a time of the day, and these are the seconds again. -/
theorem civil_reads_back (secs : UInt64) :
    civilChecked secs = some (civil secs.toNat) ∧
      ∃ (d : Date) (t : Time), readCivil (civil secs.toNat) = some (d, t) ∧
        unixSeconds d t = secs.toNat := by
  refine ⟨civilChecked_eq secs, dateOf (secs.toNat / 86400 : Nat),
    timeOf (secs.toNat % 86400) (Nat.mod_lt _ (by decide)), ?_, ?_⟩
  · rw [civil_eq]
    exact readCivil_dateText _ _ (year_dateOf_nonneg (Int.natCast_nonneg _))
  · rw [unixSeconds, number_dateOf, seconds_timeOf]
    omega

example : civilChecked (2 ^ 64 - 1) = some "584554051223-11-09 07:00:15" := by decide +kernel

end Record

end Datad
