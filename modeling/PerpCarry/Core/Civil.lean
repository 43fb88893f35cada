import Mathlib.Tactic.IntervalCases
import PerpCarry.Core.Months

/-!
# Core.Civil

The calendar date of a day number is the right one.

* `civil_eq`: the date whose days are counted is found again.
* `civil_spec`: every day number is that of a date.
-/

namespace PerpCarry

/-- The days before a date, from day 0 on. -/
def dayNumber (year : Int) (month day : Nat) : Int :=
  yearStart year + daysBefore year month + (day - 1)

/-- A month of the calendar and one of its days. -/
structure IsDate (year : Int) (month day : Nat) : Prop where
  month_range : 1 ≤ month ∧ month ≤ 12
  day_range : 1 ≤ day ∧ day ≤ monthDays year month

/-- The days of a year of the March calendar before one of its months. -/
theorem marchDays {era yearOfEra dayOfYear : Int} (hyear : 0 ≤ yearOfEra ∧ yearOfEra ≤ 399)
    (hday : 0 ≤ dayOfYear ∧ dayOfYear ≤ 365)
    (hleap : dayOfYear = 365 → isLeap (yearOfEra + era * 400 + 1) = true) {dayOfEra : Int}
    (hdays : dayOfEra = 365 * yearOfEra + yearOfEra / 4 - yearOfEra / 100 + dayOfYear) :
    (0 ≤ dayOfEra ∧ dayOfEra < 146097) ∧
      (dayOfEra - dayOfEra / 1460 + dayOfEra / 36524 - dayOfEra / 146096) / 365 = yearOfEra := by
  have hfour : dayOfYear = 365 → (yearOfEra + 1) % 4 = 0 ∧
      ((yearOfEra + 1) % 100 ≠ 0 ∨ (yearOfEra + 1) % 400 = 0) := by
    intro h
    have := hleap h
    simp only [isLeap, decide_eq_true_eq] at this
    omega
  -- a century, a leap cycle of it, and a year of that
  obtain ⟨c, q, s, hc, hq, hs, rfl⟩ : ∃ c q s : Int, (0 ≤ c ∧ c ≤ 3) ∧ (0 ≤ q ∧ q ≤ 24) ∧
      (0 ≤ s ∧ s ≤ 3) ∧ yearOfEra = 100 * c + 4 * q + s :=
    ⟨yearOfEra / 100, yearOfEra % 100 / 4, yearOfEra % 4, by omega, by omega, by omega, by omega⟩
  have hsum : dayOfEra = 36524 * c + 1461 * q + 365 * s + dayOfYear := by omega
  have hlast : dayOfYear = 365 → s = 3 := by omega
  have hcentury : dayOfYear = 365 → q = 24 → c = 3 := by omega
  refine ⟨by omega, ?_⟩
  clear hleap hfour hyear hdays
  by_cases hend : c = 3 ∧ q = 24 ∧ s = 3 ∧ dayOfYear = 365
  · obtain ⟨rfl, rfl, rfl, rfl⟩ := hend
    rw [hsum]
    decide
  · have hera : dayOfEra / 146096 = 0 := by omega
    have hcenturies : dayOfEra / 36524 = c := by omega
    obtain ⟨t, hcycles, hday⟩ : ∃ t : Int, dayOfEra / 1460 = 25 * c + q + t ∧
        0 ≤ dayOfYear - t ∧ dayOfYear - t ≤ 364 :=
      ⟨dayOfEra / 1460 - 25 * c - q, by omega, by omega⟩
    rw [hera, hcenturies, hcycles]
    omega

/-! ## Years from March on -/

def marchYear (year : Int) (month : Nat) : Int := if month ≤ 2 then year - 1 else year

def marchMonth (month : Nat) : Int := if month ≤ 2 then month + 9 else month - 3

/-- The days since the first of March. -/
def marchDay (month day : Nat) : Int := (153 * marchMonth month + 2) / 5 + (day - 1)

section Date

variable {year : Int} {month day : Nat}

theorem dayNumber_march (hmonth : 1 ≤ month ∧ month ≤ 12) : dayNumber year month day =
    yearStart (marchYear year month + 1) - 306 + marchDay month day := by
  have hnext := Month.yearStart_succ year
  unfold dayNumber marchYear marchDay marchMonth
  obtain ⟨hlow, hhigh⟩ := hmonth
  cases hleap : isLeap year with
  | true =>
    rw [hleap] at hnext
    interval_cases month
    all_goals simp [daysBefore, monthDays, hleap] at hnext ⊢; omega
  | false =>
    rw [hleap] at hnext
    interval_cases month
    all_goals simp [daysBefore, monthDays, hleap] at hnext ⊢; omega

/-- A day of a month, as one of its year from March on. -/
theorem marchDay_bounds (hmonth : 1 ≤ month ∧ month ≤ 12)
    (hday : 1 ≤ day ∧ day ≤ monthDays year month) :
    (0 ≤ marchDay month day ∧ marchDay month day ≤ 365) ∧
      (marchDay month day = 365 → isLeap (marchYear year month + 1) = true) ∧
      (5 * marchDay month day + 2) / 153 = marchMonth month := by
  unfold marchDay marchMonth marchYear
  obtain ⟨hlow, hhigh⟩ := hmonth
  cases hleap : isLeap year with
  | true =>
    interval_cases month
    all_goals simp [monthDays, hleap] at hday ⊢; omega
  | false =>
    interval_cases month
    all_goals simp [monthDays, hleap] at hday ⊢; omega

theorem civil_eq (h : IsDate year month day) :
    civil (dayNumber year month day) = (year, month, day) := by
  obtain ⟨hmonth, hday⟩ := h
  obtain ⟨hbounds, hleap, hshifted⟩ := marchDay_bounds hmonth hday
  have hnumber : dayNumber year month day = yearStart (marchYear year month + 1) - 306 +
      marchDay month day := dayNumber_march hmonth
  have hyear : marchYear year month =
      marchYear year month % 400 + marchYear year month / 400 * 400 := by omega
  rw [hyear] at hleap
  obtain ⟨hera, hyearOfEra⟩ := marchDays ⟨by omega, by omega⟩ hbounds hleap rfl
  generalize hdayOfEra : 365 * (marchYear year month % 400) + marchYear year month % 400 / 4 -
    marchYear year month % 400 / 100 + marchDay month day = dayOfEra at hera hyearOfEra
  have hshift : dayNumber year month day + 719468 =
      marchYear year month / 400 * 146097 + dayOfEra := by
    have hcycles : marchYear year month / 4 =
        marchYear year month / 400 * 100 + marchYear year month % 400 / 4 := by omega
    have hcenturies : marchYear year month / 100 =
        marchYear year month / 400 * 4 + marchYear year month % 400 / 100 := by omega
    rw [hnumber, ← hdayOfEra, yearStart, add_sub_cancel_right, hcycles, hcenturies]
    omega
  have hdiv : (dayNumber year month day + 719468) / 146097 = marchYear year month / 400 := by omega
  have hmod : (dayNumber year month day + 719468) % 146097 = dayOfEra := by omega
  have hdayOfYear : dayOfEra - (365 * (marchYear year month % 400) +
      marchYear year month % 400 / 4 - marchYear year month % 400 / 100) =
      marchDay month day := by omega
  unfold civil
  dsimp only
  rw [hdiv, hmod, hyearOfEra, hdayOfYear, hshifted]
  unfold marchDay marchMonth marchYear
  split_ifs
  all_goals simp only [Prod.mk.injEq]
  all_goals omega

end Date

/-! ## Every day -/

theorem monthDays_bounds (year month : Int) : 28 ≤ monthDays year month ∧
    monthDays year month ≤ 31 := by
  unfold monthDays
  split_ifs
  all_goals omega

theorem daysBefore_succ {year : Int} {month : Nat} (h : 1 ≤ month) :
    daysBefore year (month + 1) = daysBefore year month + monthDays year month := by
  obtain ⟨m, rfl⟩ : ∃ m, month = m + 1 := ⟨month - 1, by omega⟩
  simp [daysBefore]

theorem dayNumber_newYear (year : Int) :
    dayNumber (year + 1) 1 1 = dayNumber year 12 31 + 1 := by
  have hnext := Month.yearStart_succ year
  have hdecember := Month.daysBefore_december year
  unfold dayNumber
  rw [hnext, hdecember]
  simp only [daysBefore]
  omega

theorem monthDays_december (year : Int) : monthDays year (12 : Nat) = 31 := by simp [monthDays]

theorem IsDate.next {year : Int} {month day : Nat} (h : IsDate year month day) :
    ∃ year' month' day', IsDate year' month' day' ∧
      dayNumber year' month' day' = dayNumber year month day + 1 := by
  obtain ⟨hmonth, hday⟩ := h
  by_cases hlast : (day : Int) < monthDays year month
  · refine ⟨year, month, day + 1, ⟨hmonth, by omega⟩, ?_⟩
    unfold dayNumber
    omega
  · by_cases hdecember : month < 12
    · have hdays := monthDays_bounds year (month + 1 : Nat)
      refine ⟨year, month + 1, 1, ⟨by omega, by omega⟩, ?_⟩
      unfold dayNumber
      rw [daysBefore_succ hmonth.1]
      omega
    · obtain rfl : month = 12 := by omega
      have hdays := monthDays_december year
      obtain rfl : day = 31 := by omega
      exact ⟨year + 1, 1, 1, ⟨by decide, by simp [monthDays]⟩, dayNumber_newYear year⟩

theorem IsDate.previous {year : Int} {month day : Nat} (h : IsDate year month day) :
    ∃ year' month' day', IsDate year' month' day' ∧
      dayNumber year' month' day' = dayNumber year month day - 1 := by
  obtain ⟨hmonth, hday⟩ := h
  by_cases hfirst : 1 < day
  · refine ⟨year, month, day - 1, ⟨hmonth, by omega⟩, ?_⟩
    unfold dayNumber
    omega
  · obtain rfl : day = 1 := by omega
    by_cases hjanuary : 1 < month
    · obtain ⟨m, rfl⟩ : ∃ m, month = m + 1 := ⟨month - 1, by omega⟩
      have hdays := monthDays_bounds year m
      refine ⟨year, m, (monthDays year m).toNat, ⟨by omega, by omega⟩, ?_⟩
      unfold dayNumber
      rw [daysBefore_succ (by omega)]
      omega
    · obtain rfl : month = 1 := by omega
      have hnew := dayNumber_newYear (year - 1)
      rw [sub_add_cancel] at hnew
      exact ⟨year - 1, 12, 31, ⟨by decide, by simp [monthDays]⟩, by omega⟩

theorem civil_spec (n : Int) : ∃ year month day, IsDate year month day ∧
    dayNumber year month day = n ∧ civil n = (year, month, day) := by
  have hdate : ∃ year month day, IsDate year month day ∧ dayNumber year month day = n := by
    induction n using Int.induction_on with
    | zero => exact ⟨1970, 1, 1, ⟨by decide, by decide⟩, by decide⟩
    | succ n ih =>
      obtain ⟨year, month, day, hdate, hn⟩ := ih
      obtain ⟨year', month', day', hdate', hn'⟩ := hdate.next
      exact ⟨year', month', day', hdate', by omega⟩
    | pred n ih =>
      obtain ⟨year, month, day, hdate, hn⟩ := ih
      obtain ⟨year', month', day', hdate', hn'⟩ := hdate.previous
      exact ⟨year', month', day', hdate', by omega⟩
  obtain ⟨year, month, day, hdate, rfl⟩ := hdate
  exact ⟨year, month, day, hdate, rfl, civil_eq hdate⟩

end PerpCarry
