import Mathlib.Tactic.SplitIfs

/-!
# Core.Calendar

The proleptic Gregorian calendar of Python's `datetime`, in day numbers: day 0 is 1970-01-01.

* `Month.days_bounds`: a month has 28 to 31 days.
-/

namespace PerpCarry

/-- `calendar.isleap`. -/
def isLeap (year : Int) : Bool := year % 4 = 0 ∧ (year % 100 ≠ 0 ∨ year % 400 = 0)

/-- `calendar.monthrange(year, month)[1]`. -/
def monthDays (year month : Int) : Int :=
  if month = 2 then (if isLeap year then 29 else 28)
  else if month = 4 ∨ month = 6 ∨ month = 9 ∨ month = 11 then 30
  else 31

/-- `date(year, 1, 1).toordinal() - date(1970, 1, 1).toordinal()`. -/
def yearStart (year : Int) : Int :=
  let before := year - 1
  before * 365 + before / 4 - before / 100 + before / 400 - 719162

/-- The days of a year before one of its months. -/
def daysBefore (year : Int) : Nat → Int
  | 0 => 0
  | 1 => 0
  | month + 2 => daysBefore year (month + 1) + monthDays year (month + 1)

/-- Two digits. -/
def twoDigits (n : Nat) : String := (if n < 10 then "0" else "") ++ n.repr

/-- The year, the month and the day of a day number. Years are counted from March here, so that the
leap day is the last one. -/
def civil (day : Int) : Int × Nat × Nat :=
  let shifted := day + 719468
  let dayOfEra := shifted % 146097
  let yearOfEra := (dayOfEra - dayOfEra / 1460 + dayOfEra / 36524 - dayOfEra / 146096) / 365
  let dayOfYear := dayOfEra - (365 * yearOfEra + yearOfEra / 4 - yearOfEra / 100)
  let shiftedMonth := (5 * dayOfYear + 2) / 153
  let month := if shiftedMonth < 10 then shiftedMonth + 3 else shiftedMonth - 9
  let year := yearOfEra + shifted / 146097 * 400 + if month ≤ 2 then 1 else 0
  (year, month.toNat, (dayOfYear - (153 * shiftedMonth + 2) / 5 + 1).toNat)

/-- `date.isoformat()`. -/
def isoDate (day : Int) : String :=
  let (year, month, date) := civil day
  year.toNat.repr ++ "-" ++ twoDigits month ++ "-" ++ twoDigits date

example : isoDate 20634 = "2026-06-30" := by decide
example : isoDate 19782 = "2024-02-29" := by decide

/-- A calendar month whose end is a `datetime` too. -/
structure Month where
  year : Nat
  month : Nat
  valid : 1 ≤ year ∧ year ≤ 9999 ∧ 1 ≤ month ∧ month ≤ 12 ∧ (year = 9999 → month ≠ 12)
  deriving DecidableEq

namespace Month

/-- `month.strftime("%Y-%m")`. -/
def text (self : Month) : String := self.year.repr ++ "-" ++ twoDigits self.month

def days (self : Month) : Int := monthDays self.year self.month

def firstDay (self : Month) : Int := yearStart self.year + daysBefore self.year self.month

/-- `month_bounds`: the epoch milliseconds of the first day, and of the day after the last. -/
def bounds (self : Month) : Int × Int :=
  (self.firstDay * 86400000, (self.firstDay + self.days) * 86400000)

theorem days_bounds (month : Month) : 28 ≤ month.days ∧ month.days ≤ 31 := by
  unfold days monthDays
  split_ifs
  all_goals omega

theorem bounds_snd (month : Month) : month.bounds.2 = month.bounds.1 + month.days * 86400000 := by
  unfold bounds
  exact Int.add_mul ..

end Month

example : (⟨2026, 6, by decide⟩ : Month).bounds = (1780272000000, 1782864000000) := by decide
example : (⟨2024, 2, by decide⟩ : Month).days = 29 := by decide
example : (⟨2024, 3, by decide⟩ : Month).firstDay * 86400 = 1709251200 := by decide

end PerpCarry
