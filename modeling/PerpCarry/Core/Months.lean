import Mathlib.Data.List.Infix
import Mathlib.Tactic.Ring
import PerpCarry.Core.Calendar
import PerpCarry.Lib.Delimited

/-!
# Core.Months

The months of a span of dates: `months_between` of `python/perpcarry/ingestion/calendar.py`.

* `mem_monthsBetween`, `monthsBetween_sorted`: every month of the span, once and in order.
* `bounds_next`: the months tile time, each ends where the next one starts.
* `dated_unique`: a date text belongs to at most one month.
* `dated_lt`: with years of four digits, the date texts of an earlier month come first.
-/

namespace PerpCarry

namespace Month

/-- The months since the year 0. -/
def index (self : Month) : Nat := self.year * 12 + (self.month - 1)

/-- `(cursor.replace(day=28) + dt.timedelta(days=4)).replace(day=1)`, if it is a `Month`. -/
def next (self : Month) : Option Month :=
  let (year, month) := if self.month < 12 then (self.year, self.month + 1) else (self.year + 1, 1)
  if valid : 1 ≤ year ∧ year ≤ 9999 ∧ 1 ≤ month ∧ month ≤ 12 ∧ (year = 9999 → month ≠ 12) then
    some ⟨year, month, valid⟩
  else none

theorem index_inj {m m' : Month} (h : m.index = m'.index) : m = m' := by
  obtain ⟨year, month, valid⟩ := m
  obtain ⟨year', month', valid'⟩ := m'
  simp only [index] at h
  obtain rfl : year = year' := by omega
  obtain rfl : month = month' := by omega
  rfl

theorem next_index {m m' : Month} (h : m.next = some m') : m'.index = m.index + 1 := by
  have hvalid := m.valid
  unfold next at h
  by_cases hmonth : m.month < 12
  · rw [if_pos hmonth] at h
    dsimp only at h
    split at h
    · cases h
      simp only [index]
      omega
    · cases h
  · rw [if_neg hmonth] at h
    dsimp only at h
    split at h
    · cases h
      simp only [index]
      omega
    · cases h

/-- Only the last of the months has none after it. -/
theorem next_some {m m' : Month} (h : m.index < m'.index) : ∃ n, m.next = some n := by
  have hvalid := m.valid
  have hvalid' := m'.valid
  simp only [index] at h
  unfold next
  by_cases hmonth : m.month < 12
  · rw [if_pos hmonth]
    exact ⟨_, dif_pos (by omega)⟩
  · rw [if_neg hmonth]
    exact ⟨_, dif_pos (by omega)⟩

/-- The months from `cursor` on, at most `count` of them. -/
def monthsFrom : Nat → Month → List Month
  | 0, _ => []
  | count + 1, cursor => cursor ::
    match cursor.next with
    | some following => monthsFrom count following
    | none => []

/-- `months_between`, of two dates by their months. -/
def monthsBetween (start last : Month) : List Month := monthsFrom (last.index + 1 - start.index) start

theorem mem_monthsFrom {count : Nat} {cursor m : Month} :
    m ∈ monthsFrom count cursor ↔ cursor.index ≤ m.index ∧ m.index < cursor.index + count := by
  induction count generalizing cursor with
  | zero =>
    simp only [monthsFrom, List.not_mem_nil, false_iff]
    omega
  | succ count ih =>
    rw [monthsFrom, List.mem_cons]
    constructor
    · rintro (rfl | hm)
      · omega
      · cases hnext : cursor.next with
        | none =>
          rw [hnext] at hm
          cases hm
        | some following =>
          rw [hnext, ih, next_index hnext] at hm
          omega
    · intro hm
      rcases Nat.lt_or_ge cursor.index m.index with hlt | hle
      · obtain ⟨following, hnext⟩ := next_some hlt
        rw [hnext, ih, next_index hnext]
        exact .inr (by omega)
      · exact .inl (index_inj (by omega))

theorem mem_monthsBetween {start last m : Month} :
    m ∈ monthsBetween start last ↔ start.index ≤ m.index ∧ m.index ≤ last.index := by
  unfold monthsBetween
  rw [mem_monthsFrom]
  omega

theorem monthsFrom_sorted (count : Nat) (cursor : Month) :
    (monthsFrom count cursor).Pairwise fun a b => a.index < b.index := by
  induction count generalizing cursor with
  | zero => exact List.Pairwise.nil
  | succ count ih =>
    rw [monthsFrom, List.pairwise_cons]
    cases hnext : cursor.next with
    | none => exact ⟨nofun, List.Pairwise.nil⟩
    | some following =>
      refine ⟨fun m hm => ?_, ih following⟩
      have := (mem_monthsFrom.mp hm).1
      rw [next_index hnext] at this
      omega

theorem monthsBetween_sorted (start last : Month) :
    (monthsBetween start last).Pairwise fun a b => a.index < b.index := monthsFrom_sorted _ _

theorem daysBefore_december (year : Int) :
    daysBefore year 12 = 334 + if isLeap year then 1 else 0 := by
  cases h : isLeap year with
  | true => simp [daysBefore, monthDays, h]
  | false => simp [daysBefore, monthDays, h]

theorem yearStart_succ (year : Int) :
    yearStart (year + 1) = yearStart year + 365 + if isLeap year then 1 else 0 := by
  have hfour : year / 4 = (year - 1) / 4 + if year % 4 = 0 then 1 else 0 := by split_ifs <;> omega
  have hcentury : year / 100 = (year - 1) / 100 + if year % 100 = 0 then 1 else 0 := by
    split_ifs <;> omega
  have hcycle : year / 400 = (year - 1) / 400 + if year % 400 = 0 then 1 else 0 := by
    split_ifs <;> omega
  have hleap : (if isLeap year then 1 else 0 : Int) = (if year % 4 = 0 then 1 else 0) -
      (if year % 100 = 0 then 1 else 0) + if year % 400 = 0 then 1 else 0 := by
    by_cases h4 : year % 4 = 0
    · by_cases h100 : year % 100 = 0
      · by_cases h400 : year % 400 = 0
        · simp [isLeap, h4, h100, h400]
        · simp [isLeap, h4, h100, h400]
      · have h400 : ¬ year % 400 = 0 := by omega
        simp [isLeap, h4, h100, h400]
    · have h100 : ¬ year % 100 = 0 := by omega
      have h400 : ¬ year % 400 = 0 := by omega
      simp [isLeap, h4, h100, h400]
  unfold yearStart
  dsimp only
  rw [hleap, show year + 1 - 1 = year by omega, hfour, hcentury, hcycle]
  ring

/-- A month ends where the next one starts. -/
theorem bounds_next {m m' : Month} (h : m.next = some m') : m'.bounds.1 = m.bounds.2 := by
  have hvalid := m.valid
  have hfirst : m'.firstDay = m.firstDay + m.days := by
    unfold next at h
    by_cases hmonth : m.month < 12
    · rw [if_pos hmonth] at h
      dsimp only at h
      split at h
      · cases h
        obtain ⟨k, hk⟩ : ∃ k, m.month = k + 1 := ⟨m.month - 1, by omega⟩
        simp only [firstDay, days, hk]
        rw [show daysBefore m.year (k + 1 + 1) = daysBefore m.year (k + 1) +
          monthDays m.year (k + 1) from rfl]
        push_cast
        ring
      · cases h
    · rw [if_neg hmonth] at h
      dsimp only at h
      split at h
      · cases h
        obtain hmonth : m.month = 12 := by omega
        simp only [firstDay, days, hmonth, daysBefore_december]
        push_cast
        have hdecember : monthDays m.year 12 = 31 := by simp [monthDays]
        rw [yearStart_succ, hdecember]
        simp only [daysBefore]
        ring
      · cases h
  rw [bounds, bounds, hfirst]

/-! ## Texts -/

theorem repr_injective {a b : Nat} (h : a.repr = b.repr) : a = b := by
  have hdigits : Nat.toDigits 10 a = Nat.toDigits 10 b := by
    rw [← Nat.toList_repr, ← Nat.toList_repr, h]
  rw [← Nat.ofDigitChars_ten_toDigits (n := a), hdigits, Nat.ofDigitChars_ten_toDigits]

theorem hyphen_not_mem (n : Nat) : '-' ∉ n.repr.toList := by
  intro h
  rw [Nat.toList_repr] at h
  have := Nat.isDigit_of_mem_toDigits (by decide) (by decide) h
  cases this

theorem twoDigits_read (n : Nat) (h : n < 100) : (twoDigits n).toList.length = 2 ∧
    Nat.ofDigitChars 10 (twoDigits n).toList 0 = n := by
  have hshort : ∀ k, 0 < k → ((Nat.toDigits 10 n).length ≤ k ↔ n < 10 ^ k) := fun k hk =>
    Nat.length_toDigits_le_iff (by decide) hk
  have hone := hshort 1 (by decide)
  have htwo := hshort 2 (by decide)
  have hpos : 0 < (Nat.toDigits 10 n).length := List.length_pos_of_ne_nil Nat.toDigits_ne_nil
  rw [twoDigits, String.toList_append, Nat.toList_repr, List.length_append]
  by_cases hdigit : n < 10
  · have hzero : ("0" : String).toList = ['0'] := rfl
    rw [if_pos hdigit, hzero]
    refine ⟨?_, Nat.ofDigitChars_ten_toDigits⟩
    rw [List.length_singleton]
    omega
  · rw [if_neg hdigit]
    refine ⟨?_, Nat.ofDigitChars_ten_toDigits⟩
    have hnone : ("" : String).toList.length = 0 := rfl
    omega

/-- A date text starts with at most one month. -/
theorem dated_unique {m m' : Month} {date : List Char} (h : m.text.toList <+: date)
    (h' : m'.text.toList <+: date) : m = m' := by
  obtain ⟨tail, rfl⟩ := h
  obtain ⟨tail', htail⟩ := h'
  have hvalid := m.valid
  have hvalid' := m'.valid
  have hparts : ∀ n : Month, ∀ rest : List Char, n.text.toList ++ rest =
      n.year.repr.toList ++ '-' :: ((twoDigits n.month).toList ++ rest) := by
    intro n rest
    simp [text]
  rw [hparts, hparts] at htail
  obtain ⟨hyear, hrest⟩ := Lib.delimited_inj (hyphen_not_mem _) (hyphen_not_mem _) htail
  obtain ⟨hlength, hread⟩ := twoDigits_read m.month (by omega)
  obtain ⟨hlength', hread'⟩ := twoDigits_read m'.month (by omega)
  have hmonth : (twoDigits m'.month).toList = (twoDigits m.month).toList :=
    (List.append_inj hrest (hlength'.trans hlength.symm)).1
  have hsame : m.month = m'.month := by
    rw [← hread, ← hread', hmonth]
  have hyears : m'.year = m.year := repr_injective (String.toList_inj.mp hyear)
  refine index_inj ?_
  simp only [index, hsame, hyears]

/-! ### Their order -/

section Digits

variable {xs ys : List Char} {a b : Nat}

theorem digit_le {c : Char} (h : c.isDigit = true) : c.toNat - '0'.toNat ≤ 9 := by
  obtain ⟨_, hle⟩ := Char.isDigit_iff_toNat.mp h
  have hzero : '0'.toNat = 48 := rfl
  have hnine : '9'.toNat = 57 := rfl
  omega

theorem ofDigitChars_lt (hlength : xs.length = ys.length) (hxs : ∀ c ∈ xs, c.isDigit = true)
    (h : a < b) : Nat.ofDigitChars 10 xs a < Nat.ofDigitChars 10 ys b := by
  induction xs generalizing ys a b with
  | nil =>
    cases ys with
    | nil => exact h
    | cons d ys => cases hlength
  | cons c xs ih =>
    cases ys with
    | nil => cases hlength
    | cons d ys =>
      have hc := digit_le (hxs c List.mem_cons_self)
      rw [Nat.ofDigitChars_cons, Nat.ofDigitChars_cons]
      exact ih (Nat.succ.inj hlength) (fun c hc => hxs c (List.mem_cons_of_mem _ hc)) (by omega)

theorem digits_lt (hlength : xs.length = ys.length) (hxs : ∀ c ∈ xs, c.isDigit = true)
    (hys : ∀ c ∈ ys, c.isDigit = true)
    (h : Nat.ofDigitChars 10 xs a < Nat.ofDigitChars 10 ys a) : xs < ys := by
  induction xs generalizing ys a with
  | nil =>
    cases ys with
    | nil => exact absurd h (Nat.lt_irrefl _)
    | cons d ys => cases hlength
  | cons c xs ih =>
    cases ys with
    | nil => cases hlength
    | cons d ys =>
      rw [Nat.ofDigitChars_cons, Nat.ofDigitChars_cons] at h
      have hrest : ∀ e ∈ xs, e.isDigit = true := fun e he => hxs e (List.mem_cons_of_mem _ he)
      have hrest' : ∀ e ∈ ys, e.isDigit = true := fun e he => hys e (List.mem_cons_of_mem _ he)
      rw [List.cons_lt_cons_iff]
      rcases Nat.lt_trichotomy c.toNat d.toNat with hlt | heq | hgt
      · exact .inl (hlt)
      · rw [heq] at h
        exact .inr ⟨Char.toNat_inj.mp heq, ih (Nat.succ.inj hlength) hrest hrest' h⟩
      · obtain ⟨hzero, _⟩ := Char.isDigit_iff_toNat.mp (hys d List.mem_cons_self)
        have hback := ofDigitChars_lt (Nat.succ.inj hlength).symm hrest'
          (show 10 * a + (d.toNat - '0'.toNat) < 10 * a + (c.toNat - '0'.toNat) by omega)
        exact absurd h (Nat.lt_asymm hback)

theorem append_lt {t t' : List Char} (hlength : xs.length = ys.length) (h : xs < ys) :
    xs ++ t < ys ++ t' := by
  induction xs generalizing ys with
  | nil =>
    cases ys with
    | nil => exact absurd h (List.lt_irrefl _)
    | cons d ys => cases hlength
  | cons c xs ih =>
    cases ys with
    | nil => cases hlength
    | cons d ys =>
      rw [List.cons_lt_cons_iff] at h
      rw [List.cons_append, List.cons_append, List.cons_lt_cons_iff]
      exact h.imp_right fun ⟨heq, hlt⟩ => ⟨heq, ih (Nat.succ.inj hlength) hlt⟩

theorem append_lt_append (front : List Char) (h : xs < ys) : front ++ xs < front ++ ys := by
  induction front with
  | nil => exact h
  | cons c front ih =>
    rw [List.cons_append, List.cons_append, List.cons_lt_cons_iff]
    exact .inr ⟨rfl, ih⟩

end Digits

theorem year_length {year : Nat} (h : 1000 ≤ year ∧ year ≤ 9999) :
    year.repr.toList.length = 4 := by
  rw [Nat.toList_repr]
  have hle := (Nat.length_toDigits_le_iff (n := year) (k := 4) (b := 10) (by decide)
    (by decide)).mpr (by omega)
  have hge := (Nat.length_toDigits_le_iff (n := year) (k := 3) (b := 10) (by decide)
    (by decide)).not.mpr (by omega)
  omega

theorem year_lt {year year' : Nat} (h : 1000 ≤ year ∧ year ≤ 9999)
    (h' : 1000 ≤ year' ∧ year' ≤ 9999) (hlt : year < year') :
    year.repr.toList < year'.repr.toList := by
  have hdigits : ∀ n : Nat, ∀ c ∈ n.repr.toList, c.isDigit = true := by
    intro n c hc
    rw [Nat.toList_repr] at hc
    exact Nat.isDigit_of_mem_toDigits (by decide) (by decide) hc
  refine digits_lt (a := 0) ((year_length h).trans (year_length h').symm) (hdigits _) (hdigits _) ?_
  rwa [Nat.toList_repr, Nat.toList_repr, Nat.ofDigitChars_ten_toDigits,
    Nat.ofDigitChars_ten_toDigits]

theorem twoDigits_digits {n : Nat} : ∀ c ∈ (twoDigits n).toList, c.isDigit = true := by
  intro c hc
  rw [twoDigits, String.toList_append, List.mem_append, Nat.toList_repr] at hc
  rcases hc with hc | hc
  · split at hc
    · rw [List.mem_singleton.mp hc]
      rfl
    · cases hc
  · exact Nat.isDigit_of_mem_toDigits (by decide) (by decide) hc

theorem twoDigits_lt : ∀ n < 100, ∀ m < 100, n < m →
    (twoDigits n).toList < (twoDigits m).toList := by
  intro n hn m hm hlt
  obtain ⟨hlength, hread⟩ := twoDigits_read n hn
  obtain ⟨hlength', hread'⟩ := twoDigits_read m hm
  refine digits_lt (a := 0) (hlength.trans hlength'.symm) twoDigits_digits twoDigits_digits ?_
  rwa [hread, hread']

/-- The date texts of an earlier month come before those of a later one. -/
theorem dated_lt {m m' : Month} {date date' : List Char} (hyear : 1000 ≤ m.year)
    (hlt : m.index < m'.index) (h : m.text.toList <+: date) (h' : m'.text.toList <+: date') :
    date < date' := by
  obtain ⟨tail, rfl⟩ := h
  obtain ⟨tail', rfl⟩ := h'
  have hvalid := m.valid
  have hvalid' := m'.valid
  simp only [index] at hlt
  have hparts : ∀ n : Month, ∀ rest : List Char, n.text.toList ++ rest =
      n.year.repr.toList ++ '-' :: ((twoDigits n.month).toList ++ rest) := by
    intro n rest
    simp [text]
  rw [hparts, hparts]
  rcases Nat.lt_or_ge m.year m'.year with hyears | hyears
  · have hbefore : 1000 ≤ m.year ∧ m.year ≤ 9999 := by omega
    have hafter : 1000 ≤ m'.year ∧ m'.year ≤ 9999 := by omega
    exact append_lt ((year_length hbefore).trans (year_length hafter).symm)
      (year_lt hbefore hafter hyears)
  · have hsame : m'.year = m.year := by omega
    have hlength := (twoDigits_read m.month (by omega)).1
    have hlength' := (twoDigits_read m'.month (by omega)).1
    rw [hsame]
    refine append_lt_append _ (List.cons_lt_cons_iff.mpr (.inr ⟨rfl, ?_⟩))
    exact append_lt (hlength.trans hlength'.symm)
      (twoDigits_lt _ (by omega) _ (by omega) (by omega))

end Month

end PerpCarry
