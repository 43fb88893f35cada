import Mathlib.Data.String.Basic
import PerpCarry.Core.Civil
import PerpCarry.Core.Months
import PerpCarry.Lib.Cursor

/-!
# Core.Dates

The dates of a span and their texts: `_dates_between` of
`python/perpcarry/ingestion/validate_data.py` and `free_tier_days` of
`python/perpcarry/ingestion/tardis_archive.py`.

* `mem_datesBetween`, `mem_firstDays`: every date of the span, and every first of a month in it.
* `text_lt`: the texts stand in the order of their dates.
* `ofOrdinal_some`, `isoDay_ordinal`: the date of a day number, and its text.
-/

namespace PerpCarry

/-- A `datetime.date` before December 9999. -/
structure Date where
  month : Month
  day : Nat
  valid : 1 ≤ day ∧ day ≤ month.days
  deriving DecidableEq

namespace Date

/-- Larger for a later date, with 31 places for each month. -/
def key (self : Date) : Nat := self.month.index * 31 + (self.day - 1)

/-- `month.replace(day=1)`. -/
def firstOf (month : Month) : Date :=
  ⟨month, 1, by have := month.days_bounds; omega⟩

theorem firstOf_key (month : Month) : (firstOf month).key = month.index * 31 := rfl

theorem day_le (date : Date) : 1 ≤ date.day ∧ date.day ≤ 31 := by
  have := date.valid
  have := date.month.days_bounds
  omega

theorem key_inj {d d' : Date} (h : d.key = d'.key) : d = d' := by
  have hday := d.day_le
  have hday' := d'.day_le
  unfold key at h
  have hmonth : d.month = d'.month := Month.index_inj (by omega)
  have hsame : d.day = d'.day := by rw [hmonth] at h; omega
  obtain ⟨month, day, valid⟩ := d
  obtain ⟨month', day', valid'⟩ := d'
  obtain rfl : month = month' := hmonth
  obtain rfl : day = day' := hsame
  rfl

/-- `cursor + dt.timedelta(days=1)`, if it is a `Date`. -/
def next (self : Date) : Option Date :=
  if h : self.day < self.month.days then
    some ⟨self.month, self.day + 1, by have := self.valid; omega⟩
  else self.month.next.map firstOf

theorem next_successor : Lib.Cursor.Successor key next := by
  constructor
  · intro d d' h
    unfold next at h
    split at h
    · cases h
      have := d.valid
      simp only [key]
      omega
    · obtain ⟨month, hmonth, rfl⟩ := Option.map_eq_some_iff.mp h
      have := d.day_le
      rw [firstOf_key, Month.next_index hmonth, key]
      omega
  · intro d d' e h hlt
    have hday := e.day_le
    have hwithin := e.valid
    unfold next at h
    split at h
    · cases h
      simp only [key] at hlt ⊢
      have := d.day_le
      omega
    · obtain ⟨month, hmonth, rfl⟩ := Option.map_eq_some_iff.mp h
      have hd := d.valid
      rw [firstOf_key, Month.next_index hmonth]
      simp only [key] at hlt ⊢
      -- a later date of the same month would be past its last day
      by_cases hsame : e.month = d.month
      · rw [hsame] at hwithin hlt
        omega
      · have hindex : e.month.index ≠ d.month.index := fun heq => hsame (Month.index_inj heq)
        have := d.day_le
        omega
  · intro d e h
    unfold next at h
    split at h
    · cases h
    · have hnone := Option.map_eq_none_iff.mp h
      have hd := d.valid
      have hday := d.day_le
      have hwithin := e.valid
      have he := e.day_le
      by_contra hlt
      simp only [key] at hlt
      by_cases hsame : e.month = d.month
      · rw [hsame] at hwithin hlt
        omega
      · have hindex : e.month.index ≠ d.month.index := fun heq => hsame (Month.index_inj heq)
        obtain ⟨month, hmonth⟩ :=
          Month.next_some (show d.month.index < e.month.index by omega)
        rw [hnone] at hmonth
        cases hmonth
  · exact key_inj

/-- `_dates_between`, as dates. -/
def datesBetween (start last : Date) : List Date :=
  Lib.Cursor.upTo key next last.key (last.key + 1 - start.key) start

theorem mem_datesBetween {start last d : Date} :
    d ∈ datesBetween start last ↔ start.key ≤ d.key ∧ d.key ≤ last.key := by
  unfold datesBetween
  rcases Nat.lt_or_ge last.key start.key with hlt | hle
  · have hnone : last.key + 1 - start.key = 0 := by omega
    rw [hnone]
    simp only [Lib.Cursor.upTo, List.not_mem_nil, false_iff]
    omega
  · exact Lib.Cursor.mem_upTo next_successor (by omega)

/-- The first of the month of a date, or of the next month when that is past. -/
def firstDay (start : Date) : Option Month :=
  if (firstOf start.month).key < start.key then start.month.next else some start.month

/-- `free_tier_days`, where `end` does not precede `start`. -/
def firstDays (start last : Date) : List Date :=
  match firstDay start with
  | none => []
  | some cursor => (Lib.Cursor.upTo (fun month => (firstOf month).key) Month.next last.key
      (last.key + 1) cursor).map firstOf

theorem month_successor :
    Lib.Cursor.Successor (fun month => (firstOf month).key) Month.next := by
  constructor
  · intro m m' h
    simp only [firstOf_key, Month.next_index h]
    omega
  · intro m m' n h hlt
    simp only [firstOf_key, Month.next_index h] at hlt ⊢
    omega
  · intro m n h
    simp only [firstOf_key]
    by_contra hlt
    obtain ⟨after, hafter⟩ := Month.next_some (show m.index < n.index by omega)
    rw [h] at hafter
    cases hafter
  · intro m m' h
    simp only [firstOf_key] at h
    exact Month.index_inj (by omega)

theorem firstOf_eq {d : Date} (h : d.day = 1) : firstOf d.month = d := by
  refine key_inj ?_
  rw [firstOf_key, key, h]
  rfl

theorem mem_firstDays {start last d : Date} :
    d ∈ firstDays start last ↔ d.day = 1 ∧ start.key ≤ d.key ∧ d.key ≤ last.key := by
  have hstart : ∀ {n : Month}, start.key ≤ (firstOf n).key ↔
      ∃ cursor, firstDay start = some cursor ∧ (firstOf cursor).key ≤ (firstOf n).key := by
    intro n
    have hday := start.day_le
    have hkey : start.key = start.month.index * 31 + (start.day - 1) := rfl
    unfold firstDay
    split
    · rename_i hpast
      simp only [firstOf_key] at hpast ⊢
      constructor
      · intro hle
        obtain ⟨after, hafter⟩ := Month.next_some (show start.month.index < n.index by omega)
        refine ⟨after, hafter, ?_⟩
        rw [Month.next_index hafter]
        omega
      · rintro ⟨after, hafter, hle⟩
        rw [Month.next_index hafter] at hle
        omega
    · rename_i hfirst
      simp only [firstOf_key, Option.some.injEq, exists_eq_left'] at hfirst ⊢
      omega
  unfold firstDays
  constructor
  · intro hd
    cases hcursor : firstDay start with
    | none =>
      rw [hcursor] at hd
      cases hd
    | some cursor =>
      rw [hcursor] at hd
      obtain ⟨month, hmonth, rfl⟩ := List.mem_map.mp hd
      rw [Lib.Cursor.mem_upTo month_successor (by omega)] at hmonth
      exact ⟨rfl, hstart.mpr ⟨cursor, hcursor, hmonth.1⟩, hmonth.2⟩
  · rintro ⟨hone, hlow, hhigh⟩
    rw [← firstOf_eq hone] at hlow hhigh ⊢
    obtain ⟨cursor, hcursor, hle⟩ := hstart.mp hlow
    rw [hcursor]
    refine List.mem_map_of_mem ?_
    rw [Lib.Cursor.mem_upTo month_successor (by omega)]
    exact ⟨hle, hhigh⟩

/-! ## Texts -/

/-- `date.isoformat()`. -/
def text (self : Date) : String :=
  twoDigits (self.month.year / 100) ++ twoDigits (self.month.year % 100) ++ "-" ++
    twoDigits self.month.month ++ "-" ++ twoDigits self.day

theorem text_parts (d : Date) : d.text.toList =
    (twoDigits (d.month.year / 100)).toList ++ ((twoDigits (d.month.year % 100)).toList ++
      '-' :: ((twoDigits d.month.month).toList ++ '-' :: (twoDigits d.day).toList)) := by
  simp [text]

/-- A number below 100 in two digits, before whatever follows a smaller one. -/
theorem twoDigits_append {n m : Nat} {t t' : List Char} (hlt : n < m) (hm : m < 100) :
    (twoDigits n).toList ++ t < (twoDigits m).toList ++ t' :=
  Month.append_lt ((Month.twoDigits_read n (hlt.trans hm)).1.trans
    (Month.twoDigits_read m hm).1.symm)
    (Month.twoDigits_lt n (hlt.trans hm) m hm hlt)

theorem text_lt_of_key {d d' : Date} (h : d.key < d'.key) : d.text < d'.text := by
  have hday := d.day_le
  have hday' := d'.day_le
  have hvalid := d.month.valid
  have hvalid' := d'.month.valid
  simp only [key, Month.index] at h
  rw [String.lt_iff, text_parts, text_parts]
  rcases Nat.lt_trichotomy (d.month.year / 100) (d'.month.year / 100) with hlt | heq | hgt
  · exact twoDigits_append hlt (by omega)
  · rw [heq]
    refine Month.append_lt_append _ ?_
    rcases Nat.lt_trichotomy (d.month.year % 100) (d'.month.year % 100) with hlt | heq | hgt
    · exact twoDigits_append hlt (by omega)
    · rw [heq]
      refine Month.append_lt_append _ (List.cons_lt_cons_iff.mpr (.inr ⟨rfl, ?_⟩))
      rcases Nat.lt_trichotomy d.month.month d'.month.month with hlt | heq | hgt
      · exact twoDigits_append hlt (by omega)
      · rw [heq]
        refine Month.append_lt_append _ (List.cons_lt_cons_iff.mpr (.inr ⟨rfl, ?_⟩))
        exact Month.twoDigits_lt _ (by omega) _ (by omega) (by omega)
      · omega
    · omega
  · omega

theorem text_lt {d d' : Date} : d.text < d'.text ↔ d.key < d'.key := by
  refine ⟨fun h => ?_, text_lt_of_key⟩
  rcases Nat.lt_trichotomy d.key d'.key with hlt | heq | hgt
  · exact hlt
  · rw [key_inj heq] at h
    exact absurd h (lt_irrefl _)
  · exact absurd (h.trans (text_lt_of_key hgt)) (lt_irrefl _)

theorem text_inj {d d' : Date} : d.text = d'.text ↔ d = d' := by
  refine ⟨fun h => key_inj ?_, congrArg _⟩
  have hlt : ¬ d.key < d'.key := fun hlt => (text_lt_of_key hlt).ne h
  have hgt : ¬ d'.key < d.key := fun hgt => (text_lt_of_key hgt).ne' h
  omega

/-! ## Day numbers -/

/-- The days from 1970-01-01 to a date. -/
def ordinal (self : Date) : Int := dayNumber self.month.year self.month.month self.day

theorem isDate (d : Date) : IsDate d.month.year d.month.month d.day := by
  have hmonth := d.month.valid
  exact ⟨⟨hmonth.2.2.1, hmonth.2.2.2.1⟩, d.valid⟩

theorem ordinal_eq (d : Date) : d.ordinal = d.month.firstDay + (d.day - 1) := rfl

/-- The date of a day number, if it is a `Date`. -/
def ofOrdinal (n : Int) : Option Date :=
  let (year, month, day) := civil n
  if h : (1 ≤ year.toNat ∧ year.toNat ≤ 9999 ∧ 1 ≤ month ∧ month ≤ 12 ∧
      (year.toNat = 9999 → month ≠ 12)) ∧ 1 ≤ day ∧ (day : Int) ≤ monthDays year.toNat month then
    some ⟨⟨year.toNat, month, h.1⟩, day, h.2⟩
  else none

theorem ofOrdinal_some {n : Int} {d : Date} : ofOrdinal n = some d ↔ d.ordinal = n := by
  constructor
  · intro h
    obtain ⟨year, month, day, _, hn, hcivil⟩ := civil_spec n
    unfold ofOrdinal at h
    rw [hcivil] at h
    dsimp only at h
    split at h
    · rename_i hvalid
      cases h
      have hyear : (year.toNat : Int) = year := by omega
      unfold ordinal
      dsimp only
      rw [hyear, hn]
    · cases h
  · rintro rfl
    have hmonth := d.month.valid
    have hday := d.valid
    unfold ofOrdinal ordinal
    rw [civil_eq d.isDate]
    exact dif_pos ⟨hmonth, hday⟩

/-- `(dt.date(1970, 1, 1) + dt.timedelta(days=n)).isoformat()`. -/
def isoDay (n : Int) : String :=
  let (year, month, day) := civil n
  twoDigits (year.toNat / 100) ++ twoDigits (year.toNat % 100) ++ "-" ++ twoDigits month ++ "-" ++
    twoDigits day

theorem isoDay_ordinal (d : Date) : isoDay d.ordinal = d.text := by
  unfold isoDay ordinal
  rw [civil_eq d.isDate]
  rfl

/-- The months tile the days. -/
theorem firstDay_le {m m' : Month} (h : m.index < m'.index) :
    m.firstDay + m.days ≤ m'.firstDay := by
  obtain ⟨gap, hgap⟩ : ∃ gap, m'.index = m.index + gap + 1 := ⟨m'.index - m.index - 1, by omega⟩
  induction gap generalizing m with
  | zero =>
    obtain ⟨n, hn⟩ := Month.next_some h
    have hindex := Month.next_index hn
    obtain rfl : n = m' := Month.index_inj (by omega)
    have hbounds := Month.bounds_next hn
    unfold Month.bounds at hbounds
    dsimp only at hbounds
    omega
  | succ gap ih =>
    obtain ⟨n, hn⟩ := Month.next_some h
    have hindex := Month.next_index hn
    have hlater := ih (show n.index < m'.index by omega) (by omega)
    have hbounds := Month.bounds_next hn
    have hdays := n.days_bounds
    unfold Month.bounds at hbounds
    dsimp only at hbounds
    omega

theorem ordinal_lt_of_key {d d' : Date} (h : d.key < d'.key) : d.ordinal < d'.ordinal := by
  have hvalid := d.valid
  have hvalid' := d'.valid
  have hday := d.day_le
  have hday' := d'.day_le
  simp only [key] at h
  rw [ordinal_eq, ordinal_eq]
  rcases Nat.lt_trichotomy d.month.index d'.month.index with hlt | heq | hgt
  · have := firstDay_le hlt
    omega
  · rw [Month.index_inj heq]
    omega
  · omega

theorem next_ordinal {d e : Date} (h : d.key < e.key) :
    ∃ d', d.next = some d' ∧ d'.ordinal = d.ordinal + 1 := by
  cases hnext : d.next with
  | none => exact absurd (next_successor.final hnext) (not_le.mpr h)
  | some d' =>
    refine ⟨d', rfl, ?_⟩
    have hvalid := d.valid
    unfold next at hnext
    split at hnext
    · cases hnext
      simp only [ordinal_eq]
      omega
    · obtain ⟨month, hmonth, rfl⟩ := Option.map_eq_some_iff.mp hnext
      have hbounds := Month.bounds_next hmonth
      unfold Month.bounds at hbounds
      dsimp only at hbounds
      rw [ordinal_eq, ordinal_eq]
      simp only [firstOf]
      omega

theorem ordinal_lt {d d' : Date} : d.ordinal < d'.ordinal ↔ d.key < d'.key := by
  refine ⟨fun h => ?_, ordinal_lt_of_key⟩
  rcases Nat.lt_trichotomy d.key d'.key with hlt | heq | hgt
  · exact hlt
  · rw [key_inj heq] at h
    omega
  · have := ordinal_lt_of_key hgt
    omega

theorem exists_ordinal {start last : Date} (k : Nat) (h : start.ordinal + k < last.ordinal) :
    ∃ d : Date, d.ordinal = start.ordinal + k := by
  induction k with
  | zero => exact ⟨start, by simp⟩
  | succ k ih =>
    obtain ⟨d, hd⟩ := ih (by omega)
    obtain ⟨d', _, hd'⟩ := next_ordinal (ordinal_lt.mp (show d.ordinal < last.ordinal by omega))
    exact ⟨d', by omega⟩

end Date

end PerpCarry
