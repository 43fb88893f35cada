import PerpCarry.Core.Dates
import PerpCarry.Ingestion.FetchTrades
import PerpCarry.Ingestion.MarkPrices

/-!
# Ingestion.PriceBars

A month of minute bars of the futures or the spot price: `normalise` of
`python/perpcarry/ingestion/fetch_price_bars.py`.

The spot archives count microseconds from 2025 on, and a time is rounded down to its millisecond.

* `normalise_ok`: what is accepted, and what is made of it.
* `normalise_days`: a partition of an accepted month is a day of it, with all its minutes.
-/

namespace PerpCarry
namespace Ingestion
namespace PriceBars

open FetchTrades (Casts)
open Lib (refuse_ok)
open MarkPrices (KlineRow KLINE_COLUMNS minutes)
open Strategy (bind_ok pure_ok)

inductive Market where
  | spot
  | futures
  deriving DecidableEq

def Market.name : Market → String
  | spot => "spot"
  | futures => "futures"

/-- `archive_url`'s test of the market. -/
def Market.ofName (name : String) : Option Market :=
  if name = "spot" then some .spot else if name = "futures" then some .futures else none

/-- The archive as it is read, with `dtype=str`. -/
structure RawBars where
  columns : List String
  rows : List KlineRow

structure PriceBar where
  openTime : Int
  closeTime : Int
  availableAt : Int
  market : String
  symbol : String
  open' : Double
  high : Double
  low : Double
  close : Double
  volume : Double
  quoteVolume : Double
  trades : Int
  date : String
  deriving DecidableEq

/-- The `ValueError` of a market, `PriceDataError`, or what `astype` raises. -/
inductive PriceError where
  | market
  | data (message : String)
  | cast
  deriving DecidableEq

abbrev refuse (bad : Prop) [Decidable bad] (message : String) : Except PriceError Unit :=
  Lib.refuse bad (.data message)

def cast {α : Type} (cell : Option α) : Except PriceError α :=
  match cell with
  | some a => .ok a
  | none => .error .cast

theorem cast_ok {α : Type} {cell : Option α} {a : α} : cast cell = .ok a ↔ cell = some a := by
  cases cell with
  | none => simp [cast]
  | some b => simp [cast]

/-- The units of a millisecond in an archive. -/
def divisor (month : Month) (market : Market) : Int :=
  if market = .spot ∧ 2025 ≤ month.year then 1000 else 1

/-- The prices, the volumes and the count of a row. -/
structure Values where
  open' : Double
  high : Double
  low : Double
  close : Double
  volume : Double
  quoteVolume : Double
  trades : Int
  deriving DecidableEq

section Normalise

variable (casts : Casts)

def values (row : KlineRow) : Except PriceError Values := do
  let open' ← cast (casts.float64 row.open')
  let high ← cast (casts.float64 row.high)
  let low ← cast (casts.float64 row.low)
  let close ← cast (casts.float64 row.close)
  let volume ← cast (casts.float64 row.volume)
  let quoteVolume ← cast (casts.float64 row.quoteVolume)
  let trades ← cast (casts.int64 row.count)
  return ⟨open', high, low, close, volume, quoteVolume, trades⟩

def priceBar (market : Market) (symbol : String) (opened closed : Int) (values : Values) :
    PriceBar where
  openTime := opened
  closeTime := closed
  availableAt := closed + 1
  market := market.name
  symbol
  open' := values.open'
  high := values.high
  low := values.low
  close := values.close
  volume := values.volume
  quoteVolume := values.quoteVolume
  trades := values.trades
  date := Date.isoDay (opened / 86400000)

def PriceBar.prices (self : PriceBar) : List Double := [self.open', self.high, self.low, self.close]

/-- `max` and `min` of a row, where no value is missing. -/
def largest (a b c : Double) : Double :=
  let ab := if a.lt b then b else a
  if ab.lt c then c else ab

def smallest (a b c : Double) : Double :=
  let ab := if b.lt a then b else a
  if c.lt ab then c else ab

def normalise (raw : RawBars) (symbol : String) (month : Month) (marketName : String) :
    Except PriceError (List PriceBar) :=
  match Market.ofName marketName with
  | none => .error .market
  | some market => do
    refuse (raw.columns ≠ KLINE_COLUMNS) "price archive columns changed"
    let rows := raw.rows.filter fun row => row.openTime ≠ some "open_time"
    refuse (rows = []) "price archive has no bars"
    let opened ← rows.mapM fun row => cast (casts.int64 row.openTime)
    let closed ← rows.mapM fun row => cast (casts.int64 row.closeTime)
    let openTime := opened.map (· / divisor month market)
    let closeTime := closed.map (· / divisor month market)
    refuse (openTime ≠ minutes month)
      "price archive has missing, duplicate, out-of-order or wrong-unit minutes"
    refuse (closeTime ≠ openTime.map (· + 59999)) "price bar close time does not match its minute"
    let values ← rows.mapM (values casts)
    let frame := (openTime.zip (closeTime.zip values)).map fun row =>
      priceBar market symbol row.1 row.2.1 row.2.2
    refuse (∃ bar ∈ frame, ∃ x ∈ bar.prices ++ [bar.volume, bar.quoteVolume], x.isFinite = false)
      "non-finite price or volume"
    refuse (∃ bar ∈ frame, ∃ x ∈ bar.prices, x.le .zero = true) "non-positive price"
    refuse (∃ bar ∈ frame, bar.volume.lt .zero = true ∨ bar.quoteVolume.lt .zero = true ∨
      bar.trades < 0) "negative volume or trade count"
    refuse ((∃ bar ∈ frame, bar.high.lt (largest bar.open' bar.close bar.low) = true) ∨
      ∃ bar ∈ frame, (smallest bar.open' bar.close bar.high).lt bar.low = true)
      "inconsistent OHLC prices"
    return frame

end Normalise

/-! ## What is accepted -/

/-- A bar whose numbers are finite and in order. -/
structure PriceBar.Sound (self : PriceBar) (o h l c v q : ℚ) : Prop where
  numbers : [self.open', self.high, self.low, self.close, self.volume, self.quoteVolume] =
    [.finite o, .finite h, .finite l, .finite c, .finite v, .finite q]
  positive : 0 < l
  within : l ≤ o ∧ o ≤ h ∧ l ≤ c ∧ c ≤ h
  nonnegative : 0 ≤ v ∧ 0 ≤ q ∧ 0 ≤ self.trades

/-- A bar as it is read from a row, in the milliseconds of its market. -/
structure Reads (casts : Casts) (symbol : String) (month : Month) (market : Market)
    (row : KlineRow) (bar : PriceBar) : Prop where
  opened : ∃ units, casts.int64 row.openTime = some units ∧
    bar.openTime = units / divisor month market
  closed : ∃ units, casts.int64 row.closeTime = some units ∧
    bar.closeTime = units / divisor month market
  made : ∃ found, values casts row = .ok found ∧
    bar = priceBar market symbol bar.openTime bar.closeTime found

section Accepted

variable {casts : Casts} {raw : RawBars} {symbol marketName : String} {month : Month}
  {frame : List PriceBar}

theorem finite_of_isFinite {x : Double} (h : x.isFinite = true) : ∃ q, x = .finite q := by
  cases x with
  | finite q => exact ⟨q, rfl⟩
  | infinity negative => cases h
  | nan => cases h

theorem largest_finite (a b c : ℚ) :
    largest (.finite a) (.finite b) (.finite c) = .finite (max (max a b) c) := by
  have hpair : ∀ a b : ℚ, (if (Double.finite a).lt (.finite b) then Double.finite b
      else .finite a) = .finite (max a b) := by
    intro a b
    rw [max_comm, max_def]
    by_cases h : a < b
    · simp [h, not_le.mpr h]
    · simp [h, not_lt.mp h]
  unfold largest
  dsimp only
  rw [hpair, hpair]

theorem smallest_finite (a b c : ℚ) :
    smallest (.finite a) (.finite b) (.finite c) = .finite (min (min a b) c) := by
  have hpair : ∀ a b : ℚ, (if (Double.finite b).lt (.finite a) then Double.finite b
      else .finite a) = .finite (min a b) := by
    intro a b
    rw [min_def]
    by_cases h : b < a
    · simp [h, not_le.mpr h]
    · simp [h, not_lt.mp h]
  unfold smallest
  dsimp only
  rw [hpair, hpair]

/-- The four refusals that look at the numbers. -/
theorem sound_of_checks {bar : PriceBar}
    (hfinite : ∀ x ∈ bar.prices ++ [bar.volume, bar.quoteVolume], ¬ x.isFinite = false)
    (hpositive : ∀ x ∈ bar.prices, ¬ x.le .zero = true)
    (hnonnegative : ¬ (bar.volume.lt .zero = true ∨ bar.quoteVolume.lt .zero = true ∨
      bar.trades < 0))
    (hhigh : ¬ bar.high.lt (largest bar.open' bar.close bar.low) = true)
    (hlow : ¬ (smallest bar.open' bar.close bar.high).lt bar.low = true) :
    ∃ o h l c v q, bar.Sound o h l c v q := by
  simp only [PriceBar.prices, List.cons_append, List.nil_append, List.forall_mem_cons,
    Bool.not_eq_false] at hfinite hpositive
  obtain ⟨hopen, hhigh', hlow', hclose, hvolume, hquote, _⟩ := hfinite
  obtain ⟨o, ho⟩ := finite_of_isFinite hopen
  obtain ⟨h, hh⟩ := finite_of_isFinite hhigh'
  obtain ⟨l, hl⟩ := finite_of_isFinite hlow'
  obtain ⟨c, hc⟩ := finite_of_isFinite hclose
  obtain ⟨v, hv⟩ := finite_of_isFinite hvolume
  obtain ⟨q, hq⟩ := finite_of_isFinite hquote
  rw [ho, hh, hl, hc] at hpositive
  rw [hv, hq] at hnonnegative
  rw [ho, hh, hl, hc, largest_finite, Double.lt_finite, decide_eq_true_eq, not_lt, max_le_iff,
    max_le_iff] at hhigh
  rw [ho, hh, hl, hc, smallest_finite, Double.lt_finite, decide_eq_true_eq, not_lt, le_min_iff,
    le_min_iff] at hlow
  simp only [Double.zero, Double.le_finite, Double.lt_finite, decide_eq_true_eq, not_le, not_or,
    not_lt] at hpositive hnonnegative
  exact ⟨o, h, l, c, v, q, by rw [ho, hh, hl, hc, hv, hq], hpositive.2.2.1,
    ⟨hlow.1.1, hhigh.1.1, hlow.1.2, hhigh.1.2⟩, hnonnegative⟩

theorem columns_rows {α β γ δ ε : Type} {R : α → β → Prop} {S : α → γ → Prop} {T : α → δ → Prop}
    {f : β × γ × δ → ε} {rows : List α} {bs : List β} {cs : List γ} {ds : List δ}
    (hb : List.Forall₂ R rows bs) (hc : List.Forall₂ S rows cs) (hd : List.Forall₂ T rows ds) :
    List.Forall₂ (fun row e => ∃ b c d, R row b ∧ S row c ∧ T row d ∧ e = f (b, c, d)) rows
      ((bs.zip (cs.zip ds)).map f) := by
  induction hb generalizing cs ds with
  | nil => exact .nil
  | cons hrow _ ih =>
    cases hc with
    | cons hcrow hc =>
      cases hd with
      | cons hdrow hd => exact .cons ⟨_, _, _, hrow, hcrow, hdrow, rfl⟩ (ih hc hd)

/-- An accepted month: each bar as its row has it, on the minutes of the month, with its numbers in
order. -/
theorem normalise_ok (h : normalise casts raw symbol month marketName = .ok frame) :
    ∃ market, Market.ofName marketName = some market ∧
      List.Forall₂ (Reads casts symbol month market)
        (raw.rows.filter fun row => row.openTime ≠ some "open_time") frame ∧
      frame.map (·.openTime) = minutes month ∧
      ∀ bar ∈ frame, bar.closeTime = bar.openTime + 59999 ∧
        ∃ o h l c v q, bar.Sound o h l c v q := by
  unfold normalise at h
  cases hmarket : Market.ofName marketName with
  | none =>
    rw [hmarket] at h
    cases h
  | some market =>
    rw [hmarket] at h
    simp only [bind_ok, pure_ok, refuse_ok, not_not] at h
    obtain ⟨_, hcolumns, _, _, opened, hopened, closed, hclosed, _, hgrid, _, hclose, found, hfound,
      _, hfinite, _, hpositive, _, hnonnegative, _, hordered, rfl⟩ := h
    rw [Lib.mapM_ok_iff] at hopened hclosed hfound
    generalize hrows : raw.rows.filter (fun row => row.openTime ≠ some "open_time") = rows
      at hopened hclosed hfound
    have hread : List.Forall₂ (fun row t => ∃ units, casts.int64 row.openTime = some units ∧
        t = units / divisor month market) rows (opened.map (· / divisor month market)) := by
      rw [List.forall₂_map_right_iff]
      exact hopened.imp fun row units hunits => ⟨units, cast_ok.mp hunits, rfl⟩
    have hread' : List.Forall₂ (fun row t => ∃ units, casts.int64 row.closeTime = some units ∧
        t = units / divisor month market) rows (closed.map (· / divisor month market)) := by
      rw [List.forall₂_map_right_iff]
      exact hclosed.imp fun row units hunits => ⟨units, cast_ok.mp hunits, rfl⟩
    have hlengths := hread.length_eq.symm.trans hfound.length_eq
    rw [hgrid] at hread hclose hfinite hpositive hnonnegative hordered hlengths ⊢
    rw [hclose] at hread' hfinite hpositive hnonnegative hordered ⊢
    -- the columns, beside the minutes
    have hminutes : List.Forall₂ (fun t (bar : PriceBar) => bar.openTime = t ∧
        bar.closeTime = bar.openTime + 59999) (minutes month)
        (((minutes month).zip (((minutes month).map (· + 59999)).zip found)).map fun row =>
          priceBar market symbol row.1 row.2.1 row.2.2) := by
      refine (columns_rows (List.forall₂_same.mpr fun t _ => (rfl : t = t))
        (List.forall₂_map_right_iff.mpr (List.forall₂_same.mpr fun t _ => rfl))
        (List.forall₂_iff_zip.mpr ⟨hlengths, fun _ => trivial⟩)).imp ?_
      rintro t bar ⟨opened, closed, _, rfl, hclosed, _, rfl⟩
      exact ⟨rfl, hclosed.symm⟩
    simp only [not_or, not_exists, not_and] at hfinite hpositive hnonnegative hordered
    refine ⟨market, rfl, ?_, ?_, fun bar hbar => ⟨?_, ?_⟩⟩
    · refine (columns_rows hread hread' hfound).imp ?_
      rintro row bar ⟨opened, closed, values, hopened, hclosed, hvalues, rfl⟩
      exact ⟨hopened, hclosed, values, hvalues, rfl⟩
    · have hsame := List.forall₂_map_right_iff.mpr (hminutes.imp fun t bar h => h.1.symm)
      rw [List.forall₂_eq_eq_eq] at hsame
      exact hsame.symm
    · obtain ⟨t, _, _, hclosed⟩ := Lib.exists_of_forall₂_right hminutes hbar
      exact hclosed
    · exact sound_of_checks (hfinite bar hbar) (hpositive bar hbar)
        (by simpa only [not_or] using hnonnegative bar hbar) (hordered.1 bar hbar)
        (hordered.2 bar hbar)

theorem minute_date {t : Int} (h : t ∈ minutes month) :
    ∃ d : Date, d.month = month ∧ t / 86400000 = d.ordinal := by
  obtain ⟨hstart, hstop, _⟩ := MarkPrices.mem_minutes.mp h
  refine ⟨⟨month, (t / 86400000 - month.firstDay + 1).toNat, by omega⟩, rfl, ?_⟩
  rw [Date.ordinal_eq]
  dsimp only
  omega

theorem minutes_of_date {d : Date} (h : d.month = month) :
    ((minutes month).filter fun t => Date.isoDay (t / 86400000) = d.text) =
      (List.range 1440).map fun (i : Nat) => d.ordinal * 86400000 + 60000 * i := by
  have hwithin := d.valid
  have hordinal := d.ordinal_eq
  rw [h] at hwithin hordinal
  refine Lib.eq_of_increasing ((MarkPrices.minutes_increasing month).filter _) ?_ fun t => ?_
  · rw [List.pairwise_map]
    exact List.pairwise_lt_range.imp fun hlt => by omega
  · rw [List.mem_filter, decide_eq_true_eq, List.mem_map]
    constructor
    · rintro ⟨ht, htext⟩
      obtain ⟨d', _, hday⟩ := minute_date ht
      rw [hday, Date.isoDay_ordinal, Date.text_inj] at htext
      obtain ⟨_, _, hminute⟩ := MarkPrices.mem_minutes.mp ht
      rw [htext] at hday
      exact ⟨(t % 86400000 / 60000).toNat, List.mem_range.mpr (by omega), by omega⟩
    · rintro ⟨i, hi, rfl⟩
      have hlt := List.mem_range.mp hi
      have hday : (d.ordinal * 86400000 + 60000 * (i : Int)) / 86400000 = d.ordinal := by omega
      rw [hday, Date.isoDay_ordinal]
      exact ⟨MarkPrices.mem_minutes.mpr (by omega), rfl⟩

/-- The partitions of an accepted month are its days, each with all its minutes in order, and a bar
is available when the next one opens. -/
theorem normalise_days (h : normalise casts raw symbol month marketName = .ok frame) :
    (∀ d : Date, d.month = month → (frame.filter fun bar => bar.date = d.text).map (·.openTime) =
      (List.range 1440).map fun (i : Nat) => d.ordinal * 86400000 + 60000 * i) ∧
    ∀ bar ∈ frame, (∃ d : Date, d.month = month ∧ bar.date = d.text) ∧
      bar.closeTime = bar.openTime + 59999 ∧ bar.availableAt = bar.openTime + 60000 ∧
      ∃ o h l c v q, bar.Sound o h l c v q := by
  obtain ⟨market, _, hreads, hgrid, hbars⟩ := normalise_ok h
  have hdate : ∀ bar ∈ frame, bar.date = Date.isoDay (bar.openTime / 86400000) ∧
      bar.availableAt = bar.closeTime + 1 := by
    intro bar hbar
    obtain ⟨_, _, hread⟩ := Lib.exists_of_forall₂_right hreads hbar
    obtain ⟨found, _, hmade⟩ := hread.made
    rw [hmade]
    exact ⟨rfl, rfl⟩
  refine ⟨fun d hd => ?_, fun bar hbar => ?_⟩
  · rw [← minutes_of_date hd, ← hgrid, List.filter_map]
    congr 1
    refine List.filter_congr fun bar hbar => ?_
    rw [(hdate bar hbar).1]
    rfl
  · obtain ⟨hclosed, hsound⟩ := hbars bar hbar
    obtain ⟨hday, havailable⟩ := hdate bar hbar
    obtain ⟨d, hd, hordinal⟩ := minute_date (hgrid ▸ List.mem_map_of_mem hbar)
    refine ⟨⟨d, hd, ?_⟩, hclosed, by omega, hsound⟩
    rw [hday, hordinal, Date.isoDay_ordinal]

end Accepted

/-! ### A month of equal bars -/

section Flat

open FetchTrades (wholeCasts june2026)

/-- So many units are traded in a minute. -/
def tradedRow (units : Nat) (t : Int) : KlineRow :=
  { MarkPrices.flatRow t with volume := some units.repr }

def tradedValues (units : Nat) : Values :=
  ⟨.finite 101, .finite 103, .finite 97, .finite 101, .finite units, .finite 0, 60⟩

def tradedBar (units : Nat) (t : Int) : PriceBar :=
  priceBar .futures "BTCUSDT" t (t + 59999) (tradedValues units)

theorem wholeCasts_repr {n : Nat} (h : n < 10 ^ 15) :
    wholeCasts.int64 (some n.repr) = some (n : Int) := by
  have hlength : (Nat.toDigits 10 n).length ≤ 15 :=
    (Nat.length_toDigits_le_iff (by decide) (by decide)).mpr h
  have hdigits : (Nat.toDigits 10 n).all Char.isDigit = true :=
    List.all_eq_true.mpr fun c hc => Nat.isDigit_of_mem_toDigits (by decide) (by decide) hc
  simp only [wholeCasts, FetchTrades.wholeNumber, Option.bind_some, Nat.toList_repr,
    Nat.ofDigitChars_ten_toDigits]
  rw [if_pos ⟨Nat.toDigits_ne_nil, hdigits, hlength⟩, Nat.mod_eq_of_lt (by omega)]
  rfl

/-- One unit, or two. -/
def FewUnits (units : Nat) : Prop := units = 1 ∨ units = 2

theorem tradedRow_values {units : Nat} (h : FewUnits units) (t : Int) :
    values wholeCasts (tradedRow units t) = .ok (tradedValues units) := by
  have hone : values wholeCasts (tradedRow 1 0) = .ok (tradedValues 1) := by decide +kernel
  have htwo : values wholeCasts (tradedRow 2 0) = .ok (tradedValues 2) := by decide +kernel
  rcases h with rfl | rfl
  · exact hone
  · exact htwo

/-- Millisecond stamps of fifteen digits at most. -/
def ShortStamps (month : Month) : Prop := ∀ t ∈ minutes month, 0 ≤ t ∧ t + 59999 < 10 ^ 15

theorem june_stamps : ShortStamps june2026 := by
  intro t ht
  have hfirst : june2026.firstDay = 20605 := by decide
  have hdays : june2026.days = 30 := by decide
  rw [MarkPrices.mem_minutes, hfirst, hdays] at ht
  omega

theorem traded_bar {month : Month} (hstamps : ShortStamps month) (units : Nat) {t : Int}
    (h : t ∈ minutes month) :
    wholeCasts.int64 (tradedRow units t).openTime = some t ∧
      wholeCasts.int64 (tradedRow units t).closeTime = some (t + 59999) ∧
      (tradedRow units t).openTime ≠ some "open_time" := by
  obtain ⟨hlow, hhigh⟩ := hstamps t h
  have hopened : wholeCasts.int64 (tradedRow units t).openTime = some t := by
    have hread := wholeCasts_repr (n := t.toNat) (by omega)
    rwa [Int.toNat_of_nonneg hlow] at hread
  have hclosed : wholeCasts.int64 (tradedRow units t).closeTime = some (t + 59999) := by
    have hread := wholeCasts_repr (n := (t + 59999).toNat) (by omega)
    rwa [Int.toNat_of_nonneg (by omega)] at hread
  refine ⟨hopened, hclosed, fun hheader => ?_⟩
  have hnone : wholeCasts.int64 (some "open_time") = none := by decide +kernel
  rw [hheader, hnone] at hopened
  cases hopened

theorem traded_zip (units : Int → Nat) : ∀ ts : List Int, (ts.zip ((ts.map (· + 59999)).zip
    (ts.map fun t => tradedValues (units t)))).map
      (fun row => priceBar .futures "BTCUSDT" row.1 row.2.1 row.2.2) =
        ts.map fun t => tradedBar (units t) t
  | [] => rfl
  | t :: ts => congrArg (tradedBar (units t) t :: ·) (traded_zip units ts)

theorem traded_normalise {month : Month} {units : Int → Nat} (hstamps : ShortStamps month)
    (hdays : 0 < month.days) (hunits : ∀ t, FewUnits (units t)) :
    normalise wholeCasts ⟨KLINE_COLUMNS, (minutes month).map fun t => tradedRow (units t) t⟩
      "BTCUSDT" month "futures" = .ok ((minutes month).map fun t => tradedBar (units t) t) := by
  have hrows : ((minutes month).map fun t => tradedRow (units t) t).filter (fun row =>
      row.openTime ≠ some "open_time") = (minutes month).map fun t => tradedRow (units t) t := by
    rw [List.filter_eq_self, List.forall_mem_map]
    exact fun t ht => decide_eq_true (traded_bar hstamps _ ht).2.2
  have hopened : ((minutes month).map fun t => tradedRow (units t) t).mapM (fun row =>
      cast (wholeCasts.int64 row.openTime)) = .ok (minutes month) := by
    rw [Lib.mapM_ok_iff, List.forall₂_map_left_iff, List.forall₂_same]
    exact fun t ht => cast_ok.mpr (traded_bar hstamps _ ht).1
  have hclosed : ((minutes month).map fun t => tradedRow (units t) t).mapM (fun row =>
      cast (wholeCasts.int64 row.closeTime)) = .ok ((minutes month).map (· + 59999)) := by
    rw [Lib.mapM_ok_iff, List.forall₂_map_left_iff, List.forall₂_map_right_iff, List.forall₂_same]
    exact fun t ht => cast_ok.mpr (traded_bar hstamps _ ht).2.1
  have hvalues : ((minutes month).map fun t => tradedRow (units t) t).mapM (values wholeCasts) =
      .ok ((minutes month).map fun t => tradedValues (units t)) := by
    rw [Lib.mapM_ok_iff, List.forall₂_map_left_iff, List.forall₂_map_right_iff, List.forall₂_same]
    exact fun t _ => tradedRow_values (hunits t) t
  have hdivisor : divisor month .futures = 1 := rfl
  have hscale : ∀ ts : List Int, ts.map (· / divisor month .futures) = ts := by
    intro ts
    simp [hdivisor]
  have hne : ((minutes month).map fun t => tradedRow (units t) t) ≠ [] := by
    have hfirst : month.firstDay * 86400000 ∈ minutes month :=
      MarkPrices.mem_minutes.mpr (by omega)
    exact List.ne_nil_of_mem (List.mem_map_of_mem hfirst)
  unfold normalise
  simp only [show Market.ofName "futures" = some .futures from rfl, hrows, hopened, bind_ok,
    pure_ok, refuse_ok, hclosed, hvalues, Except.ok.injEq, exists_eq_left', hscale, traded_zip]
  have hbars : ∀ (P : PriceBar → Prop), (∀ t, ¬ P (tradedBar (units t) t)) →
      ¬ ∃ bar ∈ (minutes month).map fun t => tradedBar (units t) t, P bar := by
    rintro P hP ⟨bar, hbar, hbad⟩
    obtain ⟨t, _, rfl⟩ := List.mem_map.mp hbar
    exact hP t hbad
  refine ⟨(), not_not.mpr rfl, (), hne, (), not_not.mpr rfl, (), not_not.mpr rfl, (), hbars _ ?_,
    (), hbars _ ?_, (), hbars _ ?_, (), not_or.mpr ⟨hbars _ ?_, hbars _ ?_⟩, trivial⟩
  · intro t
    simp [tradedBar, tradedValues, priceBar, PriceBar.prices, Double.isFinite]
  · intro t
    simp [tradedBar, tradedValues, priceBar, PriceBar.prices, Double.zero]
  · intro t
    simp [tradedBar, tradedValues, priceBar, Double.zero]
  · intro t
    norm_num [tradedBar, tradedValues, priceBar, largest_finite]
  · intro t
    norm_num [tradedBar, tradedValues, priceBar, smallest_finite]

/-- One unit in each minute of June. -/
theorem june_normalise :
    normalise wholeCasts ⟨KLINE_COLUMNS, (minutes june2026).map (tradedRow 1)⟩
      "BTCUSDT" june2026 "futures" = .ok ((minutes june2026).map (tradedBar 1)) :=
  traded_normalise june_stamps (by decide) fun _ => .inl rfl

/-- The second of June. -/
theorem normalise_days_flat :
    (((minutes june2026).map (tradedBar 1)).filter fun bar => bar.date = "2026-06-02").map
        (·.openTime) =
      (List.range 1440).map fun (i : Nat) => 20606 * 86400000 + 60000 * (i : Int) := by
  have htext : (⟨june2026, 2, by decide⟩ : Date).text = "2026-06-02" := by decide +kernel
  have hordinal : (⟨june2026, 2, by decide⟩ : Date).ordinal = 20606 := by decide
  have hday := (normalise_days june_normalise).1 ⟨june2026, 2, by decide⟩ rfl
  rwa [htext, hordinal] at hday

end Flat

end PriceBars
end Ingestion
end PerpCarry
