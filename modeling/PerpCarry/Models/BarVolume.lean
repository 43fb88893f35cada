import PerpCarry.Core.DecimalSum
import PerpCarry.Ingestion.PriceBars
import PerpCarry.Lib.Tally

/-!
# Models.BarVolume

The average daily volume of the futures bars before a day, with its evidence: `monthly_volumes`,
`average_daily_volume` and `verified_volume_inputs` of `python/perpcarry/models/bar_volume.py`.

Whole months are admitted, so that a month is read past the day that the average is for. The average
must not see it: what a backtest is given for a day is fixed when the day begins.

* `monthlyVolumes_ok`: a row of the result is the total of the bars of one day.
* `verified_causal`: the feature of a day is that of the bars before it.
* `verified_exact`: what is divided by thirty is the exact sum of their volumes.
-/

namespace PerpCarry
namespace Models
namespace BarVolume

open Ingestion
open FetchTrades (Casts)
open Lib (mapError_ok refuse_ok)
open Lib.Tally (tally)
open MarkPrices (BASE KlineRow minutes)
open PriceBars (PriceError RawBars)
open Strategy (bind_ok pure_ok)

def METHOD : String := "binance-usdm-1m-base-volume-decimal-prior-30-utc-days-v1"

/-- `localcontext()` with `prec = 60`. -/
def volumeContext : Context where
  prec := 60
  rounding := .halfEven
  eMin := -999999
  eMax := 999999
  prec_pos := by decide
  eMin_nonpos := by decide
  eMax_nonneg := by decide

/-! ## What is on the disk -/

/-- The fields of a price report that are looked at. -/
structure PriceReport where
  symbol : Option String
  month : Option String
  market : Option String
  source : Option String
  sourceSha256 : Option String

/-- A month's archive and its report as the two readings find them. -/
structure Readings where
  report : PriceReport
  reportSha256 : String
  sha256 : String
  raw : RawBars
  sha256After : String
  reportUnchanged : Bool

/-- `BarVolumeError`, an error of `normalise`, of the decimal context or of a reading, or the
`OverflowError` of a date. -/
inductive VolumeError where
  | data (message : String)
  | price (e : PriceError)
  | signal (e : DecimalSignal)
  | cast
  | reading (message : String)
  | overflow
  deriving DecidableEq

abbrev Disk := String → Month → Except VolumeError Readings

abbrev refuse (bad : Prop) [Decidable bad] (message : String) : Except VolumeError Unit :=
  Lib.refuse bad (.data message)

/-! ## A month -/

/-- `klines_monthly_url`. -/
def archiveUrl (symbol : String) (month : Month) : String :=
  BASE ++ "/monthly/klines/" ++ symbol ++ "/1m/" ++ symbol ++ "-1m-" ++ month.text ++ ".zip"

structure DayTotal where
  baseVolume : FiniteDecimal
  quoteVolume : FiniteDecimal
  trades : Int
  minutes : Nat
  deriving DecidableEq

/-- A row of the result. A volume is kept as the decimal that its text `format(value, "f")`
spells. -/
structure DayRow where
  date : String
  baseVolume : FiniteDecimal
  quoteVolume : FiniteDecimal
  trades : Int
  minutes : Nat
  source : String
  sourceSha256 : String
  reportSha256 : String

section Month

variable (casts : Casts) (parse : String → Option PyDecimal)

/-- `Decimal(value)` of a cell; a missing one is a NaN. -/
def volume : Option String → Except VolumeError FiniteDecimal
  | none => .error (.data "nonfinite or negative volume")
  | some text =>
    match parse text with
    | none => .error (.data "invalid decimal volume")
    | some (.finite d) =>
      if d.toRat < 0 then .error (.data "nonfinite or negative volume") else .ok d
    | some _ => .error (.data "nonfinite or negative volume")

/-- `dt.datetime.fromtimestamp(int(opened) // 1000, dt.UTC).date().isoformat()`. `int` reads what
`astype("int64")` has read. -/
def dateOf (row : KlineRow) : String :=
  Date.isoDay ((casts.int64 row.openTime).getD 0 / 1000 / 86400)

/-- `Decimal(0)` and the counts at zero. -/
def noTotal : DayTotal := ⟨⟨false, 0, 0⟩, ⟨false, 0, 0⟩, 0, 0⟩

def addRow (item : DayTotal) (row : KlineRow) : Except VolumeError DayTotal := do
  let base ← volume parse row.volume
  let quote ← volume parse row.quoteVolume
  let baseVolume ← (volumeContext.add item.baseVolume base).mapError .signal
  let quoteVolume ← (volumeContext.add item.quoteVolume quote).mapError .signal
  match casts.int64 row.count with
  | none => .error .cast
  | some count => return ⟨baseVolume, quoteVolume, item.trades + count, item.minutes + 1⟩

def dayRow (found : Readings) (url : String) (entry : String × DayTotal) :
    Except VolumeError DayRow := do
  refuse (entry.2.minutes ≠ 1440 ∨ entry.2.baseVolume.toRat ≤ 0)
    "incomplete or nonpositive daily volume"
  return ⟨entry.1, entry.2.baseVolume.plain, entry.2.quoteVolume.plain, entry.2.trades,
    entry.2.minutes, url, found.sha256, found.reportSha256⟩

/-- `raw[raw["open_time"] != "open_time"]`. -/
def barRows (raw : RawBars) : List KlineRow :=
  raw.rows.filter fun row => row.openTime ≠ some "open_time"

def monthlyVolumes (disk : Disk) (symbol : String) (month : Month) :
    Except VolumeError (List DayRow) := do
  let found ← disk symbol month
  let url := archiveUrl symbol month
  refuse (found.report.symbol ≠ some symbol ∨ found.report.month ≠ some month.text ∨
    found.report.market ≠ some "futures" ∨ found.report.source ≠ some url)
    "price source report identity does not match requested month"
  refuse (some found.sha256 ≠ found.report.sourceSha256)
    "cached price archive differs from its recorded published checksum"
  let _ ← (PriceBars.normalise casts found.raw symbol month "futures").mapError .price
  let totals ← tally (dateOf casts) noTotal (addRow casts parse) (barRows found.raw)
  let days ← totals.mapM (dayRow found url)
  refuse (found.sha256After ≠ found.sha256 ∨ found.reportUnchanged = false)
    "source changed during volume admission"
  return days

end Month

/-! ## The feature of a day -/

structure VolumeArtifact where
  method : String
  market : String
  symbol : String
  days : List DayRow

/-- What the digest of the evidence is taken of. -/
structure Evidence where
  method : String
  symbol : String
  market : String
  start : String
  endExclusive : String
  days : List (String × FiniteDecimal × String)

structure Adv where
  baseAdv : FiniteDecimal
  method : String
  symbol : String
  advStartMs : Int
  advEndExclusiveMs : Int
  evidenceSha256 : String
  deriving DecidableEq

structure VolumeInputs where
  adv : Adv
  provenance : List (String × String × String)

section Feature

variable (casts : Casts) (parse : String → Option PyDecimal) (digest : Evidence → String)

/-- `as_of - dt.timedelta(days=30)`. -/
def windowStart (asOf : Date) : Except VolumeError Date :=
  match Date.ofOrdinal (asOf.ordinal - 30) with
  | some start => .ok start
  | none => .error .overflow

def averageDailyVolume (artifact : VolumeArtifact) (asOf : Date) : Except VolumeError Adv := do
  refuse (artifact.method ≠ METHOD ∨ artifact.market ≠ "futures")
    "unsupported ADV method or market"
  let start ← windowStart asOf
  let selected := artifact.days.filter fun row =>
    decide (start.text ≤ row.date) && decide (row.date < asOf.text)
  let expected := (List.range 30).map fun (i : Nat) => Date.isoDay (start.ordinal + i)
  refuse (selected.map (·.date) ≠ expected) "ADV requires exactly 30 ordered completed UTC days"
  let quantities := selected.map (·.baseVolume)
  refuse (∃ value ∈ quantities, value.toRat ≤ 0) "invalid prior daily volume"
  let total ← (volumeContext.sum quantities).mapError .signal
  let value ← (volumeContext.divide total ⟨false, 30, 0⟩).mapError .signal
  let evidence := {
    method := METHOD
    symbol := artifact.symbol
    market := "futures"
    start := start.text
    endExclusive := asOf.text
    days := selected.map fun row => (row.date, row.baseVolume, row.source) }
  return ⟨value.plain, METHOD, artifact.symbol, start.ordinal * 86400000,
    asOf.ordinal * 86400000, digest evidence⟩

/-- The months of the thirty days from `start` on, in order. -/
def windowMonths (start : Date) : List Month :=
  (((List.range 30).filterMap fun (i : Nat) => Date.ofOrdinal (start.ordinal + i)).map
    (·.month)).dedup.insertionSort fun m m' => m.index ≤ m'.index

def verifiedVolumeInputs (disk : Disk) (symbol : String) (asOf : Date) :
    Except VolumeError VolumeInputs := do
  let start ← windowStart asOf
  let days ← (windowMonths start).mapM (monthlyVolumes casts parse disk symbol)
  let artifact := ⟨METHOD, "futures", symbol, days.flatten⟩
  let provenance := (artifact.days.filter fun row => "-01".toList.isSuffixOf row.date.toList).map
    fun row => (row.source, row.sourceSha256, row.reportSha256)
  let adv ← averageDailyVolume digest artifact asOf
  return ⟨adv, provenance⟩

end Feature

/-! ## A month's rows -/

section Rows

variable {casts : Casts} {parse : String → Option PyDecimal} {disk : Disk} {symbol : String}
  {month : Month} {days : List DayRow}

/-- The bars of a month, beside its minutes. -/
def OnGrid (casts : Casts) (month : Month) (raw : RawBars) : Prop :=
  List.Forall₂ (fun row t => casts.int64 row.openTime = some t) (barRows raw)
    (minutes month)

theorem onGrid_of_normalise {raw : RawBars} {frame : List PriceBars.PriceBar}
    (h : PriceBars.normalise casts raw symbol month "futures" = .ok frame) :
    OnGrid casts month raw := by
  obtain ⟨market, hmarket, hreads, hgrid, _⟩ := PriceBars.normalise_ok h
  obtain rfl : market = .futures := by
    have hname : PriceBars.Market.ofName "futures" = some .futures := rfl
    exact Option.some.inj (hmarket.symm.trans hname)
  unfold OnGrid
  rw [← hgrid, List.forall₂_map_right_iff]
  refine hreads.imp fun row bar hread => ?_
  obtain ⟨units, hunits, hopened⟩ := hread.opened
  have hdivisor : PriceBars.divisor month .futures = 1 := rfl
  rw [hopened, hdivisor, Int.ediv_one]
  exact hunits

/-- The date of a bar is one of its month. -/
theorem dateOf_grid {raw : RawBars} (h : OnGrid casts month raw) {row : KlineRow}
    (hrow : row ∈ barRows raw) : ∃ t, casts.int64 row.openTime = some t ∧
      ∃ d : Date, d.month = month ∧ t / 86400000 = d.ordinal ∧ dateOf casts row = d.text := by
  obtain ⟨t, ht, hopened⟩ := Lib.exists_of_forall₂_left h hrow
  obtain ⟨d, hd, hordinal⟩ := PriceBars.minute_date ht
  refine ⟨t, hopened, d, hd, hordinal, ?_⟩
  have hday : t / 1000 / 86400 = d.ordinal := by omega
  rw [dateOf, hopened, Option.getD_some, hday, Date.isoDay_ordinal]

/-- The bars of a day. -/
def rowsOf (casts : Casts) (raw : RawBars) (d : Date) : List KlineRow :=
  (barRows raw).filter fun row => dateOf casts row = d.text

/-- A row of the result: the total of a day's bars. -/
structure DayRow.Totals (casts : Casts) (parse : String → Option PyDecimal) (symbol : String)
    (raw : RawBars) (d : Date) (row : DayRow) : Prop where
  date : row.date = d.text
  source : row.source = archiveUrl symbol d.month
  total : ∃ total, Lib.run (addRow casts parse) noTotal (rowsOf casts raw d) = .ok total ∧
    row.baseVolume = total.baseVolume.plain ∧ 0 < total.baseVolume.toRat

theorem monthlyVolumes_ok (h : monthlyVolumes casts parse disk symbol month = .ok days) :
    ∃ found, disk symbol month = .ok found ∧ OnGrid casts month found.raw ∧
      ∀ row ∈ days, ∃ d : Date, d.month = month ∧ row.Totals casts parse symbol found.raw d := by
  unfold monthlyVolumes at h
  simp only [bind_ok, pure_ok, refuse_ok] at h
  obtain ⟨found, hfound, _, _, _, _, frame, hframe, totals, htotals, found', hdays, _, _, rfl⟩ := h
  have hgrid : OnGrid casts month found.raw := by
    cases hnormalise : PriceBars.normalise casts found.raw symbol month "futures" with
    | error e =>
      rw [hnormalise] at hframe
      cases hframe
    | ok frame => exact onGrid_of_normalise hnormalise
  have htallied := Lib.Tally.tally_ok htotals
  refine ⟨found, hfound, hgrid, fun row hrow => ?_⟩
  obtain ⟨entry, hentry, hmade⟩ :=
    Lib.exists_of_forall₂_right (Lib.mapM_ok_iff.mp hdays) hrow
  unfold dayRow at hmade
  simp only [bind_ok, pure_ok, refuse_ok] at hmade
  obtain ⟨_, hcomplete, rfl⟩ := hmade
  obtain ⟨bar, hbar, hkey⟩ :=
    List.mem_map.mp ((htallied.keys _).mp (List.mem_map_of_mem hentry))
  obtain ⟨_, _, d, hd, _, hdate⟩ := dateOf_grid hgrid hbar
  have htext : entry.1 = d.text := hkey.symm.trans hdate
  refine ⟨d, hd, htext, by rw [hd], entry.2, ?_, rfl, by
    rw [not_or, not_le] at hcomplete
    exact hcomplete.2⟩
  have htotal := htallied.total entry hentry
  rw [htext] at htotal
  exact htotal

/-! ## The feature is causal -/

/-- The bars of an archive that open before a day. -/
def pastRows (casts : Casts) (asOf : Date) (raw : RawBars) : List KlineRow :=
  (barRows raw).filter fun row =>
    (casts.int64 row.openTime).any fun t => t < asOf.ordinal * 86400000

theorem rowsOf_past {asOf d : Date} {raw : RawBars} (hgrid : OnGrid casts month raw)
    (hd : d.ordinal < asOf.ordinal) :
    rowsOf casts raw d = (pastRows casts asOf raw).filter fun row => dateOf casts row = d.text := by
  unfold rowsOf pastRows
  rw [List.filter_filter]
  refine List.filter_congr fun row hrow => ?_
  obtain ⟨t, hopened, d', _, hordinal, hdate⟩ := dateOf_grid hgrid hrow
  rw [hopened, hdate, Option.any_some]
  by_cases hsame : d'.text = d.text
  · rw [Date.text_inj.mp hsame] at hordinal
    have hlt : t < asOf.ordinal * 86400000 := by omega
    simp [hsame, hlt]
  · simp [hsame]

end Rows

/-- The rows of the thirty days before a day. -/
def selectedDays (start asOf : Date) (days : List DayRow) : List DayRow :=
  days.filter fun row => decide (start.text ≤ row.date) && decide (row.date < asOf.text)

/-- What the evidence holds of a row. -/
def DayRow.evidence (row : DayRow) : String × FiniteDecimal × String :=
  (row.date, row.baseVolume, row.source)

section Feature

variable {casts : Casts} {parse : String → Option PyDecimal} {digest : Evidence → String}
  {disk disk' : Disk} {symbol : String} {asOf : Date} {inputs inputs' : VolumeInputs}

/-- A feature, made of the selected rows. -/
structure Made (digest : Evidence → String) (symbol : String) (start asOf : Date)
    (rows : List (String × FiniteDecimal × String)) (adv : Adv) : Prop where
  dates : rows.map (·.1) = (List.range 30).map fun (i : Nat) => Date.isoDay (start.ordinal + i)
  mean : ∃ total value, volumeContext.sum (rows.map (·.2.1)) = .ok total ∧
    volumeContext.divide total ⟨false, 30, 0⟩ = .ok value ∧ adv.baseAdv = value.plain
  rest : adv = ⟨adv.baseAdv, METHOD, symbol, start.ordinal * 86400000, asOf.ordinal * 86400000,
    digest ⟨METHOD, symbol, "futures", start.text, asOf.text, rows⟩⟩

theorem averageDailyVolume_ok {artifact : VolumeArtifact} {adv : Adv}
    (h : averageDailyVolume digest artifact asOf = .ok adv) : ∃ start,
      windowStart asOf = .ok start ∧ Made digest artifact.symbol start asOf
        ((selectedDays start asOf artifact.days).map DayRow.evidence) adv := by
  unfold averageDailyVolume at h
  simp only [bind_ok, pure_ok, refuse_ok, not_not, mapError_ok] at h
  obtain ⟨_, _, start, hstart, _, hdates, _, _, total, htotal, value, hvalue, rfl⟩ := h
  refine ⟨start, hstart, ?_, ⟨total, value, ?_, hvalue, rfl⟩, rfl⟩
  · rw [List.map_map]
    exact hdates
  · rw [List.map_map]
    exact htotal

/-- A month before `asOf` whose archive was admitted. -/
def Admitted (casts : Casts) (parse : String → Option PyDecimal) (disk : Disk) (symbol : String)
    (asOf : Date) (month : Month) : Prop :=
  ∃ start rows, windowStart asOf = .ok start ∧ month ∈ windowMonths start ∧
    monthlyVolumes casts parse disk symbol month = .ok rows

/-- A selected row: the total of the bars of a day before `asOf`, in an archive that was
admitted. -/
theorem selected_total (h : verifiedVolumeInputs casts parse digest disk symbol asOf = .ok inputs) :
    ∃ start days, windowStart asOf = .ok start ∧ Made digest symbol start asOf
        ((selectedDays start asOf days).map DayRow.evidence) inputs.adv ∧
      ∀ row ∈ selectedDays start asOf days, ∃ (d : Date) (found : Readings),
        disk symbol d.month = .ok found ∧ Admitted casts parse disk symbol asOf d.month ∧
        OnGrid casts d.month found.raw ∧ (start.ordinal ≤ d.ordinal ∧ d.ordinal < asOf.ordinal) ∧
        row.Totals casts parse symbol found.raw d := by
  unfold verifiedVolumeInputs at h
  simp only [bind_ok, pure_ok] at h
  obtain ⟨start, hstart, days, hdays, adv, hadv, rfl⟩ := h
  obtain ⟨start', hstart', hmade⟩ := averageDailyVolume_ok hadv
  obtain rfl : start = start' := Except.ok.inj (hstart.symm.trans hstart')
  refine ⟨start, days.flatten, hstart, hmade, fun row hrow => ?_⟩
  obtain ⟨hrow, hrange⟩ := List.mem_filter.mp hrow
  rw [Bool.and_eq_true, decide_eq_true_eq, decide_eq_true_eq] at hrange
  obtain ⟨rows, hrows, hrow⟩ := List.mem_flatten.mp hrow
  obtain ⟨month, hmember, hmonth⟩ := Lib.exists_of_forall₂_right (Lib.mapM_ok_iff.mp hdays) hrows
  obtain ⟨found, hfound, hgrid, htotals⟩ := monthlyVolumes_ok hmonth
  obtain ⟨d, rfl, htotal⟩ := htotals row hrow
  refine ⟨d, found, hfound, ⟨start, rows, hstart, hmember, hmonth⟩, hgrid, ?_, htotal⟩
  rw [htotal.date, Date.text_lt, ← Date.ordinal_lt] at hrange
  refine ⟨?_, hrange.2⟩
  by_contra hlt
  exact absurd (Date.text_lt.mpr (Date.ordinal_lt.mp (not_le.mp hlt))) (not_lt.mpr hrange.1)

/-- Rows with the same dates hold the same, if rows of one date do. -/
theorem evidence_congr {rows rows' : List DayRow} (hdates : rows.map (·.date) = rows'.map (·.date))
    (h : ∀ row ∈ rows, ∀ row' ∈ rows', row.date = row'.date → row.evidence = row'.evidence) :
    rows.map DayRow.evidence = rows'.map DayRow.evidence := by
  induction rows generalizing rows' with
  | nil =>
    cases rows' with
    | nil => rfl
    | cons row' rows' => cases hdates
  | cons row rows ih =>
    cases rows' with
    | nil => cases hdates
    | cons row' rows' =>
      obtain ⟨hdate, hrest⟩ := List.cons.inj hdates
      rw [List.map_cons, List.map_cons, h row List.mem_cons_self row' List.mem_cons_self hdate,
        ih hrest fun row hrow row' hrow' =>
          h row (List.mem_cons_of_mem _ hrow) row' (List.mem_cons_of_mem _ hrow')]

/-- Two disks whose archives hold the same bars before a day give the same feature for it, whatever
the rest of the months holds. -/
theorem verified_causal
    (h : verifiedVolumeInputs casts parse digest disk symbol asOf = .ok inputs)
    (h' : verifiedVolumeInputs casts parse digest disk' symbol asOf = .ok inputs')
    (hpast : ∀ month found found', disk symbol month = .ok found → disk' symbol month = .ok found' →
      pastRows casts asOf found.raw = pastRows casts asOf found'.raw) :
    inputs.adv = inputs'.adv := by
  obtain ⟨start, days, hstart, hmade, htotals⟩ := selected_total h
  obtain ⟨start', days', hstart', hmade', htotals'⟩ := selected_total h'
  obtain rfl : start = start' := Except.ok.inj (hstart.symm.trans hstart')
  have hsame : (selectedDays start asOf days).map DayRow.evidence =
      (selectedDays start asOf days').map DayRow.evidence := by
    refine evidence_congr ?_ fun row hrow row' hrow' hdate => ?_
    · have hdates := hmade.dates.trans hmade'.dates.symm
      rwa [List.map_map, List.map_map] at hdates
    · obtain ⟨d, found, hfound, _, hgrid, hrange, htotal⟩ := htotals row hrow
      obtain ⟨d', found', hfound', _, hgrid', hrange', htotal'⟩ := htotals' row' hrow'
      obtain rfl : d = d' :=
        Date.text_inj.mp (htotal.date.symm.trans (hdate.trans htotal'.date))
      have hrows : rowsOf casts found.raw d = rowsOf casts found'.raw d := by
        rw [rowsOf_past hgrid hrange.2, rowsOf_past hgrid' hrange.2,
          hpast d.month found found' hfound hfound']
      obtain ⟨total, hrun, hbase, _⟩ := htotal.total
      obtain ⟨total', hrun', hbase', _⟩ := htotal'.total
      rw [hrows] at hrun
      obtain rfl : total = total' := Except.ok.inj (hrun.symm.trans hrun')
      unfold DayRow.evidence
      rw [hdate, hbase, hbase', htotal.source, htotal'.source]
  obtain ⟨total, value, htotal, hvalue, hbase⟩ := hmade.mean
  obtain ⟨total', value', htotal', hvalue', hbase'⟩ := hmade'.mean
  rw [hsame] at htotal
  obtain rfl : total = total' := Except.ok.inj (htotal.symm.trans htotal')
  obtain rfl : value = value' := Except.ok.inj (hvalue.symm.trans hvalue')
  rw [hmade.rest, hmade'.rest, hbase, hbase', hsame]

end Feature

/-! ## The feature is exact -/

section Exact

variable {casts : Casts} {parse : String → Option PyDecimal} {digest : Evidence → String}
  {disk : Disk} {symbol : String} {asOf : Date} {inputs : VolumeInputs} {month : Month}

/-- The bars of a day are its minutes. -/
theorem rowsOf_opened {raw : RawBars} {d : Date} (hgrid : OnGrid casts month raw)
    (hd : d.month = month) : (rowsOf casts raw d).map (fun row => casts.int64 row.openTime) =
      (List.range 1440).map fun (j : Nat) => some (d.ordinal * 86400000 + 60000 * (j : Int)) := by
  have hopened : (barRows raw).map (fun row => casts.int64 row.openTime) =
      (minutes month).map some := by
    rw [← List.forall₂_eq_eq_eq, List.forall₂_map_left_iff, List.forall₂_map_right_iff]
    exact hgrid
  have hday : ∀ t : Int, t / 1000 / 86400 = t / 86400000 := fun t => by omega
  have hfilter := congrArg (List.filter fun opened : Option Int =>
    decide (Date.isoDay (opened.getD 0 / 1000 / 86400) = d.text)) hopened
  rw [List.filter_map, List.filter_map] at hfilter
  refine hfilter.trans ?_
  have hdates := congrArg (List.map some) (PriceBars.minutes_of_date hd)
  rw [List.map_map] at hdates
  simp only [Function.comp_def, Option.getD_some, hday]
  exact hdates

theorem run_volumes {item total : DayTotal} {rows : List KlineRow}
    (h : Lib.run (addRow casts parse) item rows = .ok total) :
    ∃ volumes, List.Forall₂ (fun row d => volume parse row.volume = .ok d) rows volumes ∧
      Lib.run volumeContext.add item.baseVolume volumes = .ok total.baseVolume := by
  induction rows generalizing item with
  | nil =>
    cases h
    exact ⟨[], .nil, rfl⟩
  | cons row rows ih =>
    obtain ⟨next, hnext, hrest⟩ := Lib.run_cons_ok.mp h
    unfold addRow at hnext
    simp only [bind_ok, mapError_ok] at hnext
    obtain ⟨base, hbase, _, _, sum, hsum, _, _, hcount⟩ := hnext
    split at hcount
    · cases hcount
    · rw [pure_ok] at hcount
      subst hcount
      obtain ⟨volumes, hvolumes, hrun⟩ := ih hrest
      exact ⟨base :: volumes, .cons hbase hvolumes, Lib.run_cons_ok.mpr ⟨sum, hsum, hrun⟩⟩

/-- The volumes of the bars of a day were read. -/
theorem DayRow.Totals.volumes {raw : RawBars} {d : Date} {row : DayRow}
    (h : row.Totals casts parse symbol raw d) :
    ∀ bar ∈ rowsOf casts raw d, ∃ v, volume parse bar.volume = .ok v := by
  obtain ⟨total, hrun, _⟩ := h.total
  obtain ⟨volumes, hvolumes, _⟩ := run_volumes hrun
  intro bar hbar
  obtain ⟨v, _, hv⟩ := Lib.exists_of_forall₂_left hvolumes hbar
  exact ⟨v, hv⟩

/-- A bar of an admitted archive, with the volume that was read. -/
def AdmittedBar (casts : Casts) (parse : String → Option PyDecimal) (disk : Disk)
    (symbol : String) (asOf : Date) (bar : KlineRow) : Prop :=
  ∃ month found, Admitted casts parse disk symbol asOf month ∧ disk symbol month = .ok found ∧
    bar ∈ barRows found.raw ∧ ∃ v, volume parse bar.volume = .ok v

/-- The bars of a row of the result. -/
structure BarsOf (casts : Casts) (parse : String → Option PyDecimal) (disk : Disk)
    (symbol : String) (asOf : Date) (day : Int) (bars : List KlineRow) : Prop where
  opened : bars.map (fun bar => casts.int64 bar.openTime) =
    (List.range 1440).map fun (j : Nat) => some (day * 86400000 + 60000 * (j : Int))
  admitted : ∀ bar ∈ bars, AdmittedBar casts parse disk symbol asOf bar

/-- The volumes that are read are multiples of a smallest unit, below a bound. -/
def Measured (parse : String → Option PyDecimal) (disk : Disk) (symbol : String)
    (units : KlineRow → Nat) (places : Nat) : Prop :=
  ∀ month found, disk symbol month = .ok found → ∀ bar ∈ barRows found.raw, ∀ d,
    volume parse bar.volume = .ok d →
      d.toRat = units bar * (10 : ℚ) ^ (-(places : Int)) ∧ units bar < 10 ^ 55

theorem sum_lt {ns : List Nat} {bound : Nat} (h : ∀ n ∈ ns, n < bound) :
    ns.sum ≤ ns.length * bound := by
  have hle := List.sum_le_card_nsmul ns bound fun n hn => (h n hn).le
  rwa [nsmul_eq_mul, Nat.cast_id] at hle

variable {units : KlineRow → Nat} {places : Nat}

theorem BarsOf.units_sum {day : Int} {bars : List KlineRow}
    (h : BarsOf casts parse disk symbol asOf day bars) (hbound : ∀ bar ∈ bars, units bar < 10 ^ 55) :
    (bars.map units).sum ≤ 1440 * 10 ^ 55 := by
  have hlength := congrArg List.length h.opened
  rw [List.length_map, List.length_map, List.length_range] at hlength
  have hsum := sum_lt (List.forall_mem_map.mpr hbound)
  rwa [List.length_map, hlength] at hsum

/-- A sum of few enough digits is exact. -/
theorem total_exact {values : List FiniteDecimal} {ns : List Nat} {total : FiniteDecimal}
    (hvalues : List.Forall₂ (fun d n => d.toRat = (n : Nat) * (10 : ℚ) ^ (-(places : Int)))
      values ns)
    (hplaces : places ≤ 999999) (hdigits : ns.sum ≤ 43200 * 10 ^ 55)
    (h : volumeContext.sum values = .ok total) :
    total.toRat = (ns.sum : ℚ) * (10 : ℚ) ^ (-(places : Int)) := by
  have hzero : FiniteDecimal.toRat ⟨false, 0, 0⟩ = (0 : Nat) * (10 : ℚ) ^ (-(places : Int)) := by
    simp [FiniteDecimal.toRat, FiniteDecimal.magnitude]
  have htiny : volumeContext.etiny ≤ -places := by
    have hetiny : volumeContext.etiny = -1000058 := by decide
    omega
  have hprec : 0 + ns.sum < 10 ^ volumeContext.prec := by
    have hbound : 43200 * 10 ^ 55 < 10 ^ volumeContext.prec := by decide
    omega
  obtain ⟨r, hr, hvalue⟩ := Context.sum_exact hvalues hzero hprec htiny (by decide)
  obtain rfl : r = total := Except.ok.inj (hr.symm.trans h)
  rw [hvalue, zero_add]

theorem DayRow.Totals.exact {raw : RawBars} {d : Date} {row : DayRow}
    (htotal : row.Totals casts parse symbol raw d)
    (hbars : BarsOf casts parse disk symbol asOf d.ordinal (rowsOf casts raw d))
    (hunits : Measured parse disk symbol units places) (hplaces : places ≤ 999999) :
    row.baseVolume.toRat =
      (((rowsOf casts raw d).map units).sum : ℚ) * (10 : ℚ) ^ (-(places : Int)) ∧
      ((rowsOf casts raw d).map units).sum ≤ 1440 * 10 ^ 55 := by
  obtain ⟨total, hrun, hbase, _⟩ := htotal.total
  obtain ⟨volumes, hvolumes, hsum⟩ := run_volumes hrun
  have hread : ∀ bar ∈ rowsOf casts raw d, ∀ v, volume parse bar.volume = .ok v →
      v.toRat = units bar * (10 : ℚ) ^ (-(places : Int)) ∧ units bar < 10 ^ 55 := by
    intro bar hbar v hv
    obtain ⟨month, found, _, hfound, hmem, _⟩ := hbars.admitted bar hbar
    exact hunits month found hfound bar hmem v hv
  have hbound : ((rowsOf casts raw d).map units).sum ≤ 1440 * 10 ^ 55 := by
    refine hbars.units_sum fun bar hbar => ?_
    obtain ⟨v, _, hv⟩ := Lib.exists_of_forall₂_left hvolumes hbar
    exact (hread bar hbar v hv).2
  have hvalues : List.Forall₂ (fun v n => v.toRat = (n : Nat) * (10 : ℚ) ^ (-(places : Int)))
      volumes ((rowsOf casts raw d).map units) := by
    rw [List.forall₂_map_right_iff]
    refine ((List.forall₂_and_left _ _).mpr ⟨hread, hvolumes⟩).flip.imp ?_
    rintro v bar ⟨hbar, hv⟩
    exact (hbar v hv).1
  have hvalue := total_exact hvalues hplaces (le_trans hbound (by norm_num)) hsum
  rw [hbase, FiniteDecimal.plain_toRat]
  exact ⟨hvalue, hbound⟩

/-- The bars of the days one after the other, with the totals of the days. -/
theorem bars_of_days {start : Int} {rows : List DayRow} {offsets : List Nat}
    (h : List.Forall₂ (fun row (i : Nat) => ∃ bars : List KlineRow,
      BarsOf casts parse disk symbol asOf (start + i) bars ∧
      row.baseVolume.toRat = ((bars.map units).sum : ℚ) * (10 : ℚ) ^ (-(places : Int)) ∧
      (bars.map units).sum ≤ 1440 * 10 ^ 55) rows offsets) :
    ∃ (bars : List KlineRow) (ns : List Nat),
      bars.map (fun bar => casts.int64 bar.openTime) = (offsets.flatMap fun (i : Nat) =>
        (List.range 1440).map fun (j : Nat) => some ((start + i) * 86400000 + 60000 * (j : Int))) ∧
      (∀ bar ∈ bars, AdmittedBar casts parse disk symbol asOf bar) ∧
      List.Forall₂ (fun d n => d.toRat = (n : Nat) * (10 : ℚ) ^ (-(places : Int)))
        (rows.map (·.baseVolume)) ns ∧
      ns.sum = (bars.map units).sum ∧ ns.sum ≤ offsets.length * (1440 * 10 ^ 55) := by
  induction h with
  | nil => exact ⟨[], [], rfl, List.forall_mem_nil _, .nil, rfl, by simp⟩
  | @cons row i rows offsets hrow _ ih =>
    obtain ⟨bars, hbars, hvalue, hbound⟩ := hrow
    obtain ⟨later, ns, hopened, hadmitted, hvalues, hsum, htotal⟩ := ih
    refine ⟨bars ++ later, (bars.map units).sum :: ns, ?_, ?_, .cons hvalue hvalues, ?_, ?_⟩
    · rw [List.map_append, hbars.opened, hopened, List.flatMap_cons]
    · intro bar hbar
      rcases List.mem_append.mp hbar with hbar | hbar
      · exact hbars.admitted bar hbar
      · exact hadmitted bar hbar
    · rw [List.sum_cons, List.map_append, List.sum_append, hsum]
    · rw [List.sum_cons, List.length_cons]
      omega

/-- What is divided by thirty is the sum of the volumes of the 43200 minutes before the day, each of
them once and without rounding. -/
theorem verified_exact
    (h : verifiedVolumeInputs casts parse digest disk symbol asOf = .ok inputs)
    (hunits : Measured parse disk symbol units places) (hplaces : places ≤ 999999) :
    ∃ (bars : List KlineRow) (total value : FiniteDecimal),
      bars.map (fun bar => casts.int64 bar.openTime) = ((List.range 30).flatMap fun (i : Nat) =>
        (List.range 1440).map fun (j : Nat) =>
          some ((asOf.ordinal - 30 + i) * 86400000 + 60000 * (j : Int))) ∧
      (∀ bar ∈ bars, AdmittedBar casts parse disk symbol asOf bar) ∧
      total.toRat = ((bars.map units).sum : ℚ) * (10 : ℚ) ^ (-(places : Int)) ∧
      volumeContext.divide total ⟨false, 30, 0⟩ = .ok value ∧
      inputs.adv.baseAdv = value.plain := by
  obtain ⟨start, days, hstart, hmade, htotals⟩ := selected_total h
  have hfirst : start.ordinal = asOf.ordinal - 30 := by
    unfold windowStart at hstart
    split at hstart
    · rename_i found hfound
      cases hstart
      exact Date.ofOrdinal_some.mp hfound
    · cases hstart
  have hdates : List.Forall₂ (fun (row : DayRow) (i : Nat) =>
      row.date = Date.isoDay (start.ordinal + i)) (selectedDays start asOf days)
      (List.range 30) := by
    have hdates := hmade.dates
    rw [List.map_map, ← List.forall₂_eq_eq_eq, List.forall₂_map_left_iff,
      List.forall₂_map_right_iff] at hdates
    exact hdates
  have hdays : List.Forall₂ (fun row (i : Nat) => ∃ bars : List KlineRow,
      BarsOf casts parse disk symbol asOf (asOf.ordinal - 30 + i) bars ∧
      row.baseVolume.toRat = ((bars.map units).sum : ℚ) * (10 : ℚ) ^ (-(places : Int)) ∧
      (bars.map units).sum ≤ 1440 * 10 ^ 55) (selectedDays start asOf days) (List.range 30) := by
    have hrange := (List.forall₂_and_left _ _).mpr
      ⟨fun i hi => List.mem_range.mp hi,
        ((List.forall₂_and_left _ _).mpr ⟨htotals, hdates⟩).flip⟩
    refine hrange.flip.imp ?_
    rintro row i ⟨hi, ⟨d, found, hfound, hmonth, hgrid, hwithin, htotal⟩, hdate⟩
    -- the row's date is the day at this offset
    obtain ⟨d', hd'⟩ := @Date.exists_ordinal start asOf i (by omega)
    rw [htotal.date, ← hd', Date.isoDay_ordinal, Date.text_inj] at hdate
    subst hdate
    have hbars : BarsOf casts parse disk symbol asOf d.ordinal (rowsOf casts found.raw d) :=
      ⟨rowsOf_opened hgrid rfl, fun bar hbar =>
        ⟨d.month, found, hmonth, hfound, List.mem_of_mem_filter hbar, htotal.volumes bar hbar⟩⟩
    have hexact := htotal.exact hbars hunits hplaces
    rw [hd', hfirst] at hbars
    exact ⟨_, hbars, hexact⟩
  obtain ⟨bars, ns, hopened, hadmitted, hvalues, hsum, hbound⟩ := bars_of_days hdays
  obtain ⟨total, value, htotal, hvalue, hbase⟩ := hmade.mean
  rw [List.map_map] at htotal
  rw [List.length_range] at hbound
  refine ⟨bars, total, value, hopened, hadmitted, ?_, hvalue, hbase⟩
  rw [← hsum]
  exact total_exact hvalues hplaces (hbound.trans (by norm_num)) htotal

end Exact

/-! ### A month in which one unit is traded in each minute, on its last day one or two -/

section Flat

open FetchTrades (july2026 wholeCasts wholeNumber)
open PriceBars (FewUnits ShortStamps tradedRow)

/-- Digits only. -/
def wholeParse (text : String) : Option PyDecimal :=
  (wholeNumber (some text)).map fun n => .finite ⟨false, n, 0⟩

def lastOfJuly : Date := ⟨july2026, 31, by decide⟩

/-- The units of a minute, by its day. -/
def dayUnits (more : Bool) (day : Int) : Nat := if more = true ∧ 20665 ≤ day then 2 else 1

def flatRaw (more : Bool) : RawBars :=
  ⟨MarkPrices.KLINE_COLUMNS,
    (minutes july2026).map fun t => tradedRow (dayUnits more (t / 86400000)) t⟩

def flatReadings (more : Bool) (reportSha256 : String) : Readings where
  report := ⟨some "BTCUSDT", some "2026-07", some "futures",
    some (archiveUrl "BTCUSDT" july2026), some "published"⟩
  reportSha256
  sha256 := "published"
  raw := flatRaw more
  sha256After := "published"
  reportUnchanged := true

/-- July in the cache, under a report with a digest of its own. -/
def flatDisk (more : Bool) (reportSha256 : String) : Disk := fun symbol month =>
  if symbol = "BTCUSDT" ∧ month = july2026 then .ok (flatReadings more reportSha256)
  else .error (.reading "no such file")

/-- After `n` minutes of so many units. -/
def flatTotal (units n : Nat) : DayTotal := ⟨⟨false, n * units, 0⟩, ⟨false, 0, 0⟩, 60 * n, n⟩

/-- Of day `i`, from 0 on. -/
def flatRows (more : Bool) (i : Nat) : List KlineRow :=
  (List.range 1440).map fun (j : Nat) =>
    tradedRow (dayUnits more (20635 + i)) ((20635 + i) * 86400000 + 60000 * (j : Int))

def flatDay (more : Bool) (reportSha256 : String) (i : Nat) : DayRow :=
  ⟨Date.isoDay (20635 + i), ⟨false, 1440 * dayUnits more (20635 + i), 0⟩, ⟨false, 0, 0⟩, 86400,
    1440, archiveUrl "BTCUSDT" july2026, "published", reportSha256⟩

theorem dayUnits_few (more : Bool) (day : Int) : FewUnits (dayUnits more day) := by
  unfold dayUnits
  split
  · exact .inr rfl
  · exact .inl rfl

theorem dayUnits_early (more : Bool) {day : Int} (h : day < 20665) : dayUnits more day = 1 :=
  if_neg fun hlate => by omega

theorem july_minute {t : Int} :
    t ∈ minutes july2026 ↔ 20635 * 86400000 ≤ t ∧ t < 20666 * 86400000 ∧ t % 60000 = 0 := by
  have hfirst : july2026.firstDay = 20635 := by decide
  have hdays : july2026.days = 31 := by decide
  rw [MarkPrices.mem_minutes, hfirst, hdays]
  omega

theorem july_stamps : ShortStamps july2026 := by
  intro t ht
  have := july_minute.mp ht
  omega

theorem flat_volumes {units : Nat} (h : FewUnits units) (t : Int) :
    volume wholeParse (tradedRow units t).volume = .ok ⟨false, units, 0⟩ ∧
      volume wholeParse (tradedRow units t).quoteVolume = .ok ⟨false, 0, 0⟩ := by
  have hparse : wholeParse units.repr = some (.finite ⟨false, units, 0⟩) := by
    rcases h with rfl | rfl
    · decide +kernel
    · decide +kernel
  have hzero : wholeParse "0" = some (.finite ⟨false, 0, 0⟩) := by decide +kernel
  have hvolume : (tradedRow units t).volume = some units.repr := rfl
  have hquote : (tradedRow units t).quoteVolume = some "0" := rfl
  rw [hvolume, hquote]
  simp [volume, hparse, hzero, FiniteDecimal.toRat, FiniteDecimal.magnitude]

theorem flat_step {units n : Nat} (hunits : FewUnits units) (t : Int) (h : n < 1440) :
    addRow wholeCasts wholeParse (flatTotal units n) (tradedRow units t) =
      .ok (flatTotal units (n + 1)) := by
  have hcount : wholeCasts.int64 (tradedRow units t).count = some 60 := by
    have hread : wholeCasts.int64 (some "60") = some 60 := by decide +kernel
    exact hread
  have hprec : n * units + units < 10 ^ volumeContext.prec := by
    have hlarge : 2880 < 10 ^ volumeContext.prec := by decide
    rcases hunits with rfl | rfl
    · omega
    · omega
  have hbase : volumeContext.add ⟨false, n * units, 0⟩ ⟨false, units, 0⟩ =
      .ok ⟨false, n * units + units, 0⟩ :=
    Context.add_whole hprec (by decide) (by decide)
  have hquote : volumeContext.add ⟨false, 0, 0⟩ ⟨false, 0, 0⟩ = .ok ⟨false, 0, 0⟩ := by decide
  obtain ⟨hvolume, hzero⟩ := flat_volumes hunits t
  unfold addRow
  simp only [hvolume, hzero, hcount, flatTotal, hbase, hquote, Except.mapError, bind_ok, pure_ok,
    Except.ok.injEq, exists_eq_left']
  rw [Nat.cast_add, Nat.cast_one, mul_add, mul_one, add_mul, one_mul]

theorem flat_run {units n : Nat} (hunits : FewUnits units) (ts : List Int)
    (h : n + ts.length ≤ 1440) :
    Lib.run (addRow wholeCasts wholeParse) (flatTotal units n) (ts.map (tradedRow units)) =
      .ok (flatTotal units (n + ts.length)) := by
  induction ts generalizing n with
  | nil => rfl
  | cons t ts ih =>
    rw [List.length_cons] at h ⊢
    have hrest := ih (show n + 1 + ts.length ≤ 1440 by omega)
    rw [Nat.add_right_comm] at hrest
    exact Lib.run_cons_ok.mpr ⟨_, flat_step hunits t (by omega), hrest⟩

theorem flat_blocks (more : Bool) : (flatRaw more).rows = (List.range 31).flatMap (flatRows more) := by
  have hminutes : minutes july2026 = (List.range 31).flatMap fun (i : Nat) =>
      (List.range 1440).map fun (j : Nat) => (20635 + i) * 86400000 + 60000 * (j : Int) := by
    refine Lib.eq_of_increasing (MarkPrices.minutes_increasing july2026) ?_ fun t => ?_
    · rw [List.pairwise_flatMap]
      refine ⟨fun i _ => ?_, List.pairwise_lt_range.imp fun {i j} hlt t ht t' ht' => ?_⟩
      · rw [List.pairwise_map]
        exact List.pairwise_lt_range.imp fun hlt => by omega
      · obtain ⟨k, hk, rfl⟩ := List.mem_map.mp ht
        obtain ⟨k', _, rfl⟩ := List.mem_map.mp ht'
        have := List.mem_range.mp hk
        omega
    · rw [july_minute, List.mem_flatMap]
      constructor
      · intro h
        refine ⟨(t / 86400000 - 20635).toNat, List.mem_range.mpr (by omega), List.mem_map.mpr
          ⟨(t % 86400000 / 60000).toNat, List.mem_range.mpr (by omega), by omega⟩⟩
      · rintro ⟨i, hi, h⟩
        obtain ⟨j, hj, rfl⟩ := List.mem_map.mp h
        have := List.mem_range.mp hi
        have := List.mem_range.mp hj
        omega
  unfold flatRaw
  dsimp only
  rw [hminutes, List.map_flatMap]
  refine congrArg (fun f => List.flatMap f (List.range 31)) (funext fun i => ?_)
  rw [List.map_map]
  refine List.map_congr_left fun j hj => ?_
  have hlt := List.mem_range.mp hj
  have hday : ((20635 + i) * 86400000 + 60000 * (j : Int)) / 86400000 = 20635 + i := by omega
  rw [Function.comp_apply, hday]

theorem flat_date (more : Bool) {i : Nat} (hi : i < 31) :
    ∀ row ∈ flatRows more i, dateOf wholeCasts row = Date.isoDay (20635 + i) := by
  intro row hrow
  obtain ⟨j, hj, rfl⟩ := List.mem_map.mp hrow
  have hlt := List.mem_range.mp hj
  have hmem : (20635 + i) * 86400000 + 60000 * (j : Int) ∈ minutes july2026 := by
    rw [july_minute]
    omega
  have hday : ((20635 + i) * 86400000 + 60000 * (j : Int)) / 1000 / 86400 = 20635 + i := by omega
  rw [dateOf, (PriceBars.traded_bar july_stamps _ hmem).1, Option.getD_some, hday]

theorem flat_dates : ((List.range 31).map fun (i : Nat) => Date.isoDay (20635 + i)).Nodup := by
  decide +kernel

theorem flat_rows_total (more : Bool) (i : Nat) :
    Lib.run (addRow wholeCasts wholeParse) noTotal (flatRows more i) =
      .ok (flatTotal (dayUnits more (20635 + i)) 1440) := by
  have hrun := @flat_run _ 0 (dayUnits_few more (20635 + i)) ((List.range 1440).map fun (j : Nat) =>
    (20635 + i) * 86400000 + 60000 * (j : Int)) (by rw [List.length_map, List.length_range])
  rw [List.length_map, List.length_range, List.map_map] at hrun
  have hstart : flatTotal (dayUnits more (20635 + i)) 0 = noTotal := by
    simp [flatTotal, noTotal]
  rw [hstart, zero_add] at hrun
  exact hrun

theorem flat_found {more : Bool} {sha symbol : String} {month : Month} {found : Readings}
    (h : flatDisk more sha symbol month = .ok found) :
    symbol = "BTCUSDT" ∧ month = july2026 ∧ found = flatReadings more sha := by
  unfold flatDisk at h
  split at h
  · rename_i hfile
    cases h
    exact ⟨hfile.1, hfile.2, rfl⟩
  · cases h

theorem flat_barRows (more : Bool) : barRows (flatRaw more) = (flatRaw more).rows := by
  unfold barRows flatRaw
  rw [List.filter_eq_self, List.forall_mem_map]
  exact fun t ht => decide_eq_true (PriceBars.traded_bar july_stamps _ ht).2.2

theorem flat_tally (more : Bool) : tally (dateOf wholeCasts) noTotal
    (addRow wholeCasts wholeParse) (barRows (flatRaw more)) =
      .ok ((List.range 31).map fun (i : Nat) =>
        (Date.isoDay (20635 + i), flatTotal (dayUnits more (20635 + i)) 1440)) := by
  have hkeys : (((List.range 31).map fun (i : Nat) =>
      (Date.isoDay (20635 + i), flatRows more i)).map (·.1)).Nodup := by
    rw [List.map_map]
    exact flat_dates
  have hrows : ∀ block ∈ (List.range 31).map fun (i : Nat) =>
      (Date.isoDay (20635 + i), flatRows more i),
      block.2 ≠ [] ∧ ∀ row ∈ block.2, dateOf wholeCasts row = block.1 := by
    rw [List.forall_mem_map]
    intro i hi
    have hne : flatRows more i ≠ [] := by simp [flatRows]
    dsimp only
    exact ⟨hne, flat_date more (List.mem_range.mp hi)⟩
  have htotals : List.Forall₂ (fun (block : String × List KlineRow) (entry : String × DayTotal) =>
      entry.1 = block.1 ∧
        Lib.run (addRow wholeCasts wholeParse) noTotal block.2 = .ok entry.2)
      ((List.range 31).map fun (i : Nat) => (Date.isoDay (20635 + i), flatRows more i))
      ((List.range 31).map fun (i : Nat) =>
        (Date.isoDay (20635 + i), flatTotal (dayUnits more (20635 + i)) 1440)) := by
    rw [List.forall₂_map_left_iff, List.forall₂_map_right_iff, List.forall₂_same]
    intro i _
    dsimp only
    exact ⟨Eq.refl _, flat_rows_total more i⟩
  have htally := Lib.Tally.tally_blocks hkeys hrows htotals
  simp only [List.flatMap_map] at htally
  rw [flat_barRows, flat_blocks]
  exact htally

theorem flat_dayRow (more : Bool) (sha : String) (i : Nat) :
    dayRow (flatReadings more sha) (archiveUrl "BTCUSDT" july2026)
      (Date.isoDay (20635 + i), flatTotal (dayUnits more (20635 + i)) 1440) =
        .ok (flatDay more sha i) := by
  have hpositive : ¬ ((flatTotal (dayUnits more (20635 + i)) 1440).minutes ≠ 1440 ∨
      (flatTotal (dayUnits more (20635 + i)) 1440).baseVolume.toRat ≤ 0) := by
    rcases dayUnits_few more (20635 + i) with hunits | hunits
    · simp [hunits, flatTotal, FiniteDecimal.toRat, FiniteDecimal.magnitude]
    · simp [hunits, flatTotal, FiniteDecimal.toRat, FiniteDecimal.magnitude]
  unfold dayRow
  rw [refuse, Lib.refuse, if_neg hpositive]
  rfl

theorem flat_month (more : Bool) (sha : String) :
    monthlyVolumes wholeCasts wholeParse (flatDisk more sha) "BTCUSDT" july2026 =
      .ok ((List.range 31).map (flatDay more sha)) := by
  have hdisk : flatDisk more sha "BTCUSDT" july2026 = .ok (flatReadings more sha) :=
    if_pos ⟨rfl, rfl⟩
  have htext : july2026.text = "2026-07" := by decide +kernel
  have hnormalise := PriceBars.traded_normalise july_stamps (by decide)
    fun t => dayUnits_few more (t / 86400000)
  have hdays : ((List.range 31).map fun (i : Nat) =>
      (Date.isoDay (20635 + i), flatTotal (dayUnits more (20635 + i)) 1440)).mapM
        (dayRow (flatReadings more sha) (archiveUrl "BTCUSDT" july2026)) =
      .ok ((List.range 31).map (flatDay more sha)) := by
    rw [Lib.mapM_ok_iff, List.forall₂_map_left_iff, List.forall₂_map_right_iff, List.forall₂_same]
    exact fun i _ => flat_dayRow more sha i
  unfold monthlyVolumes
  simp only [hdisk, bind_ok, pure_ok, refuse_ok, mapError_ok]
  refine ⟨_, rfl, (), ?_, (), ?_, _, hnormalise, _, flat_tally more, _, hdays, (), ?_, rfl⟩
  · simp [flatReadings, htext]
  · simp [flatReadings]
  · simp [flatReadings]

theorem flat_window : windowStart lastOfJuly = .ok (Date.firstOf july2026) ∧
    windowMonths (Date.firstOf july2026) = [july2026] := by
  decide +kernel

/-- The window ends before the last day. -/
theorem flat_selected (more : Bool) (sha : String) :
    ((List.range 31).map (flatDay more sha)).filter (fun row =>
      decide ((Date.firstOf july2026).text ≤ row.date) &&
        decide (row.date < lastOfJuly.text)) = (List.range 30).map (flatDay more sha) := by
  have hwithin : ∀ i ∈ List.range 30,
      (decide ((Date.firstOf july2026).text ≤ Date.isoDay (20635 + (i : Nat))) &&
        decide (Date.isoDay (20635 + (i : Nat)) < lastOfJuly.text)) = true := by
    decide +kernel
  have hlast : (decide ((Date.firstOf july2026).text ≤ Date.isoDay (20635 + (30 : Nat))) &&
      decide (Date.isoDay (20635 + (30 : Nat)) < lastOfJuly.text)) = false := by
    decide +kernel
  rw [List.range_succ, List.map_append, List.filter_append]
  have hnone : ([30].map (flatDay more sha)).filter (fun row =>
      decide ((Date.firstOf july2026).text ≤ row.date) &&
        decide (row.date < lastOfJuly.text)) = [] := by
    rw [List.filter_eq_nil_iff, List.forall_mem_map]
    intro i hi
    rw [List.mem_singleton.mp hi]
    exact fun hin => Bool.false_ne_true (hlast.symm.trans hin)
  rw [hnone, List.append_nil, List.filter_eq_self, List.forall_mem_map]
  exact hwithin

theorem flat_average (more : Bool) (sha : String) : ∃ adv, averageDailyVolume (fun _ => "evidence")
    ⟨METHOD, "futures", "BTCUSDT", (List.range 31).map (flatDay more sha)⟩ lastOfJuly = .ok adv := by
  have hstart : (Date.firstOf july2026).ordinal = 20635 := by decide
  have hsum : volumeContext.sum ((List.range 30).map fun _ => ⟨false, 1440, 0⟩) =
      .ok ⟨false, 43200, 0⟩ := by decide +kernel
  have hmean : volumeContext.divide ⟨false, 43200, 0⟩ ⟨false, 30, 0⟩ = .ok ⟨false, 1440, 0⟩ := by
    decide +kernel
  have hdates : ((List.range 30).map (flatDay more sha)).map (·.date) =
      (List.range 30).map fun (i : Nat) => Date.isoDay (20635 + i) := by
    rw [List.map_map]
    rfl
  have hvolumes : ((List.range 30).map (flatDay more sha)).map (·.baseVolume) =
      (List.range 30).map fun _ => ⟨false, 1440, 0⟩ := by
    rw [List.map_map]
    refine List.map_congr_left fun i hi => ?_
    have hlt := List.mem_range.mp hi
    rw [Function.comp_apply, flatDay, dayUnits_early more (by omega)]
  unfold averageDailyVolume
  simp only [bind_ok, pure_ok, refuse_ok, mapError_ok]
  refine ⟨_, (), ?_, _, flat_window.1, (), ?_, (), ?_, _, ?_, _, hmean, rfl⟩
  · simp
  · rw [flat_selected, hdates, hstart, not_not]
  · rw [flat_selected, hvolumes]
    simp [FiniteDecimal.toRat, FiniteDecimal.magnitude]
  · rw [flat_selected, hvolumes, hsum]

theorem flat_verified (more : Bool) (sha : String) : ∃ inputs, verifiedVolumeInputs wholeCasts
    wholeParse (fun _ => "evidence") (flatDisk more sha) "BTCUSDT" lastOfJuly = .ok inputs := by
  obtain ⟨adv, hadv⟩ := flat_average more sha
  unfold verifiedVolumeInputs
  simp only [bind_ok, pure_ok]
  refine ⟨_, _, flat_window.1, [(List.range 31).map (flatDay more sha)], ?_, adv, ?_, rfl⟩
  · rw [flat_window.2, Lib.mapM_ok_iff]
    exact .cons (flat_month more sha) .nil
  · rw [List.flatten_singleton]
    exact hadv

theorem flat_past (more : Bool) : pastRows wholeCasts lastOfJuly (flatRaw more) =
    ((minutes july2026).filter fun t => t < 20665 * 86400000).map (tradedRow 1) := by
  have hordinal : lastOfJuly.ordinal = 20665 := by decide
  unfold pastRows
  rw [flat_barRows, flatRaw, List.filter_map, hordinal]
  have hkept : (minutes july2026).filter ((fun row : KlineRow =>
      (wholeCasts.int64 row.openTime).any fun t => decide (t < 20665 * 86400000)) ∘
        fun t => tradedRow (dayUnits more (t / 86400000)) t) =
      (minutes july2026).filter fun t => t < 20665 * 86400000 := by
    refine List.filter_congr fun t ht => ?_
    rw [Function.comp_apply, (PriceBars.traded_bar july_stamps _ ht).1]
    rfl
  rw [hkept]
  refine List.map_congr_left fun t ht => ?_
  have hearly := of_decide_eq_true (List.mem_filter.mp ht).2
  rw [dayUnits_early more (by omega)]

/-- The last of July, from two disks that differ in the bars of that day. -/
theorem verified_causal_july : ∃ inputs inputs',
    verifiedVolumeInputs wholeCasts wholeParse (fun _ => "evidence") (flatDisk false "first")
      "BTCUSDT" lastOfJuly = .ok inputs ∧
    verifiedVolumeInputs wholeCasts wholeParse (fun _ => "evidence") (flatDisk true "second")
      "BTCUSDT" lastOfJuly = .ok inputs' ∧ inputs.adv = inputs'.adv := by
  obtain ⟨inputs, h⟩ := flat_verified false "first"
  obtain ⟨inputs', h'⟩ := flat_verified true "second"
  refine ⟨inputs, inputs', h, h', verified_causal h h' fun month found found' hfound hfound' => ?_⟩
  obtain ⟨_, _, rfl⟩ := flat_found hfound
  obtain ⟨_, _, rfl⟩ := flat_found hfound'
  exact (flat_past false).trans (flat_past true).symm

theorem flat_measured (sha : String) :
    Measured wholeParse (flatDisk false sha) "BTCUSDT" (fun _ => 1) 0 := by
  intro month found hfound bar hbar d hd
  obtain ⟨_, _, rfl⟩ := flat_found hfound
  have hmem : bar ∈ barRows (flatRaw false) := hbar
  rw [flat_barRows, flatRaw] at hmem
  dsimp only at hmem
  obtain ⟨t, _, rfl⟩ := List.mem_map.mp hmem
  have hone : dayUnits false (t / 86400000) = 1 := if_neg fun hmore => Bool.false_ne_true hmore.1
  rw [hone, (flat_volumes (.inl rfl) t).1, Except.ok.injEq] at hd
  subst hd
  exact ⟨by simp [FiniteDecimal.toRat, FiniteDecimal.magnitude], by norm_num⟩

theorem verified_exact_july : ∃ inputs total value,
    verifiedVolumeInputs wholeCasts wholeParse (fun _ => "evidence") (flatDisk false "first")
      "BTCUSDT" lastOfJuly = .ok inputs ∧
    total.toRat = 43200 ∧ volumeContext.divide total ⟨false, 30, 0⟩ = .ok value ∧
    inputs.adv.baseAdv = value.plain := by
  obtain ⟨inputs, h⟩ := flat_verified false "first"
  obtain ⟨bars, total, value, hopened, _, htotal, hvalue, hbase⟩ :=
    verified_exact h (flat_measured "first") (by decide)
  have hlength := congrArg List.length hopened
  rw [List.length_map, List.length_flatMap] at hlength
  simp only [List.length_map, List.length_range, List.map_const', List.sum_replicate,
    nsmul_eq_mul] at hlength
  refine ⟨inputs, total, value, h, ?_, hvalue, hbase⟩
  rw [htotal, List.map_const', List.sum_replicate, hlength]
  norm_num

end Flat

end BarVolume
end Models
end PerpCarry
