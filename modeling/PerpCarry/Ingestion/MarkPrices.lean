import PerpCarry.Core.Calendar
import PerpCarry.Core.Digest
import PerpCarry.Core.PyDecimal
import PerpCarry.Lib.Blocks
import PerpCarry.Lib.EventRun
import PerpCarry.Strategy.Decimal

/-!
# Ingestion.MarkPrices

A month of minute bars of the mark price: `normalise` and `supplement_missing_days` of
`python/perpcarry/ingestion/fetch_mark_prices.py`.

The rows of the monthly archive are repaired with daily archives, one for each day that the monthly
one leaves out, and the whole is then checked against the calendar.

* `normalise_ok`: exactly a whole month in order is accepted.
* `supplement_orderly`, `supplement_disorderly`: when the daily archives are asked for.
* `repair_sound`, `repair_repaired`: the repair succeeds on what it can make whole, and only on that.
* `supplement_repairs`: where each bar of a repaired month comes from.
-/

namespace PerpCarry
namespace Ingestion
namespace MarkPrices

open Lib
open Strategy (bind_ok pure_ok)

def MINUTE_MS : Int := 60000
def DAY_MS : Int := 86400000

/-- `range(start, stop, step)`, for a positive step. -/
def range (start stop step : Int) : List Int :=
  (List.range ((stop - start + step - 1) / step).toNat).map fun (i : Nat) => start + step * i

def BASE : String := "https://data.binance.vision/data/futures/um"
def DATASET : String := "markPriceKlines"

def KLINE_COLUMNS : List String := ["open_time", "open", "high", "low", "close", "volume",
  "close_time", "quote_volume", "count", "taker_buy_volume", "taker_buy_quote_volume", "ignore"]

/-! ## The archives -/

/-- A row as `extract_csv` reads it: the text of each cell, `none` where there is none. The columns
are named `KLINE_COLUMNS`. -/
structure KlineRow where
  openTime : Option String
  open' : Option String
  high : Option String
  low : Option String
  close : Option String
  volume : Option String
  closeTime : Option String
  quoteVolume : Option String
  count : Option String
  takerBuyVolume : Option String
  takerBuyQuoteVolume : Option String
  ignore : Option String
  deriving DecidableEq

/-- The cells, in the order of the columns. -/
def KlineRow.cells (row : KlineRow) : List (Option String) :=
  [row.openTime, row.open', row.high, row.low, row.close, row.volume, row.closeTime,
    row.quoteVolume, row.count, row.takerBuyVolume, row.takerBuyQuoteVolume, row.ignore]

/-- The rows below a first row that names the columns. -/
def bars : List KlineRow → List KlineRow
  | [] => []
  | row :: rows => if row.cells = KLINE_COLUMNS.map some then rows else row :: rows

/-- What `astype("int64")` raises: `ValueError` and `TypeError`, or `OverflowError`. -/
inductive CastError where
  | value
  | overflow
  deriving DecidableEq

/-- `MarkPriceDataError`, an error of `astype` that is not caught, or one of the download. -/
inductive MarkPriceError where
  | data (message : String)
  | cast (e : CastError)
  | download (message : String)
  deriving DecidableEq

/-- How the text of a cell is read: as an `int64` column, and by `Decimal`. The name of a column is
no integer. -/
structure CellReader where
  int64 : Option String → Except CastError Int
  decimal : String → Option PyDecimal
  int64_openTime : int64 (some "open_time") = .error .value

/-- The archive server behind `fetch_checksum`, and behind `cached_fetch` with `extract_csv`: the
rows of the file and its size. -/
structure Archive where
  fetchChecksum : String → Except MarkPriceError (Option String)
  cachedFetch : String → String → Except MarkPriceError (List KlineRow × Nat)

/-! ## `normalise` -/

/-- A row of the result. -/
structure MarkBar where
  openTime : Int
  closeTime : Int
  availableAtMs : Int
  symbol : String
  open' : String
  high : String
  low : String
  close : String
  date : String
  deriving DecidableEq

/-- The prices of a row, as texts and as numbers. -/
structure Prices where
  open' : String × ℚ
  high : String × ℚ
  low : String × ℚ
  close : String × ℚ
  deriving DecidableEq

def Prices.inconsistent (prices : Prices) : Bool :=
  prices.low.2 > prices.open'.2 ∨ prices.low.2 > prices.close.2 ∨
    prices.high.2 < prices.open'.2 ∨ prices.high.2 < prices.close.2 ∨
    prices.low.2 > prices.high.2

abbrev refuse (bad : Prop) [Decidable bad] (message : String) : Except MarkPriceError Unit :=
  Lib.refuse bad (.data message)

/-- `except (ValueError, TypeError): raise MarkPriceDataError`. -/
def castTime {α : Type} : Except CastError α → Except MarkPriceError α
  | .ok a => .ok a
  | .error .value => .error (.data "invalid integer millisecond time")
  | .error .overflow => .error (.cast .overflow)

section Normalise

variable (reader : CellReader)

/-- The error of a price that is not positive and finite is a `ValueError` and caught as well. -/
def price : Option String → Except MarkPriceError (String × ℚ)
  | none => .error (.data "invalid decimal mark price")
  | some text =>
    match reader.decimal text with
    | some (.finite d) =>
      if 0 < d.toRat then .ok (text, d.toRat) else .error (.data "invalid decimal mark price")
    | _ => .error (.data "invalid decimal mark price")

/-- The four columns raise one error, so that it does not matter which row they stop at. -/
def prices (row : KlineRow) : Except MarkPriceError Prices := do
  let open' ← price reader row.open'
  let high ← price reader row.high
  let low ← price reader row.low
  let close ← price reader row.close
  return ⟨open', high, low, close⟩

def monthlyUrl (symbol : String) (month : Month) : Except MarkPriceError String := do
  refuse (symbol ∉ ["BTCUSDT", "SOLUSDT"]) "research symbols are BTCUSDT/SOLUSDT"
  return BASE ++ "/monthly/" ++ DATASET ++ "/" ++ symbol ++ "/1m/" ++ symbol ++ "-1m-" ++
    month.text ++ ".zip"

def markBar (symbol : String) (opened closed : Int) (prices : Prices) : MarkBar where
  openTime := opened
  closeTime := closed
  availableAtMs := closed + 1
  symbol
  open' := prices.open'.1
  high := prices.high.1
  low := prices.low.1
  close := prices.close.1
  date := isoDate (opened / DAY_MS)

/-- The minutes of a month. -/
def minutes (month : Month) : List Int := range month.bounds.1 month.bounds.2 MINUTE_MS

/-- `pd.DataFrame` of the checked columns. -/
def dataFrame (symbol : String) (opened closed : List Int) (numeric : List Prices) :
    List MarkBar :=
  (opened.zip (closed.zip numeric)).map fun row => markBar symbol row.1 row.2.1 row.2.2

def normalise (raw : List KlineRow) (symbol : String) (month : Month) :
    Except MarkPriceError (List MarkBar) := do
  let _ ← monthlyUrl symbol month
  let frame := bars raw
  refuse (((frame.length : Nat) : Int) ≠ (month.bounds.2 - month.bounds.1) / MINUTE_MS)
    "missing or excess minute bars"
  let opened ← castTime (frame.mapM fun row => reader.int64 row.openTime)
  let closed ← castTime (frame.mapM fun row => reader.int64 row.closeTime)
  refuse (opened ≠ minutes month)
    "minute calendar is missing, duplicated, unordered or wrong-month"
  refuse (closed ≠ opened.map (· + MINUTE_MS - 1)) "unexpected minute close time"
  let numeric ← frame.mapM (prices reader)
  refuse (∃ prices ∈ numeric, prices.inconsistent) "inconsistent mark OHLC extrema"
  return dataFrame symbol opened closed numeric

end Normalise

/-! ## `supplement_missing_days` -/

/-- An entry of the report. -/
structure Source where
  url : String
  sha256 : String
  rows : Nat
  archiveBytes : Nat
  deriving DecidableEq

def dailyUrl (symbol : String) (day : Int) : String :=
  BASE ++ "/daily/" ++ DATASET ++ "/" ++ symbol ++ "/1m/" ++ symbol ++ "-1m-" ++
    isoDate (day / DAY_MS) ++ ".zip"

/-- The start of the UTC day. -/
def dayOf (value : Int) : Int := value / DAY_MS * DAY_MS

section Supplement

variable (reader : CellReader) (archive : Archive)

/-- One pass of the loop over the missing days. -/
def fetchDay (symbol : String) (day : Int) :
    Except MarkPriceError (List KlineRow × Source) := do
  let url := dailyUrl symbol day
  let digest ← archive.fetchChecksum url
  match digest with
  | none => .error (.data "supplemental daily SHA-256 is required")
  | some digest =>
    refuse (isDigest digest = false) "supplemental daily SHA-256 is required"
    let (file, archiveBytes) ← archive.cachedFetch url digest
    let daily := bars file
    let actual ← (daily.mapM fun row => reader.int64 row.openTime).mapError .cast
    refuse (actual ≠ range day (day + DAY_MS) MINUTE_MS)
      "supplemental daily minute calendar mismatch"
    return (daily, ⟨url, digest, daily.length, archiveBytes⟩)

/-- `merged.iloc[merged.open_time.astype("int64").argsort()]`. -/
def sortByTime (merged : List KlineRow) : Except MarkPriceError (List KlineRow) := do
  let times ← (merged.mapM fun row => reader.int64 row.openTime).mapError .cast
  -- no two times are equal here, so it does not matter that `argsort` is not stable
  return (sortValues Prod.fst (times.zip merged)).map Prod.snd

def supplementMissingDays (raw : List KlineRow) (symbol : String) (month : Month) :
    Except MarkPriceError (List KlineRow × List Source) :=
  let expected := minutes month
  match raw.mapM fun row => reader.int64 row.openTime with
  | .error .value => .ok (raw, [])
  | .error .overflow => .error (.cast .overflow)
  | .ok times =>
    let observed := unique times
    if times ≠ observed ∨ ¬ ∀ t ∈ observed, t ∈ expected then .ok (raw, [])
    else
      let missing := lacking expected observed
      if missing = [] then .ok (raw, [])
      else
        let missingDays := unique (missing.map dayOf)
        if ∃ day ∈ missingDays, ¬ ∀ t ∈ range day (day + DAY_MS) MINUTE_MS, t ∈ missing then
          .ok (raw, [])
        else do
          let supplements ← missingDays.mapM (fetchDay reader archive symbol)
          let merged ← sortByTime reader (raw ++ (supplements.map Prod.fst).flatten)
          return (merged, supplements.map Prod.snd)

/-- The two calls of `fetch_month`. -/
def repair (raw : List KlineRow) (symbol : String) (month : Month) :
    Except MarkPriceError (List MarkBar × List Source) := do
  let (merged, sources) ← supplementMissingDays reader archive raw symbol month
  let frame ← normalise reader merged symbol month
  return (frame, sources)

end Supplement

/-! ## The calendar -/

theorem mem_range {start stop step t : Int} (hstep : 0 < step) :
    t ∈ range start stop step ↔ start ≤ t ∧ t < stop ∧ step ∣ t - start := by
  unfold range
  rw [List.mem_map]
  constructor
  · rintro ⟨i, hi, rfl⟩
    have hlt : (i : Int) < (stop - start + step - 1) / step := by
      have := List.mem_range.mp hi
      omega
    have hmul := Int.mul_le_of_le_ediv hstep (Int.add_one_le_of_lt hlt)
    have hnonneg : 0 ≤ step * i := mul_nonneg hstep.le (Int.natCast_nonneg i)
    refine ⟨by omega, ?_, ⟨i, by ring⟩⟩
    rw [add_mul, one_mul, mul_comm] at hmul
    omega
  · rintro ⟨hstart, hstop, k, hk⟩
    have hk0 : 0 ≤ k := nonneg_of_mul_nonneg_right (by omega : 0 ≤ step * k) hstep
    have hlt : k < (stop - start + step - 1) / step := by
      refine Int.lt_of_add_one_le ((Int.le_ediv_iff_mul_le hstep).mpr ?_)
      rw [add_mul, one_mul, mul_comm]
      omega
    refine ⟨k.toNat, List.mem_range.mpr (by omega), ?_⟩
    rw [Int.toNat_of_nonneg hk0]
    omega

theorem range_increasing {start stop step : Int} (hstep : 0 < step) :
    (range start stop step).Pairwise (· < ·) := by
  unfold range
  rw [List.pairwise_map]
  refine List.pairwise_lt_range.imp ?_
  intro i j hlt
  have := mul_lt_mul_of_pos_left (Int.ofNat_lt.mpr hlt) hstep
  omega

theorem mem_minutes {month : Month} {t : Int} : t ∈ minutes month ↔
    month.firstDay * 86400000 ≤ t ∧ t < (month.firstDay + month.days) * 86400000 ∧
      t % 60000 = 0 := by
  unfold minutes MINUTE_MS
  rw [mem_range (by omega)]
  unfold Month.bounds
  dsimp only
  omega

theorem minutes_increasing (month : Month) : (minutes month).Pairwise (· < ·) :=
  range_increasing (by decide)

theorem minutes_length (month : Month) :
    (((minutes month).length : Nat) : Int) = (month.bounds.2 - month.bounds.1) / MINUTE_MS := by
  have hdays := month.days_bounds
  have hend := month.bounds_snd
  unfold minutes range MINUTE_MS
  rw [List.length_map, List.length_range]
  omega

/-- The starts of the UTC days of a month. -/
def days (month : Month) : List Int := range month.bounds.1 month.bounds.2 DAY_MS

theorem mem_days {month : Month} {day : Int} :
    day ∈ days month ↔ ∃ t ∈ minutes month, dayOf t = day := by
  unfold days
  rw [mem_range (by decide)]
  simp only [mem_minutes, dayOf, DAY_MS, Month.bounds]
  constructor
  · rintro ⟨hstart, hstop, hday⟩
    exact ⟨day, by omega, by omega⟩
  · rintro ⟨t, ht, rfl⟩
    omega

/-- The minutes of a day are those of the month that fall on it. -/
theorem day_minutes {month : Month} {day : Int} (hday : day ∈ days month) :
    range day (day + DAY_MS) MINUTE_MS = slotsOf dayOf (minutes month) day := by
  obtain ⟨t, ht, rfl⟩ := mem_days.mp hday
  refine eq_of_increasing (range_increasing (by decide))
    ((minutes_increasing month).filter _) ?_
  intro s
  rw [mem_slotsOf, mem_range (by decide), mem_minutes]
  rw [mem_minutes] at ht
  unfold dayOf DAY_MS MINUTE_MS
  omega

/-! ## What `normalise` accepts -/

/-- What a row of the result says of a row that was read: its times, its price texts as they were,
its day. -/
structure KlineRow.Reads (reader : CellReader) (symbol : String) (row : KlineRow) (bar : MarkBar) :
    Prop where
  openTime : reader.int64 row.openTime = .ok bar.openTime
  closeTime : reader.int64 row.closeTime = .ok bar.closeTime
  minute : bar.closeTime = bar.openTime + MINUTE_MS - 1
  available : bar.availableAtMs = bar.closeTime + 1
  texts : [row.open', row.high, row.low, row.close] =
    [bar.open', bar.high, bar.low, bar.close].map some
  consistent : ∃ numeric, prices reader row = .ok numeric ∧ numeric.inconsistent = false
  instrument : bar.symbol = symbol
  date : bar.date = isoDate (bar.openTime / DAY_MS)

section Normalised

variable {reader : CellReader} {symbol : String} {month : Month} {raw rows : List KlineRow}
  {row : KlineRow} {frame : List MarkBar} {bar : MarkBar}

theorem price_text {cell : Option String} {found : String × ℚ} (h : price reader cell = .ok found) :
    cell = some found.1 := by
  unfold price at h
  split at h
  · cases h
  · split at h
    · split at h
      · cases h
        rfl
      · cases h
    · cases h

theorem prices_texts {numeric : Prices} (h : prices reader row = .ok numeric) :
    [row.open', row.high, row.low, row.close] =
      [numeric.open'.1, numeric.high.1, numeric.low.1, numeric.close.1].map some := by
  unfold prices at h
  simp only [bind_ok, pure_ok] at h
  obtain ⟨open', hopen, high, hhigh, low, hlow, close, hclose, rfl⟩ := h
  rw [price_text hopen, price_text hhigh, price_text hlow, price_text hclose]
  rfl

theorem reads_iff : row.Reads reader symbol bar ↔ ∃ opened closed numeric,
    reader.int64 row.openTime = .ok opened ∧ reader.int64 row.closeTime = .ok closed ∧
      closed = opened + MINUTE_MS - 1 ∧ prices reader row = .ok numeric ∧
        numeric.inconsistent = false ∧ bar = markBar symbol opened closed numeric := by
  constructor
  · intro h
    obtain ⟨numeric, hnumeric, hconsistent⟩ := h.consistent
    refine ⟨_, _, numeric, h.openTime, h.closeTime, h.minute, hnumeric, hconsistent, ?_⟩
    have htexts := h.texts.symm.trans (prices_texts hnumeric)
    simp only [List.map_cons, List.map_nil, List.cons.injEq, Option.some.injEq, and_true] at htexts
    obtain ⟨hopen, hhigh, hlow, hclose⟩ := htexts
    unfold markBar
    rw [← hopen, ← hhigh, ← hlow, ← hclose, ← h.available, ← h.date, ← h.instrument]
  · rintro ⟨opened, closed, numeric, hopened, hclosed, hminute, hnumeric, hconsistent, rfl⟩
    exact {
      openTime := hopened
      closeTime := hclosed
      minute := hminute
      available := rfl
      texts := prices_texts hnumeric
      consistent := ⟨numeric, hnumeric, hconsistent⟩
      instrument := rfl
      date := rfl }

/-- The rows of the result, read off the columns. -/
theorem reads_columns : List.Forall₂ (KlineRow.Reads reader symbol) rows frame ↔
    ∃ opened closed numeric, (rows.mapM fun row => reader.int64 row.openTime) = .ok opened ∧
      (rows.mapM fun row => reader.int64 row.closeTime) = .ok closed ∧
      closed = opened.map (· + MINUTE_MS - 1) ∧ rows.mapM (prices reader) = .ok numeric ∧
      (∀ found ∈ numeric, found.inconsistent = false) ∧
      frame = dataFrame symbol opened closed numeric := by
  simp only [mapM_ok_iff]
  induction rows generalizing frame with
  | nil =>
    constructor
    · intro h
      cases h
      exact ⟨[], [], [], .nil, .nil, rfl, .nil, nofun, rfl⟩
    · rintro ⟨_, _, _, ⟨⟩, ⟨⟩, -, ⟨⟩, -, rfl⟩
      exact .nil
  | cons row rows ih =>
    constructor
    · intro h
      obtain ⟨bar, frame, hbar, hframe, rfl⟩ := List.forall₂_cons_left_iff.mp h
      obtain ⟨opened, closed, numeric, ho, hc, hminute, hp, hconsistent, rfl⟩ :=
        reads_iff.mp hbar
      obtain ⟨os, cs, ps, hos, hcs, hminutes, hps, hall, rfl⟩ := ih.mp hframe
      refine ⟨opened :: os, closed :: cs, numeric :: ps, .cons ho hos, .cons hc hcs, ?_,
        .cons hp hps, List.forall_mem_cons.mpr ⟨hconsistent, hall⟩, rfl⟩
      rw [hminute, hminutes, List.map_cons]
    · rintro ⟨_, _, _, hopened, hclosed, hminutes, hnumeric, hall, rfl⟩
      obtain ⟨opened, os, ho, hos, rfl⟩ := List.forall₂_cons_left_iff.mp hopened
      obtain ⟨closed, cs, hc, hcs, rfl⟩ := List.forall₂_cons_left_iff.mp hclosed
      obtain ⟨numeric, ps, hp, hps, rfl⟩ := List.forall₂_cons_left_iff.mp hnumeric
      obtain ⟨hminute, hminutes⟩ := List.cons.inj hminutes
      obtain ⟨hconsistent, hall⟩ := List.forall_mem_cons.mp hall
      refine .cons ?_ (ih.mpr ⟨os, cs, ps, hos, hcs, hminutes, hps, hall, rfl⟩)
      exact reads_iff.mpr ⟨opened, closed, numeric, ho, hc, hminute, hp, hconsistent, rfl⟩

theorem reads_times (h : List.Forall₂ (KlineRow.Reads reader symbol) rows frame) :
    (rows.mapM fun row => reader.int64 row.openTime) = .ok (frame.map (·.openTime)) := by
  rw [mapM_ok_iff, List.forall₂_map_right_iff]
  exact h.imp fun row bar hbar => hbar.openTime

theorem castTime_ok {α : Type} {x : Except CastError α} {a : α} :
    castTime x = .ok a ↔ x = .ok a := by
  unfold castTime
  split
  · simp
  · simp
  · simp

theorem monthlyUrl_ok :
    (∃ url, monthlyUrl symbol month = .ok url) ↔ symbol ∈ ["BTCUSDT", "SOLUSDT"] := by
  unfold monthlyUrl
  simp only [bind_ok, refuse_ok, pure_ok, not_not, exists_const]
  constructor
  · rintro ⟨url, hsymbol, -⟩
    exact hsymbol
  · intro hsymbol
    exact ⟨_, hsymbol, rfl⟩

/-- Exactly a whole month in order is accepted, and each row as it was read. -/
theorem normalise_ok : normalise reader raw symbol month = .ok frame ↔
    symbol ∈ ["BTCUSDT", "SOLUSDT"] ∧
      List.Forall₂ (KlineRow.Reads reader symbol) (bars raw) frame ∧
      frame.map (·.openTime) = minutes month := by
  unfold normalise
  simp only [bind_ok, refuse_ok, pure_ok, castTime_ok, not_not, exists_const]
  constructor
  · rintro ⟨url, hurl, -, opened, hopened, closed, hclosed, hcalendar, hminute, numeric, hnumeric,
      hconsistent, rfl⟩
    have hreads : List.Forall₂ (KlineRow.Reads reader symbol) (bars raw)
        (dataFrame symbol opened closed numeric) := by
      refine reads_columns.mpr ⟨opened, closed, numeric, hopened, hclosed, hminute, hnumeric, ?_,
        rfl⟩
      intro found hfound
      exact Bool.eq_false_iff.mpr fun hbad => hconsistent ⟨found, hfound, hbad⟩
    have htimes := reads_times hreads
    rw [hopened] at htimes
    exact ⟨monthlyUrl_ok.mp ⟨url, hurl⟩, hreads, (Except.ok.inj htimes).symm.trans hcalendar⟩
  · rintro ⟨hsymbol, hreads, hcalendar⟩
    have hlength : (bars raw).length = (minutes month).length := by
      rw [hreads.length_eq, ← hcalendar, List.length_map]
    have htimes := reads_times hreads
    obtain ⟨opened, closed, numeric, hopened, hclosed, hminute, hnumeric, hconsistent, rfl⟩ :=
      reads_columns.mp hreads
    rw [hopened] at htimes
    have hopened' : opened = minutes month := (Except.ok.inj htimes).trans hcalendar
    obtain ⟨url, hurl⟩ := monthlyUrl_ok.mpr hsymbol
    refine ⟨url, hurl, ?_, opened, hopened, closed, hclosed, hopened', hminute, numeric, hnumeric,
      ?_, rfl⟩
    · rw [hlength, minutes_length]
    · rintro ⟨found, hfound, hbad⟩
      rw [hconsistent found hfound] at hbad
      cases hbad

end Normalised

/-! ## What `supplement_missing_days` does -/

/-- Rows at minutes of the month, in order and each once, with all of a day or nothing of it. -/
structure Orderly (reader : CellReader) (month : Month) (rows : List KlineRow) (times : List Int) :
    Prop where
  read : (rows.mapM fun row => reader.int64 row.openTime) = .ok times
  increasing : times.Pairwise (· < ·)
  inMonth : ∀ t ∈ times, t ∈ minutes month
  untorn : Untorn dayOf (minutes month) times

/-- The days of the month that have no row. -/
def emptyDays (month : Month) (times : List Int) : List Int :=
  (days month).filter fun day => ∀ t ∈ times, dayOf t ≠ day

/-- The rows of a day's archive, below a header, and what the report says of it. -/
structure Delivered (reader : CellReader) (archive : Archive) (symbol : String) (day : Int)
    (daily : List KlineRow × Source) : Prop where
  url : daily.2.url = dailyUrl symbol day
  digest : isDigest daily.2.sha256 = true
  published : archive.fetchChecksum daily.2.url = .ok (some daily.2.sha256)
  file : ∃ file, archive.cachedFetch daily.2.url daily.2.sha256 = .ok (file, daily.2.archiveBytes) ∧
    daily.1 = bars file
  minutes : (daily.1.mapM fun row => reader.int64 row.openTime) =
    .ok (range day (day + DAY_MS) MINUTE_MS)
  rows : daily.2.rows = daily.1.length

/-- The time of a row that can be read. -/
def KlineRow.time (reader : CellReader) (row : KlineRow) : Int :=
  (reader.int64 row.openTime).toOption.getD 0

section Supplemented

variable {reader : CellReader} {archive : Archive} {symbol : String} {month : Month}
  {raw rows : List KlineRow} {times : List Int} {daily : List KlineRow × Source} {day : Int}

theorem read_time (h : (rows.mapM fun row => reader.int64 row.openTime) = .ok times) :
    ∀ row ∈ rows, reader.int64 row.openTime = .ok (row.time reader) := by
  intro row hrow
  obtain ⟨t, ht⟩ := ok_of_mapM h row hrow
  unfold KlineRow.time
  rw [ht]
  rfl

theorem read_times (h : (rows.mapM fun row => reader.int64 row.openTime) = .ok times) :
    times = rows.map (·.time reader) := by
  have hmap := mapM_of_ok (read_time h)
  rw [h] at hmap
  exact Except.ok.inj hmap

/-- A header does not read as a row. -/
theorem bars_cases (reader : CellReader) (raw : List KlineRow) :
    bars raw = raw ∨ (raw.mapM fun row => reader.int64 row.openTime) = .error .value := by
  cases raw with
  | nil => exact .inl rfl
  | cons row rows =>
    by_cases hheader : row.cells = KLINE_COLUMNS.map some
    · have hcell : row.openTime = some "open_time" := (List.cons.inj hheader).1
      refine .inr ?_
      rw [List.mapM_cons, hcell, reader.int64_openTime]
      rfl
    · exact .inl (if_neg hheader)

theorem bars_of_read (h : ∀ row ∈ raw, ∃ t, reader.int64 row.openTime = .ok t) :
    bars raw = raw := by
  rcases bars_cases reader raw with hbars | herror
  · exact hbars
  · have hread : ∀ row ∈ raw, reader.int64 row.openTime = .ok (row.time reader) := by
      intro row hrow
      obtain ⟨t, ht⟩ := h row hrow
      rw [KlineRow.time, ht]
      rfl
    rw [mapM_of_ok hread] at herror
    cases herror

theorem absent_days (h : Orderly reader month rows times) :
    absent dayOf (minutes month) times = emptyDays month times := by
  refine eq_of_increasing (unique_increasing _) ((range_increasing (by decide)).filter _) ?_
  intro day
  rw [mem_absent h.untorn, emptyDays, List.mem_filter, mem_days, decide_eq_true_eq]

theorem fetchDay_ok : fetchDay reader archive symbol day = .ok daily ↔
    Delivered reader archive symbol day daily := by
  have hcast : ∀ {x : Except CastError (List Int)} {actual : List Int},
      x.mapError MarkPriceError.cast = .ok actual ↔ x = .ok actual := by
    intro x actual
    cases x <;> simp [Except.mapError]
  unfold fetchDay
  constructor
  · intro h
    obtain ⟨digest, hpublished, h⟩ := bind_ok.mp h
    cases digest with
    | none => cases h
    | some digest =>
      simp only [bind_ok, refuse_ok, pure_ok, hcast, exists_const, ne_eq, not_not,
        Bool.not_eq_false] at h
      obtain ⟨hdigest, ⟨file, archiveBytes⟩, hfile, actual, hactual, rfl, rfl⟩ := h
      exact ⟨rfl, hdigest, hpublished, ⟨file, hfile, rfl⟩, hactual, rfl⟩
  · obtain ⟨rows, url, sha256, count, archiveBytes⟩ := daily
    rintro ⟨rfl, hdigest, hpublished, ⟨file, hfile, hrows⟩, hminutes, hcount⟩
    dsimp only at hdigest hpublished hfile hrows hminutes hcount
    subst hrows hcount
    refine bind_ok.mpr ⟨some sha256, hpublished, ?_⟩
    simp only [bind_ok, refuse_ok, pure_ok, hcast, exists_const, ne_eq, not_not,
      Bool.not_eq_false]
    exact ⟨hdigest, (file, archiveBytes), hfile, _, hminutes, rfl, rfl⟩

theorem sortByTime_ok (h : (rows.mapM fun row => reader.int64 row.openTime) = .ok times) :
    sortByTime reader rows = .ok (sortValues (KlineRow.time reader) rows) := by
  have hzip : times.zip rows = rows.map fun row => (row.time reader, row) := by
    rw [read_times h, List.map_prod_right_eq_zip]
  have hsorted : sortValues Prod.fst (times.zip rows) =
      (sortValues (KlineRow.time reader) rows).map fun row => (row.time reader, row) := by
    rw [hzip, sortValues_map]
  unfold sortByTime
  simp only [h, hsorted, Except.mapError, bind, Except.bind, pure, Except.pure, List.map_map]
  exact congrArg Except.ok (List.map_id _)

/-- Orderly rows: the archives of the days without a row are what is added. -/
theorem supplement_orderly (archive : Archive) (symbol : String)
    (h : Orderly reader month raw times) :
    supplementMissingDays reader archive raw symbol month =
      if emptyDays month times = [] then .ok (raw, [])
      else do
        let dailies ← (emptyDays month times).mapM (fetchDay reader archive symbol)
        let merged ← sortByTime reader (raw ++ (dailies.map Prod.fst).flatten)
        return (merged, dailies.map Prod.snd) := by
  have hobserved : unique times = times := (eq_unique_iff.mpr h.increasing).symm
  have hordered : ¬ (times ≠ times ∨ ¬ ∀ t ∈ times, t ∈ minutes month) := by
    simpa using h.inMonth
  have hmissing : unique ((lacking (minutes month) times).map dayOf) = emptyDays month times :=
    absent_days h
  have hlacking : lacking (minutes month) times = [] ↔ emptyDays month times = [] := by
    rw [← hmissing]
    exact lacking_nil
  have hwhole : ¬ ∃ day ∈ emptyDays month times,
      ¬ ∀ t ∈ range day (day + DAY_MS) MINUTE_MS, t ∈ lacking (minutes month) times := by
    intro htorn
    refine (torn_iff h.inMonth).mp ?_ h.untorn
    obtain ⟨day, hday, hall⟩ := htorn
    rw [day_minutes (List.mem_of_mem_filter hday)] at hall
    rw [← absent_days h] at hday
    exact ⟨day, hday, hall⟩
  unfold supplementMissingDays
  simp only [h.read, hobserved, if_neg hordered, hmissing, hlacking, if_neg hwhole]

/-- Rows that are not orderly are handed on as they are, before any archive is asked for. -/
theorem supplement_disorderly (archive : Archive) (symbol : String)
    (h : ¬ ∃ times, Orderly reader month raw times) :
    supplementMissingDays reader archive raw symbol month = .ok (raw, []) ∨
      supplementMissingDays reader archive raw symbol month = .error (.cast .overflow) := by
  unfold supplementMissingDays
  dsimp only
  split
  · exact .inl rfl
  · exact .inr rfl
  · rename_i times hread
    refine .inl ?_
    by_cases hordered : times ≠ unique times ∨ ¬ ∀ t ∈ unique times, t ∈ minutes month
    · rw [if_pos hordered]
    · rw [if_neg hordered]
      rw [not_or, not_not, not_not] at hordered
      obtain ⟨hobserved, hsub⟩ := hordered
      rw [← hobserved] at hsub ⊢
      split
      · rfl
      · refine if_pos ?_
        -- the rows are in order, so that some day is torn
        have htorn : ¬ Untorn dayOf (minutes month) times := fun huntorn =>
          h ⟨times, hread, eq_unique_iff.mp hobserved, hsub, huntorn⟩
        obtain ⟨day, hday, hall⟩ := (torn_iff hsub).mpr htorn
        refine ⟨day, hday, ?_⟩
        obtain ⟨t, ht, hblock⟩ := List.mem_map.mp (mem_unique.mp hday)
        rwa [day_minutes (mem_days.mpr ⟨t, (mem_lacking.mp ht).1, hblock⟩)]

theorem delivered_read {days : List Int} {dailies : List (List KlineRow × Source)}
    (h : List.Forall₂ (Delivered reader archive symbol) days dailies) :
    ((dailies.map Prod.fst).flatten.mapM fun row => reader.int64 row.openTime) =
      .ok (days.flatMap fun day => range day (day + DAY_MS) MINUTE_MS) := by
  induction h with
  | nil => rfl
  | cons hday _ ih =>
    rw [List.map_cons, List.flatten_cons, List.flatMap_cons, List.mapM_append, hday.minutes, ih]
    rfl

theorem combined_read {days : List Int} {dailies : List (List KlineRow × Source)}
    (h : Orderly reader month raw times)
    (hdelivered : List.Forall₂ (Delivered reader archive symbol) days dailies) :
    ((raw ++ (dailies.map Prod.fst).flatten).mapM fun row => reader.int64 row.openTime) =
      .ok (times ++ days.flatMap fun day => range day (day + DAY_MS) MINUTE_MS) := by
  rw [List.mapM_append, h.read, delivered_read hdelivered]
  rfl

/-- The month as it stands needs no archive. -/
theorem emptyDays_minutes (month : Month) : emptyDays month (minutes month) = [] := by
  refine List.filter_eq_nil_iff.mpr ?_
  intro day hday
  obtain ⟨t, ht, hblock⟩ := mem_days.mp hday
  rw [decide_eq_true_eq]
  exact fun hnone => hnone t ht hblock

end Supplemented

/-! ## The repaired month -/

/-- A whole month in order: the rows of the monthly archive, and for each day that it leaves out
those of the day's own. Every row is as it was read. -/
structure Repaired (reader : CellReader) (archive : Archive) (raw : List KlineRow) (symbol : String)
    (month : Month) (times : List Int) (dailies : List (List KlineRow × Source))
    (frame : List MarkBar) (sources : List Source) : Prop where
  research : symbol ∈ ["BTCUSDT", "SOLUSDT"]
  calendar : frame.map (·.openTime) = minutes month
  orderly : Orderly reader month (bars raw) times
  unheaded : emptyDays month times ≠ [] → bars raw = raw
  delivered : List.Forall₂ (Delivered reader archive symbol) (emptyDays month times) dailies
  sources : sources = dailies.map Prod.snd
  rows : ∃ merged : List KlineRow, merged.Perm (bars raw ++ (dailies.map Prod.fst).flatten) ∧
    List.Forall₂ (KlineRow.Reads reader symbol) merged frame

section Repair

variable {reader : CellReader} {archive : Archive} {raw merged rows : List KlineRow}
  {symbol : String} {month : Month} {times : List Int} {dailies : List (List KlineRow × Source)}
  {frame : List MarkBar} {sources : List Source}

/-- Rows whose times are the month's are in order of their times. -/
theorem reads_increasing (h : List.Forall₂ (KlineRow.Reads reader symbol) rows frame)
    (hcalendar : frame.map (·.openTime) = minutes month) :
    rows.Pairwise fun row row' => row.time reader < row'.time reader := by
  have htimes := read_times (reads_times h)
  rw [hcalendar] at htimes
  refine List.pairwise_map.mp ?_
  rw [← htimes]
  exact minutes_increasing month

theorem repair_complete (hnormalise : normalise reader raw symbol month = .ok frame) :
    Repaired reader archive raw symbol month (minutes month) [] frame [] := by
  obtain ⟨hsymbol, hreads, hcalendar⟩ := normalise_ok.mp hnormalise
  exact {
    research := hsymbol
    calendar := hcalendar
    orderly := {
      read := by rw [reads_times hreads, hcalendar]
      increasing := minutes_increasing month
      inMonth := fun t ht => ht
      untorn := fun _ _ s hs _ => hs }
    unheaded := fun hne => absurd (emptyDays_minutes month) hne
    delivered := by
      rw [emptyDays_minutes]
      exact .nil
    sources := rfl
    rows := ⟨bars raw, by simp, hreads⟩ }

theorem repair_sound (h : repair reader archive raw symbol month = .ok (frame, sources)) :
    ∃ times dailies, Repaired reader archive raw symbol month times dailies frame sources := by
  unfold repair at h
  simp only [bind_ok, pure_ok] at h
  obtain ⟨⟨merged, sources'⟩, hsupplement, frame', hnormalise, hresult⟩ := h
  cases hresult
  by_cases horderly : ∃ times, Orderly reader month raw times
  · obtain ⟨times, horderly⟩ := horderly
    have hread := read_time horderly.read
    have hbars : bars raw = raw := bars_of_read fun row hrow => ⟨_, hread row hrow⟩
    rw [supplement_orderly archive symbol horderly] at hsupplement
    split at hsupplement
    · cases hsupplement
      exact ⟨_, _, repair_complete hnormalise⟩
    · simp only [bind_ok, pure_ok, Prod.mk.injEq] at hsupplement
      obtain ⟨dailies, hdailies, sorted, hsorted, rfl, rfl⟩ := hsupplement
      have hdelivered : List.Forall₂ (Delivered reader archive symbol) (emptyDays month times)
          dailies := (mapM_ok_iff.mp hdailies).imp fun _ _ => fetchDay_ok.mp
      have hall := combined_read horderly hdelivered
      rw [sortByTime_ok hall] at hsorted
      cases hsorted
      have hperm := sortValues_perm (KlineRow.time reader) (raw ++ (dailies.map Prod.fst).flatten)
      obtain ⟨hsymbol, hreads, hcalendar⟩ := normalise_ok.mp hnormalise
      rw [bars_of_read fun row hrow => ⟨_, read_time hall row (hperm.subset hrow)⟩] at hreads
      refine ⟨times, dailies, {
        research := hsymbol
        calendar := hcalendar
        orderly := by rwa [hbars]
        unheaded := fun _ => hbars
        delivered := hdelivered
        sources := rfl
        rows := ⟨_, ?_, hreads⟩ }⟩
      rwa [hbars]
  · rcases supplement_disorderly archive symbol horderly with hraw | herror
    · rw [hraw] at hsupplement
      cases hsupplement
      exact ⟨_, _, repair_complete hnormalise⟩
    · rw [herror] at hsupplement
      cases hsupplement

/-- The repair succeeds on what it can make whole. -/
theorem repair_repaired
    (h : Repaired reader archive raw symbol month times dailies frame sources) :
    repair reader archive raw symbol month = .ok (frame, sources) := by
  obtain ⟨merged, hperm, hreads⟩ := h.rows
  have hmerged := reads_increasing hreads h.calendar
  suffices hsupplement : ∃ handed, supplementMissingDays reader archive raw symbol month =
      .ok (handed, sources) ∧ bars handed = merged by
    obtain ⟨handed, hsupplement, hbars⟩ := hsupplement
    have hnormalise : normalise reader handed symbol month = .ok frame :=
      normalise_ok.mpr ⟨h.research, hbars ▸ hreads, h.calendar⟩
    unfold repair
    rw [hsupplement]
    simp only [bind, Except.bind, hnormalise]
    rfl
  have hdelivered := h.delivered
  have hsources := h.sources
  by_cases hempty : emptyDays month times = []
  · rw [hempty] at hdelivered
    cases hdelivered
    have hsorted : (bars raw).Pairwise fun row row' => row.time reader < row'.time reader := by
      have hincreasing := h.orderly.increasing
      rw [read_times h.orderly.read] at hincreasing
      exact List.pairwise_map.mp hincreasing
    have hperm' : merged.Perm (bars raw) := by simpa using hperm
    have hbars : bars raw = merged := by
      rw [← sortValues_eq (.refl _) hsorted]
      exact sortValues_eq hperm'.symm hmerged
    refine ⟨raw, ?_, hbars⟩
    subst hsources
    rcases bars_cases reader raw with hraw | hheader
    · have horderly := h.orderly
      rw [hraw] at horderly
      rw [supplement_orderly archive symbol horderly, if_pos hempty]
      rfl
    · unfold supplementMissingDays
      simp only [hheader]
      rfl
  · have horderly := h.orderly
    have hraw := h.unheaded hempty
    rw [hraw] at horderly hperm
    have hdailies : (emptyDays month times).mapM (fetchDay reader archive symbol) = .ok dailies :=
      mapM_ok_iff.mpr (hdelivered.imp fun _ _ => fetchDay_ok.mpr)
    have hall := combined_read horderly hdelivered
    refine ⟨merged, ?_, bars_of_read fun row hrow => ⟨_, read_time hall row (hperm.subset hrow)⟩⟩
    rw [supplement_orderly archive symbol horderly, if_neg hempty, hdailies, hsources]
    simp only [bind, Except.bind, sortByTime_ok hall, sortValues_eq hperm.symm hmerged]
    rfl

/-- Where a bar comes from is decided by its day. -/
theorem Repaired.origin
    (h : Repaired reader archive raw symbol month times dailies frame sources) {bar : MarkBar}
    (hbar : bar ∈ frame) :
    (dayOf bar.openTime ∉ emptyDays month times ∧ ∃ row ∈ bars raw, row.Reads reader symbol bar) ∨
      (dayOf bar.openTime ∈ emptyDays month times ∧
        ∃ daily ∈ dailies, ∃ row ∈ daily.1, row.Reads reader symbol bar) := by
  obtain ⟨merged, hperm, hreads⟩ := h.rows
  obtain ⟨row, hrow, hread⟩ := exists_of_forall₂_right hreads hbar
  rcases List.mem_append.mp (hperm.subset hrow) with hmonthly | hdaily
  · refine .inl ⟨?_, row, hmonthly, hread⟩
    have htime : bar.openTime ∈ times := by
      rw [read_times h.orderly.read]
      refine List.mem_map.mpr ⟨row, hmonthly, ?_⟩
      rw [KlineRow.time, hread.openTime]
      rfl
    intro hempty
    exact of_decide_eq_true (List.mem_filter.mp hempty).2 _ htime rfl
  · obtain ⟨rows, hrows, hrow⟩ := List.mem_flatten.mp hdaily
    obtain ⟨daily, hdaily, rfl⟩ := List.mem_map.mp hrows
    refine .inr ⟨?_, daily, hdaily, row, hrow, hread⟩
    obtain ⟨day, hday, hdelivered⟩ := exists_of_forall₂_right h.delivered hdaily
    have htime : bar.openTime ∈ range day (day + DAY_MS) MINUTE_MS := by
      rw [read_times hdelivered.minutes]
      refine List.mem_map.mpr ⟨row, hrow, ?_⟩
      rw [KlineRow.time, hread.openTime]
      rfl
    rw [day_minutes (List.mem_of_mem_filter hday)] at htime
    rwa [(mem_slotsOf.mp htime).2]

/-- Every row of the monthly archive is in the result, as it was read. -/
theorem Repaired.kept
    (h : Repaired reader archive raw symbol month times dailies frame sources) :
    ∀ row ∈ bars raw, ∃ bar ∈ frame, row.Reads reader symbol bar := by
  intro row hrow
  obtain ⟨merged, hperm, hreads⟩ := h.rows
  exact exists_of_forall₂_left hreads (hperm.symm.subset (List.mem_append_left _ hrow))

end Repair

/-- A repair that succeeds gives the whole month: monthly rows as they were, daily rows on the days
without a monthly one. Rows that are unreadable, out of order, doubled, out of the month, or only a
part of some day are never repaired. -/
theorem supplement_repairs (reader : CellReader) (archive : Archive) (raw : List KlineRow)
    (symbol : String) (month : Month) :
    (∀ frame sources, repair reader archive raw symbol month = .ok (frame, sources) →
      ∃ times dailies, Repaired reader archive raw symbol month times dailies frame sources ∧
        (∀ row ∈ bars raw, ∃ bar ∈ frame, row.Reads reader symbol bar) ∧
        ∀ bar ∈ frame,
          (dayOf bar.openTime ∉ emptyDays month times ∧
            ∃ row ∈ bars raw, row.Reads reader symbol bar) ∨
          (dayOf bar.openTime ∈ emptyDays month times ∧
            ∃ daily ∈ dailies, ∃ row ∈ daily.1, row.Reads reader symbol bar)) ∧
    ((¬ ∃ times, Orderly reader month (bars raw) times) →
      (supplementMissingDays reader archive raw symbol month = .ok (raw, []) ∨
        supplementMissingDays reader archive raw symbol month = .error (.cast .overflow)) ∧
      ∃ e, repair reader archive raw symbol month = .error e) := by
  constructor
  · intro frame sources h
    obtain ⟨times, dailies, hrepaired⟩ := repair_sound h
    exact ⟨times, dailies, hrepaired, hrepaired.kept, fun bar => hrepaired.origin⟩
  · intro hdisorderly
    constructor
    · refine supplement_disorderly archive symbol ?_
      rintro ⟨times, horderly⟩
      refine hdisorderly ⟨times, ?_⟩
      rwa [bars_of_read fun row hrow => ⟨_, read_time horderly.read row hrow⟩]
    · cases h : repair reader archive raw symbol month with
      | error e => exact ⟨e, rfl⟩
      | ok result =>
        obtain ⟨frame, sources⟩ := result
        obtain ⟨times, dailies, hrepaired⟩ := repair_sound h
        exact absurd ⟨times, hrepaired.orderly⟩ hdisorderly

/-! ### A month with one day left out -/

/-- Digits only. -/
def digits (text : String) : Option Nat :=
  if text.toList ≠ [] ∧ text.toList.all Char.isDigit then some (Nat.ofDigitChars 10 text.toList 0)
  else none

def digitReader : CellReader where
  int64 cell :=
    match cell.bind digits with
    | some n => .ok n
    | none => .error .value
  decimal text := (digits text).map fun n => .finite ⟨false, n, 0⟩
  int64_openTime := by decide

def february2025 : Month := ⟨2025, 2, by omega⟩

def flatRow (t : Int) : KlineRow where
  openTime := some t.toNat.repr
  open' := some "101"
  high := some "103"
  low := some "97"
  close := some "101"
  volume := some "0"
  closeTime := some (t + 59999).toNat.repr
  quoteVolume := some "0"
  count := some "60"
  takerBuyVolume := some "0"
  takerBuyQuoteVolume := some "0"
  ignore := some "0"

def flatBar (t : Int) : MarkBar where
  openTime := t
  closeTime := t + 59999
  availableAtMs := t + 60000
  symbol := "BTCUSDT"
  open' := "101"
  high := "103"
  low := "97"
  close := "101"
  date := isoDate (t / DAY_MS)

theorem digits_repr (n : Nat) : digits n.repr = some n := by
  unfold digits
  rw [Nat.toList_repr, Nat.ofDigitChars_ten_toDigits]
  refine if_pos ⟨Nat.toDigits_ne_nil, List.all_eq_true.mpr ?_⟩
  intro c hc
  exact Nat.isDigit_of_mem_toDigits (by decide) (by decide) hc

theorem int64_repr (n : Nat) : digitReader.int64 (some n.repr) = .ok n := by
  simp only [digitReader, Option.bind_some, digits_repr]

theorem flatRow_prices (t : Int) : prices digitReader (flatRow t) =
    .ok ⟨("101", 101), ("103", 103), ("97", 97), ("101", 101)⟩ := by
  have hzero : prices digitReader (flatRow 0) =
      .ok ⟨("101", 101), ("103", 103), ("97", 97), ("101", 101)⟩ := by decide +kernel
  exact hzero

theorem flatRow_reads {t : Int} (ht : 0 ≤ t) :
    (flatRow t).Reads digitReader "BTCUSDT" (flatBar t) where
  openTime := by
    have hread := int64_repr t.toNat
    rwa [Int.toNat_of_nonneg ht] at hread
  closeTime := by
    have hread := int64_repr (t + 59999).toNat
    rwa [Int.toNat_of_nonneg (by omega)] at hread
  minute := by
    unfold flatBar MINUTE_MS
    dsimp only
    omega
  available := by
    unfold flatBar
    dsimp only
    omega
  texts := rfl
  consistent := ⟨_, flatRow_prices t, by decide⟩
  instrument := rfl
  date := rfl

/-- The second of the month. -/
def leftOut : Int := 20121 * DAY_MS

def gappedRows : List KlineRow :=
  ((minutes february2025).filter fun t => dayOf t ≠ leftOut).map flatRow

def headerRow : KlineRow := ⟨some "open_time", some "open", some "high", some "low", some "close",
  some "volume", some "close_time", some "quote_volume", some "count", some "taker_buy_volume",
  some "taker_buy_quote_volume", some "ignore"⟩

theorem bars_header (rows : List KlineRow) : bars (headerRow :: rows) = rows := by
  have hheader : headerRow.cells = KLINE_COLUMNS.map some := by decide
  simp only [bars, if_pos hheader]

-- a whole day of rows, not to be evaluated
@[irreducible] def leftOutRows : List KlineRow := (range leftOut (leftOut + DAY_MS) MINUTE_MS).map flatRow

def markDigest : String := "89abcdef0123456789abcdef0123456789abcdef0123456789abcdef01234567"

def dayArchive : Archive where
  fetchChecksum _ := .ok (some markDigest)
  cachedFetch _ _ := .ok (headerRow :: leftOutRows, 97)

def leftOutSource : Source := ⟨dailyUrl "BTCUSDT" leftOut, markDigest, 1440, 97⟩

theorem flat_reads {times : List Int} (h : ∀ t ∈ times, 0 ≤ t) :
    List.Forall₂ (KlineRow.Reads digitReader "BTCUSDT") (times.map flatRow)
      (times.map flatBar) := by
  rw [List.forall₂_map_left_iff, List.forall₂_map_right_iff, List.forall₂_same]
  exact fun t ht => flatRow_reads (h t ht)

theorem flatBar_times (times : List Int) : (times.map flatBar).map (·.openTime) = times := by
  rw [List.map_map]
  exact List.map_id times

theorem flat_read {times : List Int} (h : ∀ t ∈ times, 0 ≤ t) :
    ((times.map flatRow).mapM fun row => digitReader.int64 row.openTime) = .ok times := by
  rw [reads_times (flat_reads h), flatBar_times]

theorem minutes_nonneg : ∀ t ∈ minutes february2025, 0 ≤ t := by
  intro t ht
  have hfirst : february2025.firstDay = 20120 := by decide
  rw [mem_minutes, hfirst] at ht
  omega

theorem leftOut_mem : leftOut ∈ days february2025 := by
  have hbounds : february2025.bounds = (20120 * DAY_MS, 20148 * DAY_MS) := by decide
  unfold days
  rw [mem_range (by decide), hbounds]
  unfold leftOut DAY_MS
  omega

theorem leftOutRows_length : leftOutRows.length = 1440 := by
  unfold leftOutRows range
  rw [List.length_map, List.length_map, List.length_range]
  rfl

theorem leftOut_read : (leftOutRows.mapM fun row => digitReader.int64 row.openTime) =
    .ok (range leftOut (leftOut + DAY_MS) MINUTE_MS) := by
  unfold leftOutRows
  refine flat_read ?_
  intro t ht
  rw [day_minutes leftOut_mem] at ht
  exact minutes_nonneg t (mem_slotsOf.mp ht).1

theorem gapped_orderly : Orderly digitReader february2025 gappedRows
    ((minutes february2025).filter fun t => dayOf t ≠ leftOut) where
  read := flat_read fun t ht => minutes_nonneg t (List.mem_of_mem_filter ht)
  increasing := (minutes_increasing _).filter _
  inMonth := fun t ht => List.mem_of_mem_filter ht
  untorn := by
    intro t ht s hs hblock
    simp only [List.mem_filter, decide_eq_true_eq] at ht ⊢
    rw [hblock]
    exact ⟨hs, ht.2⟩

theorem gapped_emptyDays : emptyDays february2025
    ((minutes february2025).filter fun t => dayOf t ≠ leftOut) = [leftOut] := by
  refine eq_of_increasing ((range_increasing (by decide)).filter _) (List.pairwise_singleton _ _) ?_
  intro day
  rw [emptyDays, List.mem_filter, decide_eq_true_eq, List.mem_singleton]
  constructor
  · rintro ⟨hday, hnone⟩
    obtain ⟨t, ht, hblock⟩ := mem_days.mp hday
    by_contra hne
    rw [← hblock] at hne
    exact hnone t (List.mem_filter.mpr ⟨ht, decide_eq_true hne⟩) hblock
  · rintro rfl
    exact ⟨leftOut_mem, fun t ht => of_decide_eq_true (List.mem_filter.mp ht).2⟩

theorem gapped_perm : ((minutes february2025).map flatRow).Perm (gappedRows ++ leftOutRows) := by
  have hsplit := List.filter_append_perm (fun t => decide (dayOf t ≠ leftOut))
    (minutes february2025)
  have hday : (minutes february2025).filter (fun t => !decide (dayOf t ≠ leftOut)) =
      range leftOut (leftOut + DAY_MS) MINUTE_MS := by
    rw [day_minutes leftOut_mem, slotsOf]
    simp
  rw [hday] at hsplit
  have hmap := (hsplit.map flatRow).symm
  rw [List.map_append] at hmap
  unfold gappedRows leftOutRows
  exact hmap

theorem gapped_repaired : Repaired digitReader dayArchive gappedRows "BTCUSDT" february2025
    ((minutes february2025).filter fun t => dayOf t ≠ leftOut) [(leftOutRows, leftOutSource)]
    ((minutes february2025).map flatBar) [leftOutSource] where
  research := by decide
  calendar := flatBar_times _
  orderly := by
    rw [bars_of_read fun row hrow => ⟨_, read_time gapped_orderly.read row hrow⟩]
    exact gapped_orderly
  unheaded := fun _ => bars_of_read fun row hrow => ⟨_, read_time gapped_orderly.read row hrow⟩
  delivered := by
    rw [gapped_emptyDays]
    refine .cons ?_ .nil
    exact {
      url := rfl
      digest := by decide +kernel
      published := rfl
      file := by
        refine ⟨headerRow :: leftOutRows, rfl, ?_⟩
        rw [bars_header]
      minutes := leftOut_read
      rows := leftOutRows_length.symm }
  sources := rfl
  rows := by
    refine ⟨(minutes february2025).map flatRow, ?_, flat_reads minutes_nonneg⟩
    rw [bars_of_read fun row hrow => ⟨_, read_time gapped_orderly.read row hrow⟩]
    simpa using gapped_perm

theorem gapped_disorderly : ¬ ∃ times, Orderly digitReader february2025
    (bars [flatRow leftOut]) times := by
  rintro ⟨times, h⟩
  have hread := flat_read (by decide : ∀ t ∈ [leftOut], (0 : Int) ≤ t)
  have htimes : times = [leftOut] := by
    have hbars : bars [flatRow leftOut] = [leftOut].map flatRow :=
      bars_of_read fun row hrow => ⟨_, read_time hread row hrow⟩
    have hread' := h.read
    rw [hbars, hread] at hread'
    exact (Except.ok.inj hread').symm
  subst htimes
  have hnext := h.untorn leftOut (List.mem_singleton_self _) (leftOut + MINUTE_MS) ?_ (by decide)
  · exact absurd hnext (by decide)
  · have hfirst : february2025.firstDay = 20120 := by decide
    have hdays : february2025.days = 28 := by decide
    rw [mem_minutes, hfirst, hdays]
    unfold leftOut DAY_MS MINUTE_MS
    omega

theorem supplement_repairs_february :
    (∃ times dailies, Repaired digitReader dayArchive gappedRows "BTCUSDT" february2025 times
        dailies ((minutes february2025).map flatBar) [leftOutSource] ∧
      (∀ row ∈ bars gappedRows, ∃ bar ∈ (minutes february2025).map flatBar,
        row.Reads digitReader "BTCUSDT" bar) ∧
      ∀ bar ∈ (minutes february2025).map flatBar,
        (dayOf bar.openTime ∉ emptyDays february2025 times ∧
          ∃ row ∈ bars gappedRows, row.Reads digitReader "BTCUSDT" bar) ∨
        (dayOf bar.openTime ∈ emptyDays february2025 times ∧
          ∃ daily ∈ dailies, ∃ row ∈ daily.1, row.Reads digitReader "BTCUSDT" bar)) ∧
    ∃ e, repair digitReader dayArchive [flatRow leftOut] "BTCUSDT" february2025 = .error e :=
  ⟨(supplement_repairs digitReader dayArchive gappedRows "BTCUSDT" february2025).1 _ _
      (repair_repaired gapped_repaired),
    ((supplement_repairs digitReader dayArchive [flatRow leftOut] "BTCUSDT" february2025).2
      gapped_disorderly).2⟩

end MarkPrices
end Ingestion
end PerpCarry
