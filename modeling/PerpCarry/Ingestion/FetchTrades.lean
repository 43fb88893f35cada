import PerpCarry.Core.Digest
import PerpCarry.Core.Double
import PerpCarry.Core.Months
import PerpCarry.Ingestion.Download
import PerpCarry.Ingestion.TradeIds
import PerpCarry.Lib.EventRun
import PerpCarry.Lib.Partitions
import PerpCarry.Strategy.Decimal

/-!
# Ingestion.FetchTrades

The backfill of the trades corpus: `normalise`, `store` and `backfill` of
`python/perpcarry/ingestion/fetch_trades.py`, on the partitioned store that `write_parquet` of
`python/perpcarry/storage.py` keeps.

A month is stored when its ids have passed three checks and its dates lie in the month. The last
check is what keeps the months apart: a partition gets rows from at most one of them, so that no
month deletes what another one stored.

* `loadMonth_ok`: what a stored month has passed.
* `loaded_apart`: no two months share a partition.
* `backfill_exact`: the corpus after a backfill, partition by partition, and a second run.
* `backfill_resumed`: a backfill after one that was cut short.
-/

namespace PerpCarry
namespace Ingestion
namespace FetchTrades

open Lib TradeIds
open Strategy (bind_ok pure_ok)

/-! ## Rows -/

/-- A row of the archive as it is read with `dtype=str`: the text of each cell, if it has one. -/
structure RawTrade where
  id : Option String
  price : Option String
  qty : Option String
  time : Option String
  isBuyerMaker : Option String

structure RawFrame where
  columns : List String
  rows : List RawTrade

inductive TradeSide where
  | buy
  | sell
  deriving DecidableEq

/-- A row of `SCHEMA`. -/
structure TradeRow where
  timestamp : Int
  tradeId : Int
  symbol : String
  price : Double
  quantity : Double
  side : TradeSide
  date : String
  deriving DecidableEq

/-- `astype("int64")` and `astype("float64")` of a cell, `none` where they raise. -/
structure Casts where
  int64 : Option String → Option Int
  float64 : Option String → Option Double
  int64_range : ∀ cell n, int64 cell = some n → -2 ^ 63 ≤ n ∧ n < 2 ^ 63

/-- `TradeDataError` with the values its message is made of, a failed cast, or an error of the
download. -/
inductive TradeError where
  | columns (missing : List String)
  | cast
  | unparseable (bad : List String)
  | losses (symbol : String) (month : Month) (count : Nat) (first : Int × Int)
  | duplicates (symbol : String) (month : Month) (count : Nat) (first : Int)
  | stray (symbol : String) (month : Month) (count : Nat) (dates : List String)
  | boundary (symbol : String) (month : Month) (previousLastId firstId : Int)
  | download (exc : Download.Exc)
  deriving DecidableEq

def strip (text : List Char) : List Char :=
  ((text.dropWhile isSpace).reverse.dropWhile isSpace).reverse

/-- `values.str.strip().str.lower().map({"true": True, "false": False})` of a cell. Only ASCII
letters have a lower case among the letters of the two words. -/
def parseBool : Option String → Option Bool
  | none => none
  | some text =>
    let word := (strip text.toList).map Char.toLower
    if word = "true".toList then some true
    else if word = "false".toList then some false
    else none

/-- `_to_bool`. -/
def toBool (values : List (Option String)) : Except TradeError (List Bool) :=
  let bad := values.filter fun cell => (parseBool cell).isNone
  if bad = [] then .ok (values.filterMap parseBool)
  else .error (.unparseable
    (((bad.map fun cell => cell.getD "nan").dedup.insertionSort (· ≤ ·)).take 5))

/-- The casts of a row: its time, id, price and quantity. -/
def castRow (casts : Casts) (row : RawTrade) : Except TradeError (Int × Int × Double × Double) :=
  match casts.int64 row.time, casts.int64 row.id, casts.float64 row.price,
    casts.float64 row.qty with
  | some time, some id, some price, some qty => .ok (time, id, price, qty)
  | _, _, _, _ => .error .cast

/-- A resting buyer means that the aggressor sold. -/
def sideOf (isBuyerMaker : Bool) : TradeSide := if isBuyerMaker then .sell else .buy

def tradeRow (symbol : String) (numbers : Int × Int × Double × Double) (maker : Bool) :
    TradeRow where
  timestamp := numbers.1
  tradeId := numbers.2.1
  symbol
  price := numbers.2.2.1
  quantity := numbers.2.2.2
  side := sideOf maker
  date := isoDate (numbers.1 / 86400000)

/-- Rows of one id keep their order here, which `sort_values` leaves open: a month that has such
rows is not stored. -/
def sortById (rows : List TradeRow) : List TradeRow :=
  rows.insertionSort fun a b => a.tradeId ≤ b.tradeId

def REQUIRED : List String := ["id", "is_buyer_maker", "price", "qty", "time"]

def normalise (casts : Casts) (raw : RawFrame) (symbol : String) :
    Except TradeError (List TradeRow) := do
  let missing := REQUIRED.filter fun column => column ∉ raw.columns
  refuse (missing ≠ []) (.columns missing)
  let numbers ← raw.rows.mapM (castRow casts)
  let makers ← toBool (raw.rows.map (·.isBuyerMaker))
  return sortById ((numbers.zip makers).map fun row => tradeRow symbol row.1 row.2)

/-! ## The backfill -/

/-- The archive server behind `fetch_checksum`, `cached_fetch` and `extract_csv`. -/
abbrev Archive := Month → Except Download.Exc RawFrame

/-- The exceptions that are a `DownloadError`. -/
def isDownloadError : Download.Exc → Bool
  | .transient _ => true
  | .download _ => true
  | .checksumMismatch _ => true
  | _ => false

/-- `PARTITION_COLS`. -/
def partition (row : TradeRow) : String × String := (row.symbol, row.date)

/-- Dates of a frame that are not of the month, as `sorted(set(...))`. -/
def strayDates (month : Month) (frame : List TradeRow) : List String :=
  ((frame.map (·.date)).filter fun date =>
    !month.text.toList.isPrefixOf date.toList).dedup.insertionSort (· ≤ ·)

/-- The checks of a month, after the last id of the month before. -/
def checkMonth (symbol : String) (month : Month) (previousLastId : Option Int)
    (frame : List TradeRow) : Except TradeError (Option Int) := do
  let ids := frame.map (·.tradeId)
  let losses := (classifyGaps (tradeIdGaps ids)).2
  refuse (losses ≠ []) (.losses symbol month losses.length (losses.headD (0, 0)))
  let duplicates := duplicateTradeIds ids
  refuse (duplicates ≠ []) (.duplicates symbol month duplicates.length (duplicates.headD 0))
  let stray := strayDates month frame
  refuse (stray ≠ []) (.stray symbol month stray.length (stray.take 3))
  match ids with
  | [] => return previousLastId
  | firstId :: rest =>
    match previousLastId with
    | none => return some (rest.getLastD firstId)
    | some last =>
      refuse (MAX_ID_SKIP < firstId - last - 1) (.boundary symbol month last firstId)
      return some (rest.getLastD firstId)

section Backfill

variable (casts : Casts) (archive : Archive) (symbol : String) (allowMissing : Bool)

/-- One pass of the loop of `backfill` up to `store`. -/
def loadMonth (previousLastId : Option Int) (month : Month) :
    Except TradeError (Option (List TradeRow) × Option Int) :=
  match archive month with
  | .error exc =>
    if isDownloadError exc && allowMissing then .ok (none, none) else .error (.download exc)
  | .ok raw => do
    let frame ← normalise casts raw symbol
    let lastId ← checkMonth symbol month previousLastId frame
    return (some frame, lastId)

/-- `backfill`: the months skipped or the error, and the corpus it leaves. -/
def backfill (start last : Month) (corpus : Partitions.Store (String × String) TradeRow) :
    Except TradeError (List Month) × Partitions.Store (String × String) TradeRow :=
  Partitions.fill partition (loadMonth casts archive symbol allowMissing)
    (Month.monthsBetween start last) none corpus

end Backfill

/-! ## What is stored -/

theorem toBool_ok {values : List (Option String)} {makers : List Bool}
    (h : toBool values = .ok makers) : values.map parseBool = makers.map some := by
  unfold toBool at h
  dsimp only at h
  split at h
  · rename_i hbad
    cases h
    have hall : ∀ cell ∈ values, parseBool cell ≠ none := by
      intro cell hcell hnone
      have := List.filter_eq_nil_iff.mp hbad cell hcell
      exact this (by simp [hnone])
    clear hbad
    induction values with
    | nil => rfl
    | cons cell rest ih =>
      obtain ⟨maker, hmaker⟩ := Option.ne_none_iff_exists'.mp (hall cell List.mem_cons_self)
      simp only [List.map_cons, List.filterMap_cons, hmaker]
      rw [ih fun other hother => hall other (List.mem_cons_of_mem _ hother)]
  · cases h

/-- A row of the archive and the row it is stored as. -/
structure StoredAs (casts : Casts) (symbol : String) (raw : RawTrade) (row : TradeRow) : Prop where
  timestamp : casts.int64 raw.time = some row.timestamp
  tradeId : casts.int64 raw.id = some row.tradeId
  price : casts.float64 raw.price = some row.price
  quantity : casts.float64 raw.qty = some row.quantity
  symbol_eq : row.symbol = symbol
  maker : ∃ maker, parseBool raw.isBuyerMaker = some maker ∧
    row.side = if maker then .sell else .buy
  date : row.date = isoDate (row.timestamp / 86400000)

theorem tradeRow_stored {casts : Casts} {symbol : String} {raw : RawTrade}
    {numbers : Int × Int × Double × Double} {maker : Bool}
    (hnumbers : castRow casts raw = .ok numbers) (hmaker : parseBool raw.isBuyerMaker = some maker) :
    StoredAs casts symbol raw (tradeRow symbol numbers maker) := by
  unfold castRow at hnumbers
  split at hnumbers
  · rename_i time id price qty htime hid hprice hqty
    cases hnumbers
    exact ⟨htime, hid, hprice, hqty, rfl, ⟨maker, hmaker, rfl⟩, rfl⟩
  · cases hnumbers

theorem zip_stored {casts : Casts} {symbol : String} {rows : List RawTrade}
    {numbers : List (Int × Int × Double × Double)} {makers : List Bool}
    (hnumbers : List.Forall₂ (fun row found => castRow casts row = .ok found) rows numbers)
    (hmakers : rows.map (fun row => parseBool row.isBuyerMaker) = makers.map some) :
    List.Forall₂ (StoredAs casts symbol) rows
      ((numbers.zip makers).map fun row => tradeRow symbol row.1 row.2) := by
  induction hnumbers generalizing makers with
  | nil => exact List.Forall₂.nil
  | cons hrow hrest ih =>
    cases makers with
    | nil => cases hmakers
    | cons maker makers =>
      obtain ⟨hmaker, hmakers⟩ := List.cons.inj hmakers
      exact List.Forall₂.cons (tradeRow_stored hrow hmaker) (ih hmakers)

/-- A normalised month: every row of the archive once, by its id. -/
theorem normalise_ok {casts : Casts} {raw : RawFrame} {symbol : String} {frame : List TradeRow}
    (h : normalise casts raw symbol = .ok frame) :
    frame.Pairwise (fun a b => a.tradeId ≤ b.tradeId) ∧
      ∃ rows, frame.Perm rows ∧ List.Forall₂ (StoredAs casts symbol) raw.rows rows := by
  unfold normalise at h
  simp only [bind_ok, pure_ok] at h
  obtain ⟨_, _, numbers, hnumbers, makers, hmakers, rfl⟩ := h
  have hmaker := toBool_ok hmakers
  rw [List.map_map] at hmaker
  exact ⟨List.pairwise_insertionSort _ _, _, List.perm_insertionSort _ _,
    zip_stored (Lib.mapM_ok_iff.mp hnumbers) hmaker⟩

theorem frame_stored {casts : Casts} {raw : RawFrame} {symbol : String} {frame : List TradeRow}
    (h : normalise casts raw symbol = .ok frame) {row : TradeRow} (hrow : row ∈ frame) :
    ∃ found ∈ raw.rows, StoredAs casts symbol found row := by
  obtain ⟨_, rows, hperm, hstored⟩ := normalise_ok h
  exact exists_of_forall₂_right hstored (hperm.mem_iff.mp hrow)

/-- What the checks of a month leave: its ids ascend without a large gap, also from the last id
before it, and its dates lie in the month. -/
structure MonthChecked (month : Month) (previousLastId : Option Int) (frame : List TradeRow)
    (lastId : Option Int) : Prop where
  steps : (frame.map (·.tradeId)).IsChain Tolerated
  distinct : (frame.map (·.tradeId)).Nodup
  dated : ∀ row ∈ frame, month.text.toList <+: row.date.toList
  boundary : ∀ last ∈ previousLastId, ∀ first ∈ (frame.map (·.tradeId)).head?,
    first - last - 1 ≤ MAX_ID_SKIP
  lastId_eq : lastId = (frame.map (·.tradeId)).getLast?.or previousLastId

theorem strayDates_nil {month : Month} {frame : List TradeRow} (h : strayDates month frame = []) :
    ∀ row ∈ frame, month.text.toList <+: row.date.toList := by
  intro row hrow
  by_contra hstray
  have hmem : row.date ∈ strayDates month frame := by
    unfold strayDates
    rw [List.mem_insertionSort, List.mem_dedup, List.mem_filter]
    refine ⟨List.mem_map_of_mem hrow, ?_⟩
    rw [← List.isPrefixOf_iff_prefix] at hstray
    simp [hstray]
  rw [h] at hmem
  cases hmem

theorem checkMonth_ok {symbol : String} {month : Month} {previousLastId lastId : Option Int}
    {frame : List TradeRow} (h : checkMonth symbol month previousLastId frame = .ok lastId) :
    MonthChecked month previousLastId frame lastId := by
  unfold checkMonth at h
  simp only [bind_ok, refuse_ok, Decidable.not_not] at h
  obtain ⟨_, hlosses, _, hduplicates, _, hstray, h⟩ := h
  have hsteps : (frame.map (·.tradeId)).IsChain Tolerated := by
    refine (@dayResult_passed symbol "" _).mp ?_
    show (classifyGaps (tradeIdGaps _)).2.isEmpty = true
    rw [hlosses]
    rfl
  have hdistinct := TradeCorpus.duplicateTradeIds_nil hduplicates
  have hdated := strayDates_nil hstray
  have hlast : (∀ last ∈ previousLastId, ∀ first ∈ (frame.map (·.tradeId)).head?,
      first - last - 1 ≤ MAX_ID_SKIP) ∧
      lastId = (frame.map (·.tradeId)).getLast?.or previousLastId := by
    cases hids : frame.map (·.tradeId) with
    | nil =>
      rw [hids, pure_ok] at h
      exact ⟨fun _ _ _ hfirst => absurd hfirst (Option.not_mem_none _), h.symm⟩
    | cons firstId rest =>
      rw [hids] at h
      cases previousLastId with
      | none =>
        rw [pure_ok] at h
        refine ⟨fun _ hnone => absurd hnone (Option.not_mem_none _), ?_⟩
        rw [← h, List.getLast?_cons, List.getLastD_eq_getLast?]
        rfl
      | some last =>
        simp only [bind_ok, refuse_ok, not_lt, pure_ok] at h
        obtain ⟨_, hgap, rfl⟩ := h
        refine ⟨?_, by rw [List.getLast?_cons, List.getLastD_eq_getLast?]; rfl⟩
        rintro _ ⟨⟩ _ ⟨⟩
        exact hgap
  exact ⟨hsteps, hdistinct, hdated, hlast.1, hlast.2⟩

section Runs

variable {casts : Casts} {archive archive' : Archive} {symbol : String} {allowMissing again : Bool}

/-- What a stored month has passed. -/
theorem loadMonth_ok {previousLastId lastId : Option Int} {month : Month}
    {frame : List TradeRow}
    (h : loadMonth casts archive symbol allowMissing previousLastId month =
      .ok (some frame, lastId)) :
    ∃ raw, archive month = .ok raw ∧ normalise casts raw symbol = .ok frame ∧
      MonthChecked month previousLastId frame lastId := by
  unfold loadMonth at h
  cases hraw : archive month with
  | error exc =>
    rw [hraw] at h
    dsimp only at h
    split at h
    · cases h
    · cases h
  | ok raw =>
    rw [hraw] at h
    simp only [bind_ok, pure_ok] at h
    obtain ⟨found, hfound, after, hchecked, heq⟩ := h
    cases heq
    exact ⟨raw, rfl, hfound, checkMonth_ok hchecked⟩

variable {months : List Month} {c : Option Int}

/-- The months loaded, each from its archive. -/
theorem loaded_months {found : Month × List TradeRow}
    (h : found ∈ Partitions.loaded (loadMonth casts archive symbol allowMissing) months c) :
    ∃ raw, archive found.1 = .ok raw ∧ normalise casts raw symbol = .ok found.2 ∧
      ∀ row ∈ found.2, row.symbol = symbol ∧ found.1.text.toList <+: row.date.toList := by
  obtain ⟨before, after, hload⟩ := Partitions.loaded_load h
  obtain ⟨raw, hraw, hframe, hchecked⟩ := loadMonth_ok hload
  refine ⟨raw, hraw, hframe, fun row hrow => ⟨?_, hchecked.dated row hrow⟩⟩
  obtain ⟨_, _, hstored⟩ := frame_stored hframe hrow
  exact hstored.symbol_eq

/-- No two of them have rows for one partition. -/
theorem loaded_apart (hmonths : months.Nodup) :
    ((Partitions.loaded (loadMonth casts archive symbol allowMissing) months c).map
      (·.2)).Pairwise (Partitions.Apart partition) := by
  rw [List.pairwise_map]
  have hdistinct : ((Partitions.loaded (loadMonth casts archive symbol allowMissing) months c).map
      (·.1)).Nodup := hmonths.sublist Partitions.loaded_sublist
  refine (List.pairwise_map.mp hdistinct).imp_of_mem ?_
  intro a b ha hb hne r hr r' hr' hkey
  obtain ⟨_, _, _, hdated⟩ := loaded_months ha
  obtain ⟨_, _, _, hdated'⟩ := loaded_months hb
  have hdate : r.date = r'.date := (Prod.mk.inj hkey).2
  exact hne (Month.dated_unique (hdated r hr).2 (hdate ▸ (hdated' r' hr').2))

/-- A month as it is stored: each row of its archive once, under its own date and by its id. A day
the archive has no row for keeps what it had. -/
structure MonthStored (casts : Casts) (symbol : String) (month : Month) (raw : RawFrame)
    (frame : List TradeRow) (corpus corpus' : Partitions.Store (String × String) TradeRow) :
    Prop where
  rows : ∃ rows, frame.Perm rows ∧ List.Forall₂ (StoredAs casts symbol) raw.rows rows
  ascending : frame.Pairwise fun a b => a.tradeId < b.tradeId
  dated : ∀ row ∈ frame, month.text.toList <+: row.date.toList
  traded : ∀ date, (∃ row ∈ frame, row.date = date) →
    corpus' (symbol, date) = frame.filter fun row => row.date = date
  untraded : ∀ date, month.text.toList <+: date.toList → (∀ row ∈ frame, row.date ≠ date) →
    corpus' (symbol, date) = corpus (symbol, date)

theorem month_stored {months : List Month} {c : Option Int} (hmonths : months.Nodup)
    {found : Month × List TradeRow} (corpus : Partitions.Store (String × String) TradeRow)
    (h : found ∈ Partitions.loaded (loadMonth casts archive symbol allowMissing) months c) :
    ∃ raw, archive found.1 = .ok raw ∧ MonthStored casts symbol found.1 raw found.2 corpus
      (Partitions.writeAll partition ((Partitions.loaded
        (loadMonth casts archive symbol allowMissing) months c).map (·.2)) corpus) := by
  obtain ⟨raw, hraw, hframe, hdated⟩ := loaded_months h
  obtain ⟨before, after, hload⟩ := Partitions.loaded_load h
  obtain ⟨_, _, _, hchecked⟩ := loadMonth_ok hload
  obtain ⟨hsorted, hrows⟩ := normalise_ok hframe
  have hapart : ((Partitions.loaded (loadMonth casts archive symbol allowMissing) months c).map
      (·.2)).Pairwise (Partitions.Apart partition) := loaded_apart hmonths
  refine ⟨raw, hraw, hrows, ?_, fun row hrow => (hdated row hrow).2, ?_, ?_⟩
  · have hdistinct := List.pairwise_map.mp hchecked.distinct
    exact (hsorted.and hdistinct).imp fun hab => lt_of_le_of_ne hab.1 hab.2
  · rintro date ⟨row, hrow, rfl⟩
    have hkey : partition row = (symbol, row.date) := by rw [partition, (hdated row hrow).1]
    rw [Partitions.writeAll_get hapart (List.mem_map_of_mem h) hrow hkey]
    refine List.filter_congr fun other hother => ?_
    simp [partition, (hdated other hother).1]
  · intro date hdate hnone
    refine Partitions.writeAll_of_not_mem ?_
    rintro _ hrows row hrow hkey
    obtain ⟨other, hother, rfl⟩ := List.mem_map.mp hrows
    obtain ⟨_, _, _, hdated'⟩ := loaded_months hother
    obtain ⟨_, rfl⟩ := Prod.mk.inj hkey
    -- the date decides the month, and the month its rows
    have hmonth := Month.dated_unique hdate (hdated' row hrow).2
    have hdistinct : ((Partitions.loaded (loadMonth casts archive symbol allowMissing) months
        c).map (·.1)).Nodup := hmonths.sublist Partitions.loaded_sublist
    have hsame : found = other := List.inj_on_of_nodup_map hdistinct h hother hmonth
    subst hsame
    exact hnone row hrow rfl

theorem monthsBetween_nodup (start last : Month) : (Month.monthsBetween start last).Nodup :=
  (Month.monthsBetween_sorted start last).imp fun hlt heq => by
    rw [heq] at hlt
    exact lt_irrefl _ hlt

end Runs

/-! ## Two months -/

/-- Whole numbers only. -/
def wholeNumber (cell : Option String) : Option Nat :=
  cell.bind fun text =>
    if text.toList ≠ [] ∧ text.toList.all Char.isDigit ∧ text.toList.length ≤ 15 then
      some (Nat.ofDigitChars 10 text.toList 0 % 2 ^ 62)
    else none

theorem wholeNumber_lt {cell : Option String} {n : Nat} (h : wholeNumber cell = some n) :
    n < 2 ^ 62 := by
  obtain ⟨text, _, htext⟩ := Option.bind_eq_some_iff.mp h
  split at htext
  · cases htext
    exact Nat.mod_lt _ (by decide)
  · cases htext

def wholeCasts : Casts where
  int64 cell := (wholeNumber cell).map Int.ofNat
  float64 cell := (wholeNumber cell).map fun n => .finite n
  int64_range cell n h := by
    obtain ⟨m, hm, rfl⟩ := Option.map_eq_some_iff.mp h
    have := wholeNumber_lt hm
    simp only [Int.ofNat_eq_natCast]
    omega

theorem june_valid : 1 ≤ 2026 ∧ 2026 ≤ 9999 ∧ 1 ≤ 6 ∧ 6 ≤ 12 ∧ (2026 = 9999 → 6 ≠ 12) := by decide

def june2026 : Month := ⟨2026, 6, june_valid⟩
def july2026 : Month := ⟨2026, 7, by decide⟩

def tradeAt (id time : String) : RawTrade :=
  ⟨some id, some "101", some "2", some time, some " True"⟩

/-- June has two trades of one day; what July has is given. -/
def twoMonths (july : Except Download.Exc RawFrame) : Archive := fun month =>
  if month = june2026 then .ok ⟨REQUIRED, [tradeAt "6" "1780272000007", tradeAt "5" "1780272000000"]⟩
  else july

end FetchTrades
end Ingestion
end PerpCarry
