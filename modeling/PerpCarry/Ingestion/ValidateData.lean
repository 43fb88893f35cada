import PerpCarry.Core.Dates
import PerpCarry.Ingestion.FetchSnapshot
import PerpCarry.Ingestion.FetchTrades
import PerpCarry.Ingestion.FundingSeries
import PerpCarry.Lib.Frame

/-!
# Ingestion.ValidateData

The gate over the assembled corpus: `validate` of `python/perpcarry/ingestion/validate_data.py` with
the allowlist it folds over the results, and ten of its checks.

The checks compare dates as texts. What they are meant to find is said here of the dates themselves
(`Defect`): a day of the span that is not stored, a settlement too few, a book day that no snapshot
accompanies.

* `specified_reports`: the failures of a check are its defects.
* `validate_clean_iff`: the report is clean if and only if the allowlist covers every defect.
-/

namespace PerpCarry
namespace Ingestion
namespace ValidateData

open FetchFunding (FundingRow RATE_SANITY_BOUND)
open FundingSeries (absRate)
open FetchTrades (TradeRow)
open Pipeline (BookRow)
open Strategy (bind_ok pure_ok)

/-! ## Results -/

structure CheckResult where
  check : String
  dataset : String
  symbol : Option String
  date : Option String
  passed : Bool
  detail : String
  skipped : Bool := false
  allowlisted : Bool := false
  deriving DecidableEq

def CheckResult.countsAsFailure (self : CheckResult) : Bool :=
  !self.passed && !self.skipped && !self.allowlisted

structure AllowlistEntry where
  dataset : String
  symbol : String
  reason : String
  acknowledged : String
  check : Option String := none
  start : Option String := none
  last : Option String := none

/-- The dates of an entry, both ends included; `matches` from its first `return True` on. -/
def AllowlistEntry.inRange (self : AllowlistEntry) : Option String → Bool
  | none => self.start.isNone && self.last.isNone
  | some date => self.start.all (· ≤ date) && self.last.all (date ≤ ·)

/-- `matches`. -/
def AllowlistEntry.covers (self : AllowlistEntry) (result : CheckResult) : Bool :=
  decide (self.dataset = result.dataset) && decide (some self.symbol = result.symbol) &&
    self.check.all (· = result.check) && self.inRange result.date

structure Report where
  results : List CheckResult

def Report.failures (self : Report) : List CheckResult :=
  self.results.filter (·.countsAsFailure)

def Report.ok (self : Report) : Bool := self.failures.isEmpty

/-! ## The corpus -/

inductive Dataset where
  | trades
  | funding
  | book
  | bookSnapshot
  deriving DecidableEq

/-- `DATASET_DIRS`, in its order. -/
def DATASETS : List Dataset := [.trades, .funding, .book, .bookSnapshot]

def Dataset.name : Dataset → String
  | trades => "trades"
  | funding => "funding"
  | book => "book"
  | bookSnapshot => "book_snapshot"

def Dataset.firstOfMonthOnly (self : Dataset) : Bool := self = .book || self = .bookSnapshot

/-- What the stored partitions hold. A partition is named by the text of its date, so its dates are
in order when their texts are. -/
structure Corpus where
  symbols : Dataset → List String
  dates : Dataset → String → List Date
  trades : String → Date → List TradeRow
  funding : String → Date → List FundingRow
  book : String → Date → List BookRow
  bookSnapshot : String → Date → List SnapshotRow
  sorted : ∀ dataset symbol, (dates dataset symbol).Pairwise fun d d' => d.key < d'.key
  listed : ∀ dataset symbol, dates dataset symbol ≠ [] → symbol ∈ symbols dataset

namespace Corpus

def partitions (self : Corpus) (dataset : Dataset) : List (String × Date) :=
  (self.symbols dataset).flatMap fun symbol => (self.dates dataset symbol).map fun d => (symbol, d)

/-- The prices and the quantities of a partition; those of funding are not looked at. -/
def priced (self : Corpus) (dataset : Dataset) (symbol : String) (d : Date) :
    List (Double × Double) :=
  match dataset with
  | .trades => (self.trades symbol d).map fun row => (row.price, row.quantity)
  | .funding => []
  | .book => (self.book symbol d).map fun row => (row.price, row.quantity)
  | .bookSnapshot => (self.bookSnapshot symbol d).map fun row => (row.price, row.quantity)

/-- `frame.empty`. -/
def isEmpty (self : Corpus) (dataset : Dataset) (symbol : String) (d : Date) : Bool :=
  match dataset with
  | .trades => (self.trades symbol d).isEmpty
  | .funding => (self.funding symbol d).isEmpty
  | .book => (self.book symbol d).isEmpty
  | .bookSnapshot => (self.bookSnapshot symbol d).isEmpty

theorem mem_partitions {corpus : Corpus} {dataset : Dataset} {symbol : String} {d : Date} :
    (symbol, d) ∈ corpus.partitions dataset ↔ d ∈ corpus.dates dataset symbol := by
  unfold partitions
  constructor
  · intro h
    obtain ⟨symbol', _, h⟩ := List.mem_flatMap.mp h
    obtain ⟨d', hd, heq⟩ := List.mem_map.mp h
    cases heq
    exact hd
  · intro h
    have hlisted := corpus.listed dataset symbol (List.ne_nil_of_mem h)
    exact List.mem_flatMap.mpr ⟨symbol, hlisted, List.mem_map_of_mem h⟩

end Corpus

structure Config where
  start : Option Date := none
  last : Option Date := none
  liquidSymbols : List String := []

/-- `ValidationError` with the unknown names, the `ValueError` of `free_tier_days` and the
`ZeroDivisionError` of an interval of no hours. -/
inductive GateError where
  | unknown (names known : List String)
  | precedes (last start : String)
  | zeroDivision
  deriving DecidableEq

abbrev CheckFn := Corpus → Config → Except GateError (List CheckResult)

/-- What a generator yields for each of some things in turn, until one raises. -/
def gather {α β ε : Type} (f : α → Except ε (List β)) : List α → Except ε (List β)
  | [] => .ok []
  | a :: rest => do
    let found ← f a
    let more ← gather f rest
    .ok (found ++ more)

/-! ## The checks -/

/-- A result of one partition, with the detail of a failure. -/
def partitionResult (check : String) (dataset : Dataset) (symbol : String) (d : Date)
    (passed : Bool) (detail : String) : CheckResult :=
  { check, dataset := dataset.name, symbol := some symbol, date := some d.text, passed
    detail := if passed then "ok" else detail }

/-- The dates a dataset should have between the two ends. -/
def expected (dataset : Dataset) (start last : Date) : Except GateError (List Date) :=
  if dataset.firstOfMonthOnly then
    if last.key < start.key then .error (.precedes last.text start.text)
    else .ok (Date.firstDays start last)
  else .ok (Date.datesBetween start last)

/-- The results of `check_date_coverage` for one symbol of a dataset. -/
def coverage (corpus : Corpus) (config : Config) (dataset : Dataset) (symbol : String) :
    Except GateError (List CheckResult) := do
  let present := corpus.dates dataset symbol
  match present with
  | [] => .ok []
  | first :: rest =>
    let final := rest.getLastD first
    let wanted ← expected dataset (config.start.getD first) (config.last.getD final)
    let missing := Lib.unique ((wanted.map (·.text)).filter fun date =>
      !(present.map (·.text)).contains date)
    if missing = [] then
      .ok [{ check := "date_coverage", dataset := dataset.name, symbol := some symbol, date := none
             passed := true
             detail := toString present.length ++ " date(s), " ++ first.text ++ ".." ++
               final.text }]
    else
      .ok (missing.map fun date =>
        { check := "date_coverage", dataset := dataset.name, symbol := some symbol
          date := some date, passed := false
          detail := "no partition for " ++ symbol ++ " " ++ date })

def checkDateCoverage : CheckFn := fun corpus config =>
  gather (fun dataset => gather (coverage corpus config dataset) (corpus.symbols dataset)) DATASETS

/-- The settlements of a day with these intervals. -/
def expectedSettlements (intervals : List Int) : Except GateError Int :=
  if 0 ∈ intervals then .error .zeroDivision
  else .ok ((intervals.map (Int.fdiv 24)).sum.fdiv (max intervals.length 1))

/-- The result of `check_funding_settlement_count` for one partition. -/
def settlementCount (corpus : Corpus) (symbol : String) (d : Date) :
    Except GateError (List CheckResult) := do
  let frame := corpus.funding symbol d
  if frame.isEmpty then .ok []
  else
    let intervals := Lib.unique (frame.map (·.fundingIntervalHours))
    let count ← expectedSettlements intervals
    if 1 < intervals.length then
      -- the cadence changes inside the day
      .ok [{ check := "funding_settlement_count", dataset := "funding", symbol := some symbol
             date := some d.text, passed := decide (0 < frame.length)
             detail := "mixed intervals " ++ toString intervals ++ ", " ++ toString frame.length ++
               " settlement(s)" }]
    else
      .ok [partitionResult "funding_settlement_count" .funding symbol d
        (decide ((frame.length : Int) = count))
        (toString frame.length ++ " settlement(s), expected " ++ toString count ++ " at " ++
          toString (intervals.headD 0) ++ "h")]

def checkFundingSettlementCount : CheckFn := fun corpus _ =>
  gather (fun partition => settlementCount corpus partition.1 partition.2)
    (corpus.partitions .funding)

/-- The results of a dataset's dates against the first and the last date of the trades. `noun` and
`covering` are how the messages call the dataset. -/
def window (check noun covering : String) (dataset : Dataset) (corpus : Corpus)
    (symbol : String) : List CheckResult :=
  let result (date : Option String) (passed : Bool) (detail : String) : CheckResult :=
    { check, dataset := dataset.name, symbol := some symbol, date, passed, detail }
  match corpus.dates .trades symbol with
  | [] => [result none false (symbol ++ " has " ++ noun ++ " but no trades at all")]
  | first :: rest =>
    let final := rest.getLastD first
    let between := first.text ++ ".." ++ final.text
    let outside := ((corpus.dates dataset symbol).map (·.text)).filter fun date =>
      decide (date < first.text) || decide (final.text < date)
    if outside = [] then [result none true ("within " ++ between)]
    else outside.map fun date =>
      result (some date) false (covering ++ " on " ++ date ++ " outside trades window " ++ between)

def checkFundingWithinTradesWindow : CheckFn := fun corpus _ =>
  .ok ((corpus.symbols .funding).flatMap
    (window "funding_within_trades_window" "funding" "funding" .funding corpus))

def checkBookWithinTradesWindow : CheckFn := fun corpus _ =>
  .ok ((corpus.symbols .book).flatMap
    (window "book_within_trades_window" "book data" "book" .book corpus))

/-- One result for each partition that `verdict` has one for. -/
def perPartition (check : String) (dataset : Dataset) (corpus : Corpus)
    (verdict : String → Date → Option (Bool × String)) : List CheckResult :=
  (corpus.partitions dataset).filterMap fun partition =>
    (verdict partition.1 partition.2).map fun found =>
      partitionResult check dataset partition.1 partition.2 found.1 found.2

/-- Missing prices, and prices that are not positive. -/
def badPrices (rows : List (Double × Double)) : Nat :=
  (rows.countP fun row => row.1.le .zero) + rows.countP fun row => isna row.1

def badQuantity (dataset : Dataset) (quantity : Double) : Bool :=
  isna quantity || quantity.lt .zero || !dataset.firstOfMonthOnly && quantity.eq .zero

/-- A zero quantity removes a level, so the book datasets may hold it. -/
def finitePositive (corpus : Corpus) (dataset : Dataset) (symbol : String) (d : Date) :
    Option (Bool × String) :=
  let rows := corpus.priced dataset symbol d
  if rows.isEmpty then none
  else
    let prices := !(rows.all fun row => !isna row.1) || rows.any fun row => row.1.le .zero
    let quantities := rows.any fun row => badQuantity dataset row.2
    let problems :=
      (if prices then [toString (badPrices rows) ++ " bad price(s)"] else []) ++
        if quantities then
          [toString (rows.countP fun row => badQuantity dataset row.2) ++ " bad quantity(ies)"]
        else []
    some (problems.isEmpty, ", ".intercalate problems)

def checkFinitePositive : CheckFn := fun corpus _ =>
  .ok ((DATASETS.filter (· ≠ .funding)).flatMap fun dataset =>
    perPartition "finite_positive" dataset corpus (finitePositive corpus dataset))

/-- `series.max()`, of a series without missing values. -/
def largest (series : List Double) : Double :=
  series.foldl (fun best x => if best.lt x then x else best) (series.headD .nan)

/-- `repr` of a `float` is a parameter. -/
def rateSanity (floatRepr : Double → String) (corpus : Corpus) (symbol : String) (d : Date) :
    Option (Bool × String) :=
  let frame := corpus.funding symbol d
  if frame.isEmpty then none
  else
    let outside := frame.filter fun row => RATE_SANITY_BOUND.lt (absRate row.fundingRate)
    some (outside.isEmpty, toString outside.length ++ " rate(s) beyond +/-" ++
      floatRepr RATE_SANITY_BOUND ++ ", worst " ++
      floatRepr (largest (outside.map fun row => absRate row.fundingRate)))

def checkFundingRateSanity (floatRepr : Double → String) : CheckFn := fun corpus _ =>
  .ok (perPartition "funding_rate_sanity" .funding corpus (rateSanity floatRepr corpus))

/-- A symbol may have a day without trades unless it is a liquid one. -/
def emptyDay (corpus : Corpus) (config : Config) (dataset : Dataset) (symbol : String) (d : Date) :
    Option (Bool × String) :=
  if dataset = .trades ∧ symbol ∉ config.liquidSymbols then none
  else some (!corpus.isEmpty dataset symbol d, "partition has zero rows")

def checkNoEmptyDays : CheckFn := fun corpus config =>
  .ok (DATASETS.flatMap fun dataset =>
    perPartition "no_empty_days" dataset corpus (emptyDay corpus config dataset))

/-- The first row after a stable sort by time. -/
def opensWithSnapshot (corpus : Corpus) (symbol : String) (d : Date) : Option (Bool × String) :=
  match Lib.sortValues (·.timestamp) (corpus.book symbol d) with
  | [] => none
  | first :: _ => some (first.isSnapshot, "first row is not a snapshot")

def checkBookOpensWithSnapshot : CheckFn := fun corpus _ =>
  .ok (perPartition "book_opens_with_snapshot" .book corpus (opensWithSnapshot corpus))

/-- This detail is the number of removals when there are some. -/
def hasRemovals (corpus : Corpus) (partition : String × Date) : Option CheckResult :=
  let frame := corpus.book partition.1 partition.2
  if frame.isEmpty then none
  else
    let removals := frame.countP fun row => row.quantity.eq .zero
    some { check := "book_has_removals", dataset := "book", symbol := some partition.1
           date := some partition.2.text, passed := decide (0 < removals)
           detail := if 0 < removals then toString removals ++ " removal(s)"
             else "no amount=0 rows -- dropped?" }

def checkBookHasRemovals : CheckFn := fun corpus _ =>
  .ok ((corpus.partitions .book).filterMap (hasRemovals corpus))

/-- The two results of a book day: that it is the first of a month, and its reference. -/
def pairing (corpus : Corpus) (symbol : String) (d : Date) : List CheckResult :=
  [partitionResult "book_reference_pairing" .book symbol d (decide (d.day = 1))
      (d.text ++ " is not a first-of-month free-tier day"),
    partitionResult "book_reference_pairing" .bookSnapshot symbol d
      (((corpus.dates .bookSnapshot symbol).map (·.text)).contains d.text)
      ("no book_snapshot_25 for " ++ symbol ++ " " ++ d.text)]

def checkBookReferencePairing : CheckFn := fun corpus _ =>
  .ok ((corpus.partitions .book).flatMap fun partition =>
    pairing corpus partition.1 partition.2)

/-! ## The driver -/

/-- The checks that are not modelled here, and the text of a number. -/
structure Others where
  schema : CheckFn
  archiveChecksums : CheckFn
  tradeIdContinuity : CheckFn
  duplicateTradeIds : CheckFn
  timestampMonotonic : CheckFn
  volumeReconciliation : CheckFn
  singleVenue : CheckFn
  floatRepr : Double → String

/-- `CHECKS`, in the order of registration. -/
def CHECKS (others : Others) : List (String × CheckFn) := [
  ("schema", others.schema),
  ("archive_checksums", others.archiveChecksums),
  ("date_coverage", checkDateCoverage),
  ("funding_settlement_count", checkFundingSettlementCount),
  ("trade_id_continuity", others.tradeIdContinuity),
  ("duplicate_trade_ids", others.duplicateTradeIds),
  ("timestamp_monotonic", others.timestampMonotonic),
  ("volume_reconciliation", others.volumeReconciliation),
  ("funding_within_trades_window", checkFundingWithinTradesWindow),
  ("single_venue", others.singleVenue),
  ("finite_positive", checkFinitePositive),
  ("funding_rate_sanity", checkFundingRateSanity others.floatRepr),
  ("no_empty_days", checkNoEmptyDays),
  ("book_opens_with_snapshot", checkBookOpensWithSnapshot),
  ("book_has_removals", checkBookHasRemovals),
  ("book_reference_pairing", checkBookReferencePairing),
  ("book_within_trades_window", checkBookWithinTradesWindow)]

/-- A failure that an entry matches becomes `allowlisted`. -/
def soften (entries : List AllowlistEntry) (result : CheckResult) : CheckResult :=
  if result.countsAsFailure && entries.any (·.covers result) then
    { result with allowlisted := true }
  else result

/-- `CHECKS[name](corpus, config)` of a registered name. -/
def runCheck (others : Others) (corpus : Corpus) (config : Config) (name : String) :
    Except GateError (List CheckResult) :=
  match (CHECKS others).find? fun entry => entry.1 = name with
  | some entry => entry.2 corpus config
  | none => .ok []

def validate (others : Others) (corpus : Corpus) (config : Config) (checks : Option (List String))
    (allowlist : List AllowlistEntry) : Except GateError Report := do
  let known := (CHECKS others).map (·.1)
  let names := checks.getD known
  let unknown := Lib.unique (names.filter (· ∉ known))
  if unknown ≠ [] then .error (.unknown unknown (known.insertionSort (· ≤ ·)))
  else
    let results ← gather (fun name =>
      (runCheck others corpus config name).map fun found => found.map (soften allowlist)) names
    .ok ⟨results⟩

/-! ## What the checks are for -/

/-- What a result is about; the whole symbol when there is no date. -/
structure Scope where
  dataset : Dataset
  symbol : String
  date : Option Date

/-- The first and the last of some dates. -/
structure Spans (dates : List Date) (first last : Date) : Prop where
  first_mem : first ∈ dates
  last_mem : last ∈ dates
  bounds : ∀ d ∈ dates, first.key ≤ d.key ∧ d.key ≤ last.key

section Defects

variable (corpus : Corpus) (config : Config) (scope : Scope)

/-- A date between the ends of the span that has no partition. An end that is not asked for is that
of the stored dates. -/
def Missing : Prop :=
  ∃ first last d, Spans (corpus.dates scope.dataset scope.symbol) first last ∧
    scope.date = some d ∧ (config.start.getD first).key ≤ d.key ∧
    d.key ≤ (config.last.getD last).key ∧
    (scope.dataset.firstOfMonthOnly = true → d.day = 1) ∧
    d ∉ corpus.dates scope.dataset scope.symbol

/-- A date before or after the trades of its symbol, or a symbol without any. -/
def Outside (dataset : Dataset) : Prop :=
  scope.dataset = dataset ∧
    (scope.date = none ∧ scope.symbol ∈ corpus.symbols dataset ∧
        corpus.dates .trades scope.symbol = [] ∨
      ∃ first last d, Spans (corpus.dates .trades scope.symbol) first last ∧
        scope.date = some d ∧ d ∈ corpus.dates dataset scope.symbol ∧
        (d.key < first.key ∨ last.key < d.key))

/-- A partition with this property. -/
def Held (dataset : Dataset) (Bad : String → Date → Prop) : Prop :=
  scope.dataset = dataset ∧
    ∃ d ∈ corpus.dates dataset scope.symbol, scope.date = some d ∧ Bad scope.symbol d

/-- Settlements at one interval, and not as many as it makes in a day. -/
def Unsettled (symbol : String) (d : Date) : Prop :=
  corpus.funding symbol d ≠ [] ∧
    ∃ hours, (∀ row ∈ corpus.funding symbol d, row.fundingIntervalHours = hours) ∧
      ((corpus.funding symbol d).length : Int) ≠ Int.fdiv 24 hours

def Positive (x : Double) : Prop := x = .infinity false ∨ ∃ q, x = .finite q ∧ 0 < q

def Nonnegative (x : Double) : Prop := x = .infinity false ∨ ∃ q, x = .finite q ∧ 0 ≤ q

/-- A row without a positive price, or without the quantity that its dataset takes. -/
def Unpriced (dataset : Dataset) (symbol : String) (d : Date) : Prop :=
  ∃ row ∈ corpus.priced dataset symbol d, ¬ (Positive row.1 ∧
    if dataset.firstOfMonthOnly then Nonnegative row.2 else Positive row.2)

/-- A rate beyond the bound on either side; a missing rate is beyond none. -/
def Extreme (symbol : String) (d : Date) : Prop :=
  ∃ row ∈ corpus.funding symbol d, (∃ negative, row.fundingRate = .infinity negative) ∨
    ∃ q, row.fundingRate = .finite q ∧ 3602879701896397 / 2 ^ 56 < |q|

/-- The earliest row, and the first of those in file order, is no snapshot. -/
def Unopened (symbol : String) (d : Date) : Prop :=
  ∃ before row after, corpus.book symbol d = before ++ row :: after ∧ row.isSnapshot = false ∧
    (∀ other ∈ before, row.timestamp < other.timestamp) ∧
    ∀ other ∈ after, row.timestamp ≤ other.timestamp

def Unremoved (symbol : String) (d : Date) : Prop :=
  corpus.book symbol d ≠ [] ∧ ∀ row ∈ corpus.book symbol d, row.quantity ≠ .finite 0

/-- A book day that is not the first of a month, or a reference that is not there. -/
def Unpaired : Prop :=
  ∃ d ∈ corpus.dates .book scope.symbol, scope.date = some d ∧
    (scope.dataset = .book ∧ d.day ≠ 1 ∨
      scope.dataset = .bookSnapshot ∧ d ∉ corpus.dates .bookSnapshot scope.symbol)

end Defects

/-- The modelled checks and what each is to find. -/
def SPECIFIED (corpus : Corpus) (config : Config) : List (String × (Scope → Prop)) := [
  ("date_coverage", Missing corpus config),
  ("funding_settlement_count", fun scope => Held corpus scope .funding (Unsettled corpus)),
  ("funding_within_trades_window", fun scope => Outside corpus scope .funding),
  ("finite_positive", fun scope =>
    ∃ dataset ≠ .funding, Held corpus scope dataset (Unpriced corpus dataset)),
  ("funding_rate_sanity", fun scope => Held corpus scope .funding (Extreme corpus)),
  ("no_empty_days", fun scope => ∃ dataset, Held corpus scope dataset fun symbol d =>
    corpus.isEmpty dataset symbol d = true ∧ (dataset = .trades → symbol ∈ config.liquidSymbols)),
  ("book_opens_with_snapshot", fun scope => Held corpus scope .book (Unopened corpus)),
  ("book_has_removals", fun scope => Held corpus scope .book (Unremoved corpus)),
  ("book_reference_pairing", Unpaired corpus),
  ("book_within_trades_window", fun scope => Outside corpus scope .book)]

/-! ## The checks find it -/

def CheckResult.About (self : CheckResult) (check : String) (scope : Scope) : Prop :=
  self.check = check ∧ self.dataset = scope.dataset.name ∧ self.symbol = some scope.symbol ∧
    self.date = scope.date.map (·.text)

/-- The failures among some results are the defects. -/
structure Reports (check : String) (results : List CheckResult) (Bad : Scope → Prop) : Prop where
  sound : ∀ r ∈ results, r.countsAsFailure = true → ∃ scope, Bad scope ∧ r.About check scope
  complete : ∀ scope, Bad scope → ∃ r ∈ results, r.countsAsFailure = true ∧ r.About check scope

section Reports

variable {check : String} {α : Type} {xs : List α}

theorem Reports.congr {results : List CheckResult} {Bad Bad' : Scope → Prop}
    (h : Reports check results Bad) (hbad : ∀ scope, Bad scope ↔ Bad' scope) :
    Reports check results Bad' := by
  have hsame : Bad = Bad' := funext fun scope => propext (hbad scope)
  rwa [← hsame]

theorem Reports.flatMap {f : α → List CheckResult} {Bad : α → Scope → Prop}
    (h : ∀ x ∈ xs, Reports check (f x) (Bad x)) :
    Reports check (xs.flatMap f) fun scope => ∃ x ∈ xs, Bad x scope := by
  constructor
  · intro r hr hfailure
    obtain ⟨x, hx, hr⟩ := List.mem_flatMap.mp hr
    obtain ⟨scope, hbad, habout⟩ := (h x hx).sound r hr hfailure
    exact ⟨scope, ⟨x, hx, hbad⟩, habout⟩
  · rintro scope ⟨x, hx, hbad⟩
    obtain ⟨r, hr, hfailure⟩ := (h x hx).complete scope hbad
    exact ⟨r, List.mem_flatMap.mpr ⟨x, hx, hr⟩, hfailure⟩

theorem gather_ok {ε β : Type} {f : α → Except ε (List β)} {out : List β}
    (h : gather f xs = .ok out) : (∀ x ∈ xs, ∃ ys, f x = .ok ys) ∧
      ∀ y, y ∈ out ↔ ∃ x ∈ xs, ∃ ys, f x = .ok ys ∧ y ∈ ys := by
  induction xs generalizing out with
  | nil =>
    cases h
    simp
  | cons x xs ih =>
    unfold gather at h
    obtain ⟨found, hfound, h⟩ := bind_ok.mp h
    obtain ⟨more, hmore, h⟩ := bind_ok.mp h
    cases h
    obtain ⟨hall, hmem⟩ := ih hmore
    refine ⟨List.forall_mem_cons.mpr ⟨⟨found, hfound⟩, hall⟩, fun y => ?_⟩
    rw [List.mem_append, hmem, List.exists_mem_cons_iff, hfound]
    simp

theorem Reports.gather {f : α → Except GateError (List CheckResult)} {Bad : α → Scope → Prop}
    {out : List CheckResult} (h : ∀ x ∈ xs, ∀ results, f x = .ok results →
      Reports check results (Bad x)) (hout : gather f xs = .ok out) :
    Reports check out fun scope => ∃ x ∈ xs, Bad x scope := by
  obtain ⟨hall, hmem⟩ := gather_ok hout
  constructor
  · intro r hr hfailure
    obtain ⟨x, hx, results, hresults, hr⟩ := (hmem r).mp hr
    obtain ⟨scope, hbad, habout⟩ := (h x hx results hresults).sound r hr hfailure
    exact ⟨scope, ⟨x, hx, hbad⟩, habout⟩
  · rintro scope ⟨x, hx, hbad⟩
    obtain ⟨results, hresults⟩ := hall x hx
    obtain ⟨r, hr, hfailure⟩ := (h x hx results hresults).complete scope hbad
    exact ⟨r, (hmem r).mpr ⟨x, hx, results, hresults, hr⟩, hfailure⟩

end Reports

section Partitions

variable {corpus : Corpus} {check : String} {dataset : Dataset} {symbol : String} {d : Date}

theorem partitionResult_about {passed : Bool} {detail : String} :
    (partitionResult check dataset symbol d passed detail).About check
      ⟨dataset, symbol, some d⟩ := ⟨rfl, rfl, rfl, rfl⟩

theorem partitionResult_failure {passed : Bool} {detail : String} :
    (partitionResult check dataset symbol d passed detail).countsAsFailure = true ↔
      passed = false := by
  simp [partitionResult, CheckResult.countsAsFailure]

theorem reports_partitions {f : String × Date → Option CheckResult} {Bad : String → Date → Prop}
    (habout : ∀ symbol d, ∀ r ∈ f (symbol, d), r.About check ⟨dataset, symbol, some d⟩)
    (hbad : ∀ symbol d, (∃ r ∈ f (symbol, d), r.countsAsFailure = true) ↔ Bad symbol d) :
    Reports check ((corpus.partitions dataset).filterMap f)
      fun scope => Held corpus scope dataset Bad := by
  constructor
  · intro r hr hfailure
    obtain ⟨⟨symbol, d⟩, hd, hfound⟩ := List.mem_filterMap.mp hr
    exact ⟨⟨dataset, symbol, some d⟩, ⟨rfl, d, Corpus.mem_partitions.mp hd, rfl,
      (hbad symbol d).mp ⟨r, hfound, hfailure⟩⟩, habout symbol d r hfound⟩
  · rintro ⟨dataset', symbol, date⟩ ⟨hdataset, d, hd, hdate, hdefect⟩
    dsimp only at hdataset hd hdate hdefect
    subst hdataset hdate
    obtain ⟨r, hfound, hfailure⟩ := (hbad symbol d).mpr hdefect
    exact ⟨r, List.mem_filterMap.mpr ⟨(symbol, d), Corpus.mem_partitions.mpr hd, hfound⟩,
      hfailure, habout symbol d r hfound⟩

theorem reports_perPartition {verdict : String → Date → Option (Bool × String)}
    {Bad : String → Date → Prop}
    (hbad : ∀ symbol d, (∃ detail, verdict symbol d = some (false, detail)) ↔ Bad symbol d) :
    Reports check (perPartition check dataset corpus verdict)
      fun scope => Held corpus scope dataset Bad := by
  refine reports_partitions ?_ ?_
  · intro symbol d r hr
    obtain ⟨found, _, rfl⟩ := Option.map_eq_some_iff.mp hr
    exact partitionResult_about
  · intro symbol d
    rw [← hbad]
    constructor
    · rintro ⟨r, hr, hfailure⟩
      obtain ⟨⟨passed, detail⟩, hfound, rfl⟩ := Option.map_eq_some_iff.mp hr
      obtain rfl : passed = false := partitionResult_failure.mp hfailure
      exact ⟨detail, hfound⟩
    · rintro ⟨detail, hfound⟩
      exact ⟨_, Option.map_eq_some_iff.mpr ⟨(false, detail), hfound, rfl⟩,
        partitionResult_failure.mpr rfl⟩

end Partitions

/-! ### The coverage of a span -/

section Spans

variable {dates : List Date} {first last : Date} {rest : List Date}

theorem getLastD_ge (hsorted : (first :: rest).Pairwise fun d d' => d.key < d'.key) :
    ∀ d ∈ first :: rest, d.key ≤ (rest.getLastD first).key := by
  induction rest generalizing first with
  | nil =>
    intro d hd
    rw [List.mem_singleton.mp hd]
    exact le_rfl
  | cons second rest ih =>
    obtain ⟨hfirst, hrest⟩ := List.pairwise_cons.mp hsorted
    have hlater := ih hrest
    rw [List.getLastD_cons]
    refine List.forall_mem_cons.mpr ⟨?_, hlater⟩
    exact (hfirst second List.mem_cons_self).le.trans (hlater second List.mem_cons_self)

theorem spans_cons (hsorted : (first :: rest).Pairwise fun d d' => d.key < d'.key) :
    Spans (first :: rest) first (rest.getLastD first) := by
  refine ⟨List.mem_cons_self, List.getLastD_mem_cons, fun d hd => ⟨?_, getLastD_ge hsorted d hd⟩⟩
  rcases List.mem_cons.mp hd with rfl | hd
  · exact le_rfl
  · exact ((List.pairwise_cons.mp hsorted).1 d hd).le

theorem Spans.unique {first' last' : Date} (h : Spans dates first last)
    (h' : Spans dates first' last') : first = first' ∧ last = last' := by
  have hfirst := (h.bounds _ h'.first_mem).1
  have hfirst' := (h'.bounds _ h.first_mem).1
  have hlast := (h.bounds _ h'.last_mem).2
  have hlast' := (h'.bounds _ h.last_mem).2
  exact ⟨Date.key_inj (le_antisymm hfirst hfirst'), Date.key_inj (le_antisymm hlast' hlast)⟩

end Spans

theorem mem_expected {dataset : Dataset} {start last d : Date} {wanted : List Date}
    (h : expected dataset start last = .ok wanted) :
    d ∈ wanted ↔ (start.key ≤ d.key ∧ d.key ≤ last.key) ∧
      (dataset.firstOfMonthOnly = true → d.day = 1) := by
  unfold expected at h
  split at h
  · rename_i hfirsts
    split at h
    · cases h
    · cases h
      rw [Date.mem_firstDays]
      tauto
  · rename_i hevery
    cases h
    rw [Date.mem_datesBetween]
    tauto

theorem mem_texts {dates : List Date} {d : Date} :
    (dates.map (·.text)).contains d.text = true ↔ d ∈ dates := by
  rw [List.contains_iff_mem, List.mem_map]
  constructor
  · rintro ⟨d', hd', htext⟩
    rwa [← Date.text_inj.mp htext]
  · exact fun hd => ⟨d, hd, rfl⟩

theorem coverage_reports {corpus : Corpus} {config : Config} {dataset : Dataset} {symbol : String}
    {results : List CheckResult} (h : coverage corpus config dataset symbol = .ok results) :
    Reports "date_coverage" results fun scope =>
      (scope.dataset = dataset ∧ scope.symbol = symbol) ∧ Missing corpus config scope := by
  unfold coverage at h
  dsimp only at h
  have hsorted := corpus.sorted dataset symbol
  cases hpresent : corpus.dates dataset symbol with
  | nil =>
    rw [hpresent] at h
    cases h
    refine ⟨List.forall_mem_nil _, ?_⟩
    rintro ⟨dataset', symbol', date⟩ ⟨⟨hdataset, hsymbol⟩, first, last, d, hspans, _⟩
    dsimp only at hdataset hsymbol hspans
    rw [hdataset, hsymbol, hpresent] at hspans
    cases hspans.first_mem
  | cons first rest =>
    rw [hpresent] at h hsorted
    have hspans := spans_cons hsorted
    obtain ⟨wanted, hwanted, h⟩ := bind_ok.mp h
    -- a date of the span is reported exactly if it is not stored
    have hmissing : ∀ date, date ∈ Lib.unique ((wanted.map (·.text)).filter fun date =>
        !((first :: rest).map (·.text)).contains date) ↔
        ∃ d, d.text = date ∧ d ∈ wanted ∧ d ∉ first :: rest := by
      intro date
      rw [Lib.mem_unique, List.mem_filter]
      constructor
      · rintro ⟨hdate, habsent⟩
        obtain ⟨d, hd, rfl⟩ := List.mem_map.mp hdate
        refine ⟨d, rfl, hd, fun hmem => ?_⟩
        rw [mem_texts.mpr hmem] at habsent
        cases habsent
      · rintro ⟨d, rfl, hd, hnot⟩
        refine ⟨List.mem_map_of_mem hd, ?_⟩
        rw [Bool.not_eq_true', ← Bool.not_eq_true, mem_texts]
        exact hnot
    have hdefect : ∀ d, (d ∈ wanted ∧ d ∉ first :: rest) ↔
        Missing corpus config ⟨dataset, symbol, some d⟩ := by
      intro d
      rw [mem_expected hwanted]
      unfold Missing
      dsimp only
      rw [hpresent]
      constructor
      · rintro ⟨⟨hrange, hday⟩, hnot⟩
        exact ⟨first, _, d, hspans, rfl, hrange.1, hrange.2, hday, hnot⟩
      · rintro ⟨first', last', d', hspans', hd, hlow, hhigh, hday, hnot⟩
        obtain ⟨rfl, rfl⟩ := hspans.unique hspans'
        cases hd
        exact ⟨⟨⟨hlow, hhigh⟩, hday⟩, hnot⟩
    split at h
    · rename_i hnone
      cases h
      constructor
      · intro r hr hfailure
        rw [List.mem_singleton.mp hr] at hfailure
        cases hfailure
      · rintro ⟨dataset', symbol', date⟩ ⟨⟨hdataset, hsymbol⟩, hbad⟩
        dsimp only at hdataset hsymbol
        subst hdataset hsymbol
        have hbad' := hbad
        obtain ⟨_, _, d, _, hdate, _⟩ := hbad'
        dsimp only at hdate
        subst hdate
        have hreported := (hmissing d.text).mpr ⟨d, rfl, (hdefect d).mpr hbad⟩
        rw [hnone] at hreported
        cases hreported
    · cases h
      constructor
      · intro r hr _
        obtain ⟨date, hdate, rfl⟩ := List.mem_map.mp hr
        obtain ⟨d, rfl, hd⟩ := (hmissing date).mp hdate
        exact ⟨⟨dataset, symbol, some d⟩, ⟨⟨rfl, rfl⟩, (hdefect d).mp hd⟩, rfl, rfl, rfl, rfl⟩
      · rintro ⟨dataset', symbol', date⟩ ⟨⟨hdataset, hsymbol⟩, hbad⟩
        dsimp only at hdataset hsymbol
        subst hdataset hsymbol
        have hbad' := hbad
        obtain ⟨_, _, d, _, hdate, _⟩ := hbad'
        dsimp only at hdate
        subst hdate
        exact ⟨_, List.mem_map_of_mem ((hmissing d.text).mpr ⟨d, rfl, (hdefect d).mpr hbad⟩),
          rfl, rfl, rfl, rfl, rfl⟩

section Checks

variable {corpus : Corpus} {config : Config} {results : List CheckResult}

theorem mem_datasets (dataset : Dataset) : dataset ∈ DATASETS := by
  cases dataset with
  | trades => decide
  | funding => decide
  | book => decide
  | bookSnapshot => decide

theorem dateCoverage_reports (h : checkDateCoverage corpus config = .ok results) :
    Reports "date_coverage" results (Missing corpus config) := by
  have hdatasets : Reports "date_coverage" results fun scope => ∃ dataset ∈ DATASETS,
      ∃ symbol ∈ corpus.symbols dataset,
        (scope.dataset = dataset ∧ scope.symbol = symbol) ∧ Missing corpus config scope :=
    Reports.gather (fun dataset _ out hout =>
      Reports.gather (fun symbol _ found hfound => coverage_reports hfound) hout) h
  refine hdatasets.congr fun scope => ?_
  constructor
  · rintro ⟨_, _, _, _, _, hbad⟩
    exact hbad
  · intro hbad
    have hbad' := hbad
    obtain ⟨first, _, _, hspans, _⟩ := hbad'
    exact ⟨scope.dataset, mem_datasets _, scope.symbol,
      corpus.listed _ _ (List.ne_nil_of_mem hspans.first_mem), ⟨rfl, rfl⟩, hbad⟩

/-! ### Windows -/

theorem window_reports {check noun covering : String} {dataset : Dataset} {symbol : String}
    (hsymbol : symbol ∈ corpus.symbols dataset) :
    Reports check (window check noun covering dataset corpus symbol) fun scope =>
      scope.symbol = symbol ∧ Outside corpus scope dataset := by
  unfold window
  dsimp only
  have hsorted := corpus.sorted .trades symbol
  cases htrades : corpus.dates .trades symbol with
  | nil =>
    constructor
    · intro r hr _
      rw [List.mem_singleton.mp hr]
      exact ⟨⟨dataset, symbol, none⟩, ⟨rfl, rfl, .inl ⟨rfl, hsymbol, htrades⟩⟩, rfl, rfl, rfl, rfl⟩
    · rintro ⟨dataset', symbol', date⟩ ⟨hsame, hdataset, hbad⟩
      dsimp only at hsame hdataset hbad
      subst hsame hdataset
      rcases hbad with ⟨rfl, _⟩ | ⟨first, _, _, hspans, _⟩
      · exact ⟨_, List.mem_singleton.mpr rfl, rfl, rfl, rfl, rfl, rfl⟩
      · rw [htrades] at hspans
        cases hspans.first_mem
  | cons first rest =>
    rw [htrades] at hsorted
    have hspans := spans_cons hsorted
    dsimp only
    have houtside : ∀ date, date ∈ ((corpus.dates dataset symbol).map (·.text)).filter
        (fun date => decide (date < first.text) || decide ((rest.getLastD first).text < date)) ↔
        ∃ d, d.text = date ∧ Outside corpus ⟨dataset, symbol, some d⟩ dataset := by
      intro date
      rw [List.mem_filter, List.mem_map]
      constructor
      · rintro ⟨⟨d, hd, rfl⟩, hdate⟩
        simp only [Bool.or_eq_true, decide_eq_true_eq, Date.text_lt] at hdate
        exact ⟨d, rfl, rfl, .inr ⟨first, _, d, htrades ▸ hspans, rfl, hd, hdate⟩⟩
      · rintro ⟨d, rfl, _, ⟨hnone, _⟩ | ⟨first', last', d', hspans', hdate, hd, hbeyond⟩⟩
        · cases hnone
        · cases hdate
          dsimp only at hspans' hd
          rw [htrades] at hspans'
          obtain ⟨rfl, rfl⟩ := hspans.unique hspans'
          refine ⟨⟨d, hd, rfl⟩, ?_⟩
          simpa only [Bool.or_eq_true, decide_eq_true_eq, Date.text_lt] using hbeyond
    have hdated : ∀ scope : Scope, scope.symbol = symbol ∧ Outside corpus scope dataset →
        ∃ d, scope = ⟨dataset, symbol, some d⟩ := by
      rintro ⟨dataset', symbol', date⟩ ⟨hsame, hdataset, hbad⟩
      dsimp only at hsame hdataset hbad
      subst hsame hdataset
      rcases hbad with ⟨_, _, hnone⟩ | ⟨_, _, d, _, rfl, _⟩
      · rw [htrades] at hnone
        cases hnone
      · exact ⟨d, rfl⟩
    split
    · rename_i hnone
      constructor
      · intro r hr hfailure
        rw [List.mem_singleton.mp hr] at hfailure
        cases hfailure
      · intro scope hbad
        obtain ⟨d, rfl⟩ := hdated scope hbad
        have hreported := (houtside d.text).mpr ⟨d, rfl, hbad.2⟩
        rw [hnone] at hreported
        cases hreported
    · constructor
      · intro r hr _
        obtain ⟨date, hdate, rfl⟩ := List.mem_map.mp hr
        obtain ⟨d, rfl, hbad⟩ := (houtside date).mp hdate
        exact ⟨⟨dataset, symbol, some d⟩, ⟨rfl, hbad⟩, rfl, rfl, rfl, rfl⟩
      · intro scope hbad
        obtain ⟨d, rfl⟩ := hdated scope hbad
        exact ⟨_, List.mem_map_of_mem ((houtside d.text).mpr ⟨d, rfl, hbad.2⟩),
          rfl, rfl, rfl, rfl, rfl⟩

theorem windows_reports {check noun covering : String} {dataset : Dataset} :
    Reports check ((corpus.symbols dataset).flatMap (window check noun covering dataset corpus))
      fun scope => Outside corpus scope dataset := by
  refine (Reports.flatMap fun symbol hsymbol => window_reports hsymbol).congr fun scope => ?_
  constructor
  · rintro ⟨_, _, _, hbad⟩
    exact hbad
  · intro hbad
    have hbad' := hbad
    obtain ⟨rfl, ⟨_, hlisted, _⟩ | ⟨_, _, d, _, _, hd, _⟩⟩ := hbad'
    · exact ⟨scope.symbol, hlisted, rfl, hbad⟩
    · exact ⟨scope.symbol, corpus.listed _ _ (List.ne_nil_of_mem hd), rfl, hbad⟩

/-! ### Partitions -/

theorem expectedSettlements_one {hours count : Int}
    (h : expectedSettlements [hours] = .ok count) : count = Int.fdiv 24 hours := by
  unfold expectedSettlements at h
  split at h
  · cases h
  · cases h
    simp

theorem settlementCount_reports {symbol : String} {d : Date}
    (h : settlementCount corpus symbol d = .ok results) :
    Reports "funding_settlement_count" results fun scope =>
      scope = ⟨.funding, symbol, some d⟩ ∧ Unsettled corpus symbol d := by
  unfold settlementCount at h
  dsimp only at h
  split at h
  · rename_i hempty
    cases h
    refine ⟨List.forall_mem_nil _, ?_⟩
    rintro scope ⟨_, hnonempty, _⟩
    exact absurd (List.isEmpty_iff.mp hempty) hnonempty
  · rename_i hnonempty
    rw [List.isEmpty_iff] at hnonempty
    obtain ⟨count, hcount, h⟩ := bind_ok.mp h
    have hintervals : (corpus.funding symbol d).map (·.fundingIntervalHours) ≠ [] := by
      simpa using hnonempty
    have hsame : ∀ hours, Lib.unique ((corpus.funding symbol d).map (·.fundingIntervalHours)) =
        [hours] ↔ ∀ row ∈ corpus.funding symbol d, row.fundingIntervalHours = hours := by
      intro hours
      rw [Lib.unique_singleton, List.forall_mem_map]
      exact and_iff_right hintervals
    split at h
    · rename_i hmixed
      cases h
      constructor
      · intro r hr hfailure
        rw [List.mem_singleton.mp hr] at hfailure
        have hpositive := List.length_pos_iff.mpr hnonempty
        simp [CheckResult.countsAsFailure, hpositive] at hfailure
      · rintro scope ⟨_, _, hours, hall, _⟩
        rw [(hsame hours).mpr hall] at hmixed
        cases hmixed
        contradiction
    · rename_i hsingle
      cases h
      have hpositive := List.length_pos_iff.mpr (Lib.unique_ne_nil hintervals)
      obtain ⟨hours, hone⟩ := List.length_eq_one_iff.mp
        (Nat.le_antisymm (not_lt.mp hsingle) hpositive)
      have hall := (hsame hours).mp hone
      rw [hone] at hcount ⊢
      have hexpected := expectedSettlements_one hcount
      constructor
      · intro r hr hfailure
        rw [List.mem_singleton.mp hr] at hfailure ⊢
        refine ⟨⟨.funding, symbol, some d⟩, ⟨rfl, hnonempty, hours, hall, ?_⟩,
          partitionResult_about⟩
        rw [partitionResult_failure, hexpected] at hfailure
        exact of_decide_eq_false hfailure
      · rintro scope ⟨rfl, _, hours', hall', hne⟩
        obtain rfl : hours = hours' :=
          List.singleton_inj.mp (hone.symm.trans ((hsame hours').mpr hall'))
        refine ⟨_, List.mem_singleton.mpr rfl, ?_, partitionResult_about⟩
        rw [partitionResult_failure, hexpected]
        exact decide_eq_false hne

theorem fundingSettlementCount_reports
    (h : checkFundingSettlementCount corpus config = .ok results) :
    Reports "funding_settlement_count" results fun scope =>
      Held corpus scope .funding (Unsettled corpus) := by
  refine (Reports.gather (fun partition _ found hfound =>
    settlementCount_reports hfound) h).congr fun scope => ?_
  constructor
  · rintro ⟨⟨symbol, d⟩, hd, rfl, hbad⟩
    exact ⟨rfl, d, Corpus.mem_partitions.mp hd, rfl, hbad⟩
  · obtain ⟨dataset, symbol, date⟩ := scope
    rintro ⟨hdataset, d, hd, hdate, hbad⟩
    dsimp only at hdataset hd hdate hbad
    subst hdataset hdate
    exact ⟨(symbol, d), Corpus.mem_partitions.mpr hd, rfl, hbad⟩

theorem positive_iff {x : Double} : Positive x ↔ isna x = false ∧ x.le .zero = false := by
  constructor
  · rintro (rfl | ⟨q, rfl, hq⟩)
    · decide
    · exact ⟨rfl, by simpa [Double.zero] using hq⟩
  · rintro ⟨hna, hle⟩
    exact plausible_price hna hle

theorem nonnegative_iff {x : Double} : Nonnegative x ↔ isna x = false ∧ x.lt .zero = false := by
  constructor
  · rintro (rfl | ⟨q, rfl, hq⟩)
    · decide
    · exact ⟨rfl, by simpa [Double.zero] using hq⟩
  · rintro ⟨hna, hlt⟩
    exact plausible_quantity hna hlt

theorem badQuantity_iff {dataset : Dataset} {quantity : Double} :
    badQuantity dataset quantity = false ↔
      if dataset.firstOfMonthOnly then Nonnegative quantity else Positive quantity := by
  unfold badQuantity
  cases dataset.firstOfMonthOnly with
  | true => simp [nonnegative_iff]
  | false => simp [positive_iff, Double.le, and_assoc]

theorem finitePositive_verdict {dataset : Dataset} {symbol : String} {d : Date} :
    (∃ detail, finitePositive corpus dataset symbol d = some (false, detail)) ↔
      Unpriced corpus dataset symbol d := by
  have hrow : ∀ row : Double × Double, ¬ (Positive row.1 ∧
      if dataset.firstOfMonthOnly then Nonnegative row.2 else Positive row.2) ↔
      (isna row.1 = true ∨ row.1.le .zero = true) ∨ badQuantity dataset row.2 = true := by
    intro row
    rw [← badQuantity_iff, positive_iff]
    simp only [not_and_or, Bool.not_eq_false]
  unfold Unpriced finitePositive
  simp only [hrow]
  generalize corpus.priced dataset symbol d = rows
  cases rows with
  | nil => simp
  | cons first rest =>
    simp only [List.isEmpty_cons, Bool.false_eq_true, if_false, Option.some.injEq, Prod.mk.injEq,
      exists_and_left, exists_eq', and_true, ← Bool.not_eq_true, List.isEmpty_iff,
      List.append_eq_nil_iff, ite_eq_right_iff, List.cons_ne_nil, imp_false, not_and_or, not_not]
    rw [Bool.or_eq_true, Bool.not_eq_true', ← Bool.not_eq_true, List.all_eq_true, List.any_eq_true,
      List.any_eq_true]
    push Not
    constructor
    · rintro ((⟨row, hrow, hna⟩ | ⟨row, hrow, hle⟩) | ⟨row, hrow, hbad⟩)
      · exact ⟨row, hrow, .inl (.inl (by simpa using hna))⟩
      · exact ⟨row, hrow, .inl (.inr hle)⟩
      · exact ⟨row, hrow, .inr hbad⟩
    · rintro ⟨row, hrow, (hna | hle) | hbad⟩
      · exact .inl (.inl ⟨row, hrow, by simp [hna]⟩)
      · exact .inl (.inr ⟨row, hrow, hle⟩)
      · exact .inr ⟨row, hrow, hbad⟩

theorem rateSanity_verdict {floatRepr : Double → String} {symbol : String} {d : Date} :
    (∃ detail, rateSanity floatRepr corpus symbol d = some (false, detail)) ↔
      Extreme corpus symbol d := by
  have hbound : ∀ rate, RATE_SANITY_BOUND.lt (absRate rate) = true ↔
      (∃ negative, rate = .infinity negative) ∨ ∃ q, rate = .finite q ∧ 3602879701896397 / 2 ^ 56 < |q| := by
    intro rate
    cases rate with
    | finite q => simp [RATE_SANITY_BOUND, absRate]
    | infinity negative => simp [RATE_SANITY_BOUND, absRate, Double.lt]
    | nan => simp [RATE_SANITY_BOUND, absRate, Double.lt]
  unfold Extreme rateSanity
  simp only [← hbound]
  generalize corpus.funding symbol d = frame
  cases frame with
  | nil => simp
  | cons first rest =>
    simp only [List.isEmpty_cons, Bool.false_eq_true, if_false, Option.some.injEq, Prod.mk.injEq,
      exists_and_left, exists_eq', and_true, ← Bool.not_eq_true, List.isEmpty_iff,
      List.filter_eq_nil_iff]
    push Not
    rfl

theorem emptyDay_verdict {dataset : Dataset} {symbol : String} {d : Date} :
    (∃ detail, emptyDay corpus config dataset symbol d = some (false, detail)) ↔
      corpus.isEmpty dataset symbol d = true ∧
        (dataset = .trades → symbol ∈ config.liquidSymbols) := by
  unfold emptyDay
  split
  · rename_i hthin
    simp [hthin.1, hthin.2]
  · rename_i hliquid
    simp only [not_and, not_not] at hliquid
    simpa using fun _ => hliquid

theorem opens_verdict {symbol : String} {d : Date} :
    (∃ detail, opensWithSnapshot corpus symbol d = some (false, detail)) ↔
      Unopened corpus symbol d := by
  have hfirst : Unopened corpus symbol d ↔ ∃ row,
      (Lib.sortValues (·.timestamp) (corpus.book symbol d)).head? = some row ∧
        row.isSnapshot = false := by
    simp only [Lib.sortValues_head]
    constructor
    · rintro ⟨before, row, after, hrows, hsnapshot, hbefore, hafter⟩
      exact ⟨row, ⟨before, after, hrows, hbefore, hafter⟩, hsnapshot⟩
    · rintro ⟨row, ⟨before, after, hrows, hbefore, hafter⟩, hsnapshot⟩
      exact ⟨before, row, after, hrows, hsnapshot, hbefore, hafter⟩
  rw [hfirst]
  unfold opensWithSnapshot
  cases Lib.sortValues (·.timestamp) (corpus.book symbol d) with
  | nil => simp
  | cons first rest => simp

theorem hasRemovals_reports : Reports "book_has_removals"
    ((corpus.partitions .book).filterMap (hasRemovals corpus))
    fun scope => Held corpus scope .book (Unremoved corpus) := by
  refine reports_partitions ?_ ?_
  · intro symbol d r hr
    unfold hasRemovals at hr
    dsimp only at hr
    split at hr
    · cases hr
    · cases hr
      exact ⟨rfl, rfl, rfl, rfl⟩
  · intro symbol d
    unfold hasRemovals Unremoved
    generalize corpus.book symbol d = frame
    have hzero : ∀ x : Double, x.eq .zero = true ↔ x = .finite 0 := by
      intro x
      cases x with
      | finite q => simp [Double.zero]
      | infinity negative => simp [Double.zero, Double.eq]
      | nan => simp [Double.eq]
    cases frame with
    | nil => simp
    | cons first rest =>
      simp only [List.isEmpty_cons, Bool.false_eq_true, if_false, Option.mem_def,
        Option.some.injEq, exists_eq_left', CheckResult.countsAsFailure, Bool.not_false,
        Bool.and_true, Bool.not_eq_true', decide_eq_false_iff_not, not_lt, Nat.le_zero,
        List.countP_eq_zero, hzero, ne_eq, List.cons_ne_nil, not_false_eq_true, true_and]

theorem pairing_reports : Reports "book_reference_pairing"
    ((corpus.partitions .book).flatMap fun partition => pairing corpus partition.1 partition.2)
    (Unpaired corpus) := by
  constructor
  · intro r hr hfailure
    obtain ⟨⟨symbol, d⟩, hd, hr⟩ := List.mem_flatMap.mp hr
    have hstored := Corpus.mem_partitions.mp hd
    rcases List.mem_pair.mp hr with rfl | rfl
    · have hday := of_decide_eq_false (partitionResult_failure.mp hfailure)
      exact ⟨⟨.book, symbol, some d⟩, ⟨d, hstored, rfl, .inl ⟨rfl, hday⟩⟩, partitionResult_about⟩
    · have habsent := partitionResult_failure.mp hfailure
      rw [← Bool.not_eq_true, mem_texts] at habsent
      exact ⟨⟨.bookSnapshot, symbol, some d⟩, ⟨d, hstored, rfl, .inr ⟨rfl, habsent⟩⟩,
        partitionResult_about⟩
  · rintro ⟨dataset, symbol, date⟩ ⟨d, hd, hdate, hbad⟩
    dsimp only at hd hdate hbad
    subst hdate
    have hpartition := Corpus.mem_partitions.mpr hd
    rcases hbad with ⟨rfl, hday⟩ | ⟨rfl, habsent⟩
    · refine ⟨_, List.mem_flatMap.mpr ⟨(symbol, d), hpartition, List.mem_cons_self⟩, ?_,
        partitionResult_about⟩
      exact partitionResult_failure.mpr (decide_eq_false hday)
    · refine ⟨_, List.mem_flatMap.mpr ⟨(symbol, d), hpartition,
        List.mem_cons_of_mem _ List.mem_cons_self⟩, ?_, partitionResult_about⟩
      rw [partitionResult_failure, ← Bool.not_eq_true, mem_texts]
      exact habsent

/-- Every modelled check is registered under its name, and its failures are its defects. -/
theorem specified_reports (others : Others) {name : String} {Bad : Scope → Prop}
    (h : (name, Bad) ∈ SPECIFIED corpus config) :
    ∀ results, runCheck others corpus config name = .ok results → Reports name results Bad := by
  simp only [SPECIFIED, List.mem_cons, Prod.mk.injEq, List.not_mem_nil, or_false] at h
  obtain ⟨rfl, rfl⟩ | ⟨rfl, rfl⟩ | ⟨rfl, rfl⟩ | ⟨rfl, rfl⟩ | ⟨rfl, rfl⟩ | ⟨rfl, rfl⟩ |
    ⟨rfl, rfl⟩ | ⟨rfl, rfl⟩ | ⟨rfl, rfl⟩ | ⟨rfl, rfl⟩ := h
  · exact fun results hresults => dateCoverage_reports hresults
  · exact fun results (hresults : checkFundingSettlementCount corpus config = .ok results) =>
      fundingSettlementCount_reports hresults
  · rintro results hresults
    cases hresults
    exact windows_reports
  · rintro results hresults
    cases hresults
    refine (Reports.flatMap fun dataset _ =>
      reports_perPartition fun symbol d => finitePositive_verdict).congr fun scope => ?_
    refine exists_congr fun dataset => and_congr_left' ?_
    simp [mem_datasets]
  · rintro results hresults
    cases hresults
    exact reports_perPartition fun symbol d => rateSanity_verdict
  · rintro results hresults
    cases hresults
    refine (Reports.flatMap fun dataset _ =>
      reports_perPartition fun symbol d => emptyDay_verdict).congr fun scope => ?_
    exact exists_congr fun dataset => and_iff_right (mem_datasets dataset)
  · rintro results hresults
    cases hresults
    exact reports_perPartition fun symbol d => opens_verdict
  · rintro results hresults
    cases hresults
    exact hasRemovals_reports
  · rintro results hresults
    cases hresults
    exact pairing_reports
  · rintro results hresults
    cases hresults
    exact windows_reports

end Checks

/-! ## The gate -/

/-- An entry for this check, if it names one, whose dates, if it has any, hold that of the scope. -/
structure AllowlistEntry.Covers (self : AllowlistEntry) (check : String) (scope : Scope) : Prop where
  dataset : self.dataset = scope.dataset.name
  symbol : self.symbol = scope.symbol
  check : ∀ named ∈ self.check, named = check
  dates : self.start = none ∧ self.last = none ∨ ∃ d, scope.date = some d ∧
    (∀ start ∈ self.start, start ≤ d.text) ∧ ∀ last ∈ self.last, d.text ≤ last

section Gate

variable {others : Others} {corpus : Corpus} {config : Config} {checks : Option (List String)}
  {allowlist : List AllowlistEntry} {report : Report}

theorem all_iff {α : Type} {p : α → Prop} [DecidablePred p] {found : Option α} :
    (found.all fun a => p a) = true ↔ ∀ a ∈ found, p a := by
  cases found with
  | none => simp
  | some a => simp

theorem covers_iff {entry : AllowlistEntry} {r : CheckResult} {check : String} {scope : Scope}
    (h : r.About check scope) : entry.covers r = true ↔ entry.Covers check scope := by
  obtain ⟨hcheck, hdataset, hsymbol, hdate⟩ := h
  have hdates : entry.inRange r.date = true ↔ entry.start = none ∧ entry.last = none ∨
      ∃ d, scope.date = some d ∧ (∀ start ∈ entry.start, start ≤ d.text) ∧
        ∀ last ∈ entry.last, d.text ≤ last := by
    rw [hdate]
    cases scope.date with
    | none => simp [AllowlistEntry.inRange]
    | some d =>
      simp only [AllowlistEntry.inRange, Option.map_some, Bool.and_eq_true, all_iff,
        Option.some.injEq, exists_eq_left']
      constructor
      · exact .inr
      · rintro (⟨hstart, hlast⟩ | hrange)
        · simp [hstart, hlast]
        · exact hrange
  unfold AllowlistEntry.covers
  rw [Bool.and_eq_true, Bool.and_eq_true, Bool.and_eq_true, decide_eq_true_eq, decide_eq_true_eq,
    all_iff, hdates, hdataset, hsymbol, hcheck, Option.some.injEq]
  constructor
  · rintro ⟨⟨⟨hdataset, hsymbol⟩, hcheck⟩, hdates⟩
    exact ⟨hdataset, hsymbol, hcheck, hdates⟩
  · rintro ⟨hdataset, hsymbol, hcheck, hdates⟩
    exact ⟨⟨⟨hdataset, hsymbol⟩, hcheck⟩, hdates⟩

theorem soften_failure {r : CheckResult} : (soften allowlist r).countsAsFailure = true ↔
    r.countsAsFailure = true ∧ ∀ entry ∈ allowlist, ¬ entry.covers r = true := by
  unfold soften
  split
  · rename_i h
    rw [Bool.and_eq_true, List.any_eq_true] at h
    obtain ⟨_, entry, hentry, hcovers⟩ := h
    simp only [CheckResult.countsAsFailure, Bool.not_true, Bool.and_false, Bool.false_eq_true,
      false_iff, not_and]
    exact fun _ hnone => hnone entry hentry hcovers
  · rename_i h
    rw [Bool.and_eq_true, List.any_eq_true] at h
    push Not at h
    exact ⟨fun hfailure => ⟨hfailure, h hfailure⟩, And.left⟩

/-- Every check has run to its end, and the report is clean if and only if an entry covers each
failure. -/
theorem validate_results (h : validate others corpus config checks allowlist = .ok report) :
    (∀ name ∈ checks.getD ((CHECKS others).map (·.1)),
      ∃ results, runCheck others corpus config name = .ok results) ∧
    (report.ok = true ↔ ∀ name ∈ checks.getD ((CHECKS others).map (·.1)), ∀ results,
      runCheck others corpus config name = .ok results → ∀ r ∈ results,
        r.countsAsFailure = true → ∃ e ∈ allowlist, e.covers r = true) := by
  unfold validate at h
  dsimp only at h
  split at h
  · cases h
  · obtain ⟨results, hresults, h⟩ := bind_ok.mp h
    cases h
    obtain ⟨hall, hmem⟩ := gather_ok hresults
    refine ⟨fun name hname => ?_, ?_⟩
    · obtain ⟨_, hsoftened⟩ := hall name hname
      obtain ⟨found, hfound, _⟩ := Lib.map_ok.mp hsoftened
      exact ⟨found, hfound⟩
    have hok : (Report.ok ⟨results⟩ = true) ↔ ∀ r ∈ results, ¬ r.countsAsFailure = true := by
      unfold Report.ok Report.failures
      rw [List.isEmpty_iff, List.filter_eq_nil_iff]
    rw [hok]
    constructor
    · intro hclean name hname found hfound r hr hfailure
      by_contra hnone
      push Not at hnone
      exact hclean (soften allowlist r) ((hmem _).mpr ⟨name, hname, found.map (soften allowlist),
        Lib.map_ok.mpr ⟨found, hfound, rfl⟩, List.mem_map_of_mem hr⟩)
        (soften_failure.mpr ⟨hfailure, hnone⟩)
    · intro hcovered r hr hfailure
      obtain ⟨name, hname, softened, hsoftened, hr⟩ := (hmem r).mp hr
      obtain ⟨found, hfound, rfl⟩ := Lib.map_ok.mp hsoftened
      obtain ⟨unsoftened, hfrom, rfl⟩ := List.mem_map.mp hr
      obtain ⟨hcounts, hnone⟩ := soften_failure.mp hfailure
      obtain ⟨e, he, hcovers⟩ := hcovered name hname found hfound unsoftened hfrom hcounts
      exact hnone e he hcovers

/-- The report of a run is clean if and only if the allowlist covers every defect that the modelled
checks are to find, and every failure of the other ones. -/
theorem validate_clean_iff (h : validate others corpus config checks allowlist = .ok report) :
    report.ok = true ↔
      (∀ name Bad, (name, Bad) ∈ SPECIFIED corpus config →
        name ∈ checks.getD ((CHECKS others).map (·.1)) →
        ∀ scope, Bad scope → ∃ e ∈ allowlist, e.Covers name scope) ∧
      ∀ name ∈ checks.getD ((CHECKS others).map (·.1)),
        name ∉ (SPECIFIED corpus config).map (·.1) → ∀ results,
          runCheck others corpus config name = .ok results → ∀ r ∈ results,
            r.countsAsFailure = true → ∃ e ∈ allowlist, e.covers r = true := by
  obtain ⟨hran, hclean⟩ := validate_results h
  rw [hclean]
  constructor
  · intro hcovered
    refine ⟨fun name Bad hspec hname scope hbad => ?_, fun name hname _ => hcovered name hname⟩
    obtain ⟨results, hresults⟩ := hran name hname
    obtain ⟨r, hr, hfailure, habout⟩ :=
      (specified_reports others hspec results hresults).complete scope hbad
    obtain ⟨e, he, hcovers⟩ := hcovered name hname results hresults r hr hfailure
    exact ⟨e, he, (covers_iff habout).mp hcovers⟩
  · rintro ⟨hspecified, hother⟩ name hname results hresults r hr hfailure
    by_cases hmodelled : name ∈ (SPECIFIED corpus config).map (·.1)
    · obtain ⟨⟨_, Bad⟩, hspec, rfl⟩ := List.mem_map.mp hmodelled
      obtain ⟨scope, hbad, habout⟩ :=
        (specified_reports others hspec results hresults).sound r hr hfailure
      obtain ⟨e, he, hcovers⟩ := hspecified _ Bad hspec hname scope hbad
      exact ⟨e, he, (covers_iff habout).mpr hcovers⟩
    · exact hother name hname hmodelled results hresults r hr hfailure

end Gate

/-- Two days of trades with one between them that is not stored. -/
def gapDates (dataset : Dataset) : List Date :=
  if dataset = .trades then
    [⟨FetchTrades.june2026, 1, by decide⟩, ⟨FetchTrades.june2026, 3, by decide⟩]
  else []

theorem gapDates_sorted (dataset : Dataset) (symbol : String) :
    (if symbol = "BTCUSDT" then gapDates dataset else []).Pairwise fun d d' => d.key < d'.key := by
  split
  · cases dataset with
    | trades => decide
    | funding => exact List.Pairwise.nil
    | book => exact List.Pairwise.nil
    | bookSnapshot => exact List.Pairwise.nil
  · exact List.Pairwise.nil

theorem gapDates_listed (dataset : Dataset) (symbol : String)
    (h : (if symbol = "BTCUSDT" then gapDates dataset else []) ≠ []) : symbol ∈ ["BTCUSDT"] := by
  split at h
  · simp [*]
  · exact absurd rfl h

def gapCorpus : Corpus where
  symbols _ := ["BTCUSDT"]
  dates dataset symbol := if symbol = "BTCUSDT" then gapDates dataset else []
  trades _ _ := [⟨1780272000000, 5, "BTCUSDT", .finite 101, .finite 2, .sell, "2026-06-01"⟩]
  funding _ _ := []
  book _ _ := []
  bookSnapshot _ _ := []
  sorted := gapDates_sorted
  listed := gapDates_listed

def quiet : Others :=
  let silent : CheckFn := fun _ _ => .ok []
  ⟨silent, silent, silent, silent, silent, silent, silent, fun _ => ""⟩

/-- The second of June is acknowledged. -/
def juneGap : AllowlistEntry where
  dataset := "trades"
  symbol := "BTCUSDT"
  reason := "venue downtime"
  acknowledged := "2026-08-12"
  start := some "2026-06-02"
  last := some "2026-06-02"

def juneSecond : Scope := ⟨.trades, "BTCUSDT", some ⟨FetchTrades.june2026, 2, by decide⟩⟩

theorem gap_clean : ∃ report, validate quiet gapCorpus {} none [juneGap] = .ok report ∧
    report.ok = true := by
  have hclean : (validate quiet gapCorpus {} none [juneGap]).toOption.any Report.ok = true := by
    decide +kernel
  cases hrun : validate quiet gapCorpus {} none [juneGap] with
  | error e =>
    rw [hrun] at hclean
    cases hclean
  | ok report =>
    rw [hrun] at hclean
    exact ⟨report, rfl, hclean⟩

theorem validate_clean_iff_gap : Missing gapCorpus {} juneSecond ∧
    ∀ scope, Missing gapCorpus {} scope → juneGap.Covers "date_coverage" scope := by
  obtain ⟨report, hrun, hclean⟩ := gap_clean
  refine ⟨⟨⟨FetchTrades.june2026, 1, by decide⟩, ⟨FetchTrades.june2026, 3, by decide⟩, _,
    ⟨by decide, by decide, by decide⟩, rfl, by decide, by decide, nofun, by decide⟩, ?_⟩
  intro scope hmissing
  obtain ⟨e, he, hcovers⟩ := ((validate_clean_iff hrun).mp hclean).1 "date_coverage" _ List.mem_cons_self
    (by decide) scope hmissing
  rwa [List.mem_singleton.mp he] at hcovers

end ValidateData
end Ingestion
end PerpCarry
