import Mathlib.Algebra.Order.Ring.Rat
import Mathlib.Tactic.NormNum
import PerpCarry.Lib.Emitter
import PerpCarry.Models.FundingModel

/-!
# Models.FundingWalkForward

Forecasts before observations: `forecast_stream` of `python/perpcarry/models/funding_walk_forward.py`.

The generator is an `emit`: it looks at a row, may yield a record, and takes the row into its model
only when it is resumed. A frame may hold anything, so a cell keeps its Python type. What is yielded
comes with the frozen comparator at that moment, a local variable of the generator.

* `lookAt_view`: before a row is taken in, only its time and its symbol are read.
* `forecast_causal`: two frames with the same rows before a position, and there the same time and
  symbol, get the same records up to it.
-/

namespace PerpCarry
namespace Models

open Lib
open Strategy (bind_ok)

variable {K : Type} [Field K] [LinearOrder K]

/-- A cell of a frame, as Python reads it; `other` is of a type that is no number. -/
inductive Cell (K : Type) where
  | int (value : Int)
  | float (value : K)
  | bool (value : Bool)
  | infinity (negative : Bool)
  | nan
  | other (typeName : String)
  deriving DecidableEq

namespace Cell

/-- `_integer(cell, name, minimum)`. -/
def toInteger (cell : Cell K) (name : String) (minimum : Int) : Except Raised Int :=
  match cell with
  | .int value => do
    integer value name minimum
    return value
  | _ => .error ⟨.fundingHistoryError, name ++ " must be an integer >= " ++ toString minimum⟩

/-- `cell >= bound`. -/
def reaches (cell : Cell K) (bound : Int) : Except Raised Bool :=
  match cell with
  | .int value => .ok (bound ≤ value)
  | .float value => .ok ((bound : K) ≤ value)
  | .bool value => .ok (bound ≤ if value then 1 else 0)
  | .infinity negative => .ok !negative
  | .nan => .ok false
  | .other typeName => .error ⟨.typeError,
      "'>=' not supported between instances of '" ++ typeName ++ "' and 'int'"⟩

/-- The number that the checks of a rate look at. `hours` is checked first. -/
def toRate (cell : Cell K) (hours : Int) : Except Raised K :=
  match cell with
  | .int value => .ok value
  | .float value => .ok value
  | .bool value => .ok (if value then 1 else 0)
  | .infinity _ => invalid
  | .nan => invalid
  | .other _ =>
    if 24 < hours then invalid
    else .error ⟨.typeError, "ufunc 'isfinite' not supported for the input types"⟩
where
  invalid : Except Raised K :=
    .error ⟨.fundingHistoryError, "invalid cadence or funding fraction outside sanity bound"⟩

end Cell

/-- A symbol column's cell. -/
inductive Label where
  | text (value : String)
  | missing
  | nan
  deriving DecidableEq

/-- `left != right`. -/
def Label.differs (left right : Label) : Bool :=
  left = .nan || right = .nan || left ≠ right

namespace RollingFundingModel

/-- `update`, of cells. -/
def updateCells (self : RollingFundingModel K) (fundingTime fundingRate intervalHours : Cell K) :
    Except Raised (RollingFundingModel K) := do
  let timestamp ← fundingTime.toInteger "funding_time" 0
  let hours ← intervalHours.toInteger "interval_hours" 1
  let rate ← fundingRate.toRate hours
  self.update timestamp rate hours

/-- `_selection`, of a cell. -/
def selectionAt (self : RollingFundingModel K) (asOf : Cell K) :
    Except Raised (Int × { rows : List (Observation K) // rows ≠ [] }) :=
  if self.history.isEmpty then .error ⟨.fundingModelUnavailable, "no observed funding history"⟩
  else do
    let decision ← asOf.toInteger "as_of" 0
    let selected ← self.selection decision
    return (decision, selected)

def posterior (self : RollingFundingModel K) (asOf : Cell K) : Except Raised (Posterior K) := do
  let (_, selected) ← self.selectionAt asOf
  fit (selected.val.map (·.rate)) (lastOf selected).intervalHours self.prior

end RollingFundingModel

structure TrainingSummary (K : Type) where
  asOf : Int
  trainingFirstTime : Int
  lastObservationTime : Int
  trainingSettlements : Int
  intervalHours : Int
  cadenceResets : Nat
  lastFundingRate : K
  deriving DecidableEq

def RollingFundingModel.trainingSummary (self : RollingFundingModel K) (asOf : Cell K) :
    Except Raised (TrainingSummary K) := do
  let (decision, selected) ← self.selectionAt asOf
  return {
    asOf := decision
    trainingFirstTime := (firstOf selected).timeMs
    lastObservationTime := (lastOf selected).timeMs
    trainingSettlements := selected.val.length
    intervalHours := (lastOf selected).intervalHours
    cadenceResets := self.cadenceResets
    lastFundingRate := (lastOf selected).rate }

structure CumulativeSummary (K : Type) where
  horizonSettlements : Int
  intervalHours : Int
  asOf : Int
  lastObservationTime : Int
  trainingFirstTime : Int
  trainingSettlements : Int
  seed : Int
  draws : Nat
  meanFraction : K
  medianFraction : K
  interval95Fraction : K × K
  positiveProbability : K
  positiveProbabilityMcStandardError : K
  scope : String :=
    "fixed-notional settlement sum; excludes price P&L, costs and compounding"
  deriving DecidableEq

namespace CumulativeFundingForecast

def probabilityAbove (self : CumulativeFundingForecast K) (fraction : K) : K :=
  (self.samples.countP fun sample => fraction < sample : Nat) / self.samples.length

def summary (self : CumulativeFundingForecast K) (numerics : Numerics K) : CumulativeSummary K :=
  let probability := self.probabilityAbove 0
  { horizonSettlements := self.horizonSettlements
    intervalHours := self.intervalHours
    asOf := self.asOf
    lastObservationTime := self.lastObservationTime
    trainingFirstTime := self.trainingFirstTime
    trainingSettlements := self.trainingSettlements
    seed := self.seed
    draws := self.samples.length
    meanFraction := self.samples.sum / self.samples.length
    medianFraction := numerics.median self.samples
    interval95Fraction :=
      (numerics.quantile self.samples (0.025 : ℚ), numerics.quantile self.samples (0.975 : ℚ))
    positiveProbability := probability
    positiveProbabilityMcStandardError :=
      numerics.sqrt (probability * (1 - probability) / self.samples.length) }

end CumulativeFundingForecast

namespace FundingWalkForward

structure Config where
  rollingDays : Int := 90
  minSettlements : Int := 30
  horizons : List Int := [3, 21]
  draws : Int := 4096
  seed : Int := 603
  rolling_pos : 1 ≤ rollingDays
  min_three : 3 ≤ minSettlements
  draws_two : 2 ≤ draws
  seed_nonneg : 0 ≤ seed
  horizons_pos : ∀ h ∈ horizons, 1 ≤ h
  horizons_nodup : horizons.Nodup

/-- `utc_ms`, of a day counted from the epoch. -/
def utcMs (day : Int) : Int := day * DAY_MS

/-- The columns of a funding frame that the stream reads. -/
structure Row (K : Type) where
  fundingTime : Cell K
  symbol : Label
  fundingRate : Cell K
  fundingIntervalHours : Cell K
  deriving DecidableEq

structure OneStep (K : Type) where
  df : K
  locationFraction : K
  scaleFraction : K
  deriving DecidableEq

/-- What a record holds when there is a forecast. -/
structure Forecast (K : Type) where
  training : TrainingSummary K
  posterior : PosteriorSummary K
  oneStep : OneStep K
  frozenOneStep : OneStep K
  cumulative : List (Int × CumulativeSummary K)
  deriving DecidableEq

inductive Status (K : Type) where
  | forecast (body : Forecast K)
  | unavailable (reason : String)
  deriving DecidableEq

structure Record (K : Type) where
  fundingTime : Cell K
  status : Status K
  deriving DecidableEq

/-- A record, and the frozen posterior when it is yielded. -/
structure Yielded (K : Type) where
  record : Record K
  frozen : Option (Posterior K)
  deriving DecidableEq

/-- The local variables of the generator. -/
structure State (K : Type) [Field K] [LinearOrder K] where
  model : RollingFundingModel K
  frozen : Option (Posterior K) := none
  symbol : Label := .missing

def oneStep (parameters : K × K × K) : OneStep K :=
  ⟨parameters.1, parameters.2.1, parameters.2.2⟩

/-- The frozen posterior is replaced when the cadence has changed. -/
def comparator (frozen : Option (Posterior K)) (posterior : Posterior K) : Posterior K :=
  match frozen with
  | none => posterior
  | some p => if p.intervalHours ≠ posterior.intervalHours then posterior else p

section Stream

variable (numerics : Numerics K) (config : Config)

/-- The body of the `try`. The comparator is replaced before the paths are drawn, so that it stays
replaced when these are unavailable. -/
def forecast (s : State K) (timestamp : Cell K) :
    Except Raised (Forecast K) × Option (Posterior K) :=
  let trained : Except Raised (Posterior K × TrainingSummary K) := do
    let posterior ← s.model.posterior timestamp
    let training ← s.model.trainingSummary timestamp
    return (posterior, training)
  match trained with
  | .error e => (.error e, s.frozen)
  | .ok (posterior, training) =>
    let frozen := comparator s.frozen posterior
    let body : Except Raised (Forecast K) := do
      let cumulative ← config.horizons.mapM fun h => do
        let f ← s.model.predictCumulativeFunding numerics.paths h training.asOf config.draws
          config.seed
        return (h, f.summary numerics)
      return {
        training
        posterior := posterior.summary numerics
        oneStep := oneStep (posterior.predict numerics training.lastFundingRate)
        frozenOneStep := oneStep (frozen.predict numerics training.lastFundingRate)
        cumulative }
    (body, some frozen)

/-- A row up to the `yield`. -/
def lookAt (start finish : Int) (s : State K) (row : Row K) :
    Look Raised (Yielded K) (State K) :=
  match row.fundingTime.reaches finish with
  | .error e => .fail e
  | .ok true => .stop
  | .ok false =>
    let symbol := if s.symbol = .missing then row.symbol else s.symbol
    if row.symbol.differs symbol then
      .fail ⟨.valueError, "one symbol per funding forecast stream"⟩
    else
      match row.fundingTime.reaches start with
      | .error e => .fail e
      | .ok false => .go none { s with symbol }
      | .ok true =>
        let (body, frozen) := forecast numerics config s row.fundingTime
        match body with
        | .ok body =>
          .go (some ⟨⟨row.fundingTime, .forecast body⟩, frozen⟩) { s with symbol, frozen }
        | .error e =>
          if e.kind = .fundingModelUnavailable then
            .go (some ⟨⟨row.fundingTime, .unavailable e.message⟩, frozen⟩) { s with symbol, frozen }
          else .fail e

/-- After the `yield`, the row is observed. -/
def observe (s : State K) (row : Row K) : Except Raised (State K) := do
  let model ← s.model.updateCells row.fundingTime row.fundingRate row.fundingIntervalHours
  return { s with model }

/-- What `forecast_stream` yields, with the position of the row it is for, and how it ends. -/
def forecastStream (frame : List (Row K)) (studyStart studyEnd : Int) (prior : Prior K) :
    List (Nat × Yielded K) × Except Raised Unit :=
  if utcMs studyEnd ≤ utcMs studyStart then
    ([], .error ⟨.valueError, "invalid study boundaries"⟩)
  else
    emit (lookAt numerics config (utcMs studyStart) (utcMs studyEnd)) observe
      { model := {
          rollingDays := config.rollingDays
          minSettlements := config.minSettlements
          prior
          rolling_pos := config.rolling_pos
          min_three := config.min_three } }
      0 frame

end Stream

theorem lookAt_view (numerics : Numerics K) (config : Config) (start finish : Int) (s : State K)
    (x y : Row K) (h : (x.fundingTime, x.symbol) = (y.fundingTime, y.symbol)) :
    lookAt numerics config start finish s x = lookAt numerics config start finish s y := by
  obtain ⟨htime, hsymbol⟩ := Prod.mk.inj h
  unfold lookAt
  rw [htime, hsymbol]

theorem forecast_causal (numerics : Numerics K) (config : Config) (prior : Prior K)
    (studyStart studyEnd : Int) {a b : List (Row K)} {k : Nat} {x y : Row K}
    (hpast : a.take k = b.take k) (hx : a[k]? = some x) (hy : b[k]? = some y)
    (htime : x.fundingTime = y.fundingTime) (hsymbol : x.symbol = y.symbol) :
    ∃ shared later later',
      (forecastStream numerics config a studyStart studyEnd prior).1 = shared ++ later ∧
      (forecastStream numerics config b studyStart studyEnd prior).1 = shared ++ later' ∧
      (∀ r ∈ shared, r.1 ≤ k) ∧ (∀ r ∈ later, k < r.1) ∧ ∀ r ∈ later', k < r.1 := by
  unfold forecastStream
  split
  · exact ⟨[], [], [], rfl, rfl, by simp, by simp, by simp⟩
  · exact (emit_causal_at (lookAt_view numerics config (utcMs studyStart) (utcMs studyEnd))
      hpast hx hy (Prod.ext htime hsymbol)).shared

/-! ## A frame with a poisoned row -/

def flatNumerics : Numerics ℚ where
  sqrt := fun x => x
  median := fun samples => samples.headD 0
  quantile := fun samples _ => samples.headD 0
  tPpf := fun _ _ => 0
  tCdf := fun x _ _ _ => x
  invgammaPpf := fun _ _ scale => scale
  paths := fun _ _ _ _ draws _ => .ok (List.replicate draws.toNat (1 / 1000))

theorem flatHorizons : ∀ h ∈ [6], (1 : Int) ≤ h := by simp

def flatConfig : Config where
  rollingDays := 7
  minSettlements := 5
  horizons := [6]
  draws := 64
  seed := 9
  rolling_pos := by norm_num
  min_three := by norm_num
  draws_two := by norm_num
  seed_nonneg := by norm_num
  horizons_pos := flatHorizons
  horizons_nodup := by simp

def flatPrior : Prior ℚ where
  mean := (0, 0)
  precision := ((5, 0), (0, 5))
  shape := 7
  scale := 9
  symmetric := rfl
  definite := by norm_num
  shape_pos := by norm_num
  scale_pos := by norm_num

def settlement (time : Int) (rate : Cell ℚ) : Row ℚ :=
  ⟨.int time, .text "BTCUSDT", rate, .int 8⟩

/-- Five settlements, and a sixth with any rate. -/
def settlements (rate : Cell ℚ) : List (Row ℚ) := [
  settlement 0 (.float 0), settlement 28800000 (.float (1 / 1000)), settlement 57600000 (.float 0),
  settlement 86400000 (.float (1 / 1000)), settlement 115200000 (.float 0),
  settlement 144000000 rate]

theorem forecast_causal_poisoned :
    ∃ shared later later',
      (forecastStream flatNumerics flatConfig (settlements (.float 0)) 0 2 flatPrior).1 =
        shared ++ later ∧
      (forecastStream flatNumerics flatConfig (settlements .nan) 0 2 flatPrior).1 =
        shared ++ later' ∧
      (∀ r ∈ shared, r.1 ≤ 5) ∧ (∀ r ∈ later, 5 < r.1) ∧ ∀ r ∈ later', 5 < r.1 :=
  forecast_causal flatNumerics flatConfig flatPrior 0 2 rfl rfl rfl rfl rfl

def Status.isForecast : Status ℚ → Bool
  | .forecast _ => true
  | .unavailable _ => false

example : (forecastStream flatNumerics flatConfig (settlements .nan) 0 2 flatPrior).1.map
    (fun r => (r.1, r.2.record.status.isForecast)) =
      [(0, false), (1, false), (2, false), (3, false), (4, false), (5, true)] := by
  decide +kernel

end FundingWalkForward

end Models
end PerpCarry
