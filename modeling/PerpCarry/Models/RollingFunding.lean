import Mathlib.Algebra.Order.Field.Basic
import Mathlib.Algebra.Order.Group.Unbundled.Abs
import PerpCarry.Core.Raised
import PerpCarry.Strategy.Decimal

/-!
# Models.RollingFunding

The observed funding history of one symbol: `python/perpcarry/models/rolling_funding.py`.

`update` admits one settlement, `selection` is the window a forecast is trained on. The posterior
and the drawn paths are numerical; they come in as `Paths`, a function of the window.

* `update_rows`, `selection_rows`: no row comes from anywhere but the accepted updates.
* `predict_ok`: a forecast says which rows it was trained on.
-/

namespace PerpCarry
namespace Models

open Strategy

def DAY_MS : Int := 86400000
def HOUR_MS : Int := 3600000
def JITTER_MS : Int := 5000

/-- The conjugate prior of the AR(1) model; a symmetric 2x2 matrix is definite when its leading
minors are positive. -/
structure Prior (K : Type) [Field K] [LinearOrder K] where
  mean : K × K
  precision : (K × K) × (K × K)
  shape : K
  scale : K
  symmetric : precision.1.2 = precision.2.1
  definite : 0 < precision.1.1 ∧
    0 < precision.1.1 * precision.2.2 - precision.1.2 * precision.2.1
  shape_pos : 0 < shape
  scale_pos : 0 < scale

/-- A row of the history. -/
structure Observation (K : Type) where
  timeMs : Int
  rate : K
  intervalHours : Int
  deriving DecidableEq

structure CumulativeFundingForecast (K : Type) where
  samples : List K
  horizonSettlements : Int
  intervalHours : Int
  asOf : Int
  lastObservationTime : Int
  trainingFirstTime : Int
  trainingSettlements : Int
  seed : Int
  deriving DecidableEq

variable {K : Type} [Field K] [LinearOrder K]

structure RollingFundingModel (K : Type) [Field K] [LinearOrder K] where
  rollingDays : Int
  minSettlements : Int
  prior : Prior K
  history : List (Observation K) := []
  cadenceResets : Nat := 0
  rolling_pos : 1 ≤ rollingDays
  min_three : 3 ≤ minSettlements

/-- The simulated settlement sums, in fractions: posterior of the rates, then `draws` paths of
`horizon` settlements from the last rate. -/
abbrev Paths (K : Type) [Field K] [LinearOrder K] :=
  (rates : List K) → (intervalHours : Int) → Prior K → (horizon draws seed : Int) →
    Except Raised (List K)

/-- `_integer`. -/
def integer (value : Int) (name : String) (minimum : Int) : Except Raised Unit :=
  raiseWhen (value < minimum) .fundingHistoryError
    (name ++ " must be an integer >= " ++ toString minimum)

namespace RollingFundingModel

/-- The checks of `update` against the last row. -/
def follows (self : RollingFundingModel K) (timestamp hours : Int) : Except Raised Unit :=
  match self.history.getLast? with
  | none => .ok ()
  | some previous => do
    raiseWhen (timestamp ≤ previous.timeMs) .fundingHistoryError
      "funding times must be strictly increasing"
    raiseWhen (JITTER_MS < |timestamp - previous.timeMs - hours * HOUR_MS|) .fundingHistoryError
      "missing or irregular funding settlement"

/-- A row of another cadence starts the history anew. -/
def resets (self : RollingFundingModel K) (hours : Int) : Bool :=
  match self.history.getLast? with
  | none => false
  | some previous => hours ≠ previous.intervalHours

/-- The bound of a rate is the double 0.05. -/
def update (self : RollingFundingModel K) (fundingTime : Int) (fundingRate : K)
    (intervalHours : Int) : Except Raised (RollingFundingModel K) := do
  integer fundingTime "funding_time" 0
  integer intervalHours "interval_hours" 1
  raiseWhen (24 < intervalHours ∨ (3602879701896397 : Nat) / (2 ^ 56 : Nat) < |fundingRate|)
    .fundingHistoryError
    "invalid cadence or funding fraction outside sanity bound"
  self.follows fundingTime intervalHours
  let kept := if self.resets intervalHours then [] else self.history
  let history := kept ++ [⟨fundingTime, fundingRate, intervalHours⟩]
  let cutoff := fundingTime - self.rollingDays * DAY_MS
  return { self with
    history := history.dropWhile fun row => row.timeMs < cutoff
    cadenceResets := self.cadenceResets + if self.resets intervalHours then 1 else 0 }

/-- `_selection`, of an explicit `as_of`: the rows not older than the window. -/
def selection (self : RollingFundingModel K) (asOf : Int) :
    Except Raised { rows : List (Observation K) // rows ≠ [] } :=
  match self.history.getLast? with
  | none => .error ⟨.fundingModelUnavailable, "no observed funding history"⟩
  | some latest => do
    integer asOf "as_of" 0
    raiseWhen (asOf < latest.timeMs) .fundingHistoryError
      "as_of precedes an already admitted observation"
    raiseWhen (latest.intervalHours * HOUR_MS + JITTER_MS < asOf - latest.timeMs)
      .fundingModelUnavailable "stale funding history"
    let cutoff := asOf - self.rollingDays * DAY_MS
    let selected := self.history.filter fun row => cutoff ≤ row.timeMs
    if h : selected.length < self.minSettlements then
      .error ⟨.fundingModelUnavailable, "insufficient current-cadence rolling history"⟩
    else
      .ok ⟨selected, by
        intro hempty
        rw [hempty] at h
        have := self.min_three
        simp at h
        omega⟩

def predictCumulativeFunding (self : RollingFundingModel K) (paths : Paths K)
    (horizon asOf draws seed : Int) : Except Raised (CumulativeFundingForecast K) := do
  integer horizon "horizon" 1
  integer draws "draws" 2
  integer seed "seed" 0
  let selected ← self.selection asOf
  let first := selected.val.head selected.property
  let last := selected.val.getLast selected.property
  let samples ← paths (selected.val.map (·.rate)) last.intervalHours self.prior horizon draws seed
  return {
    samples
    horizonSettlements := horizon
    intervalHours := last.intervalHours
    asOf
    lastObservationTime := last.timeMs
    trainingFirstTime := first.timeMs
    trainingSettlements := selected.val.length
    seed }

/-- `selected[0]`. -/
def firstOf (selected : { rows : List (Observation K) // rows ≠ [] }) : Observation K :=
  selected.val.head selected.property

/-- `selected[-1]`. -/
def lastOf (selected : { rows : List (Observation K) // rows ≠ [] }) : Observation K :=
  selected.val.getLast selected.property

variable {self self' : RollingFundingModel K}

/-- An admitted row joins the rows that stay. -/
theorem update_rows {time hours : Int} {rate : K} (h : self.update time rate hours = .ok self') :
    ∀ row ∈ self'.history, row ∈ self.history ∨ row = ⟨time, rate, hours⟩ := by
  unfold update at h
  simp only [bind_ok, pure_ok] at h
  obtain ⟨_, _, _, _, _, _, _, _, rfl⟩ := h
  intro row hrow
  have hmem := (List.dropWhile_sublist _).subset hrow
  rcases List.mem_append.mp hmem with hkept | hnew
  · left
    split at hkept
    · cases hkept
    · exact hkept
  · exact .inr (List.mem_singleton.mp hnew)

theorem selection_rows {asOf : Int} {rows : { rows : List (Observation K) // rows ≠ [] }}
    (h : self.selection asOf = .ok rows) : ∀ row ∈ rows.val, row ∈ self.history := by
  unfold selection at h
  split at h
  · cases h
  · simp only [bind_ok] at h
    obtain ⟨_, _, _, _, _, _, h⟩ := h
    split at h
    · cases h
    · cases h
      intro row hrow
      exact (List.mem_filter.mp hrow).1

/-- A forecast is drawn from rows of the history, and says which were the first and the last. -/
theorem predict_ok {paths : Paths K} {horizon asOf draws seed : Int}
    {forecast : CumulativeFundingForecast K}
    (h : self.predictCumulativeFunding paths horizon asOf draws seed = .ok forecast) :
    ∃ (rows : List (Observation K)) (first last : Observation K),
      (∀ row ∈ rows, row ∈ self.history) ∧ first ∈ rows ∧ last ∈ rows ∧
      paths (rows.map (·.rate)) last.intervalHours self.prior horizon draws seed =
        .ok forecast.samples ∧
      forecast = ⟨forecast.samples, horizon, last.intervalHours, asOf, last.timeMs, first.timeMs,
        rows.length, seed⟩ := by
  unfold predictCumulativeFunding at h
  simp only [bind_ok, pure_ok] at h
  obtain ⟨_, _, _, _, _, _, rows, hrows, samples, hsamples, rfl⟩ := h
  exact ⟨rows.val, _, _, selection_rows hrows, List.head_mem _, List.getLast_mem _, hsamples, rfl⟩

end RollingFundingModel

end Models
end PerpCarry
