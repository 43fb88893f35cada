import PerpCarry.Strategy.Carry

/-!
# Strategy.RunConfig

The configuration of a walk-forward run: `fold_start` and `Config` of
`python/perpcarry/strategy/walk_forward.py`.

A `Config` carries the checks of its `__post_init__`; `Config.make` is the checking constructor. A
study window starts and ends at the beginning of a month.
-/

namespace PerpCarry
namespace Strategy

open Models (DAY_MS Prior)

/-! ## Months -/

/-- The day of the month of a day number, day 0 being 1970-01-01. The year is counted from March, so
that the leap day is its last. -/
def dayOfMonth (day : Int) : Int :=
  let shifted := day + 719468
  let dayOfEra := shifted % 146097
  let yearOfEra := (dayOfEra - dayOfEra / 1460 + dayOfEra / 36524 - dayOfEra / 146096) / 365
  let dayOfYear := dayOfEra - (365 * yearOfEra + yearOfEra / 4 - yearOfEra / 100)
  let month := (5 * dayOfYear + 2) / 153
  dayOfYear - (153 * month + 2) / 5 + 1

/-- `fold_start`: midnight of the first day of the month. -/
def foldStart (timeMs : Int) : Int :=
  let day := timeMs / DAY_MS
  (day - (dayOfMonth day - 1)) * DAY_MS

example : foldStart 1709251200000 = 1709251200000 := by decide
example : foldStart 1709251199999 = 1706745600000 := by decide

theorem one_le_dayOfMonth (day : Int) : 1 ≤ dayOfMonth day := by
  unfold dayOfMonth
  dsimp only
  omega

theorem foldStart_le (timeMs : Int) : foldStart timeMs ≤ timeMs := by
  unfold foldStart DAY_MS
  have := one_le_dayOfMonth (timeMs / 86400000)
  dsimp only
  omega

theorem foldStart_aligned (timeMs : Int) : foldStart timeMs % DAY_MS = 0 := by
  unfold foldStart
  exact Int.mul_emod_left ..

/-- `datetime` ends with the year 9999. -/
def CALENDAR_END_MS : Int := 253402300800000

/-! ## Configuration -/

inductive ExecutionMode where
  | inferred
  | book
  deriving DecidableEq

structure Config (K : Type) [Field K] [LinearOrder K] where
  symbol : String
  warmupStartMs : Int
  startMs : Int
  endMs : Int
  initialCapitalUsdt : K
  collateralFraction : K
  policy : Policy K
  executionMode : ExecutionMode
  seed : Int := 703
  draws : Int := 4096
  rollingDays : Int := 90
  minSettlements : Int := 30
  intervalHours : Int := 8
  prior : Prior K
  impactRollingDays : Int := 90
  decisionDelayMs : Int := 16000
  warmup_nonneg : 0 ≤ warmupStartMs
  seed_nonneg : 0 ≤ seed
  draws_two : 2 ≤ draws
  rolling_pos : 1 ≤ rollingDays
  impact_pos : 1 ≤ impactRollingDays
  min_three : 3 ≤ minSettlements
  interval_pos : 1 ≤ intervalHours
  capital_pos : 0 < initialCapitalUsdt
  collateral_pos : 0 < collateralFraction
  guard_lt_delay : SETTLEMENT_GUARD_MS + 1 ≤ decisionDelayMs
  symbol_known : symbol = "BTCUSDT" ∨ symbol = "SOLUSDT"
  warmup_lt_start : warmupStartMs < startMs
  start_lt_end : startMs < endMs
  in_calendar : endMs < CALENDAR_END_MS
  start_fold : startMs = foldStart startMs
  end_fold : endMs = foldStart endMs
  interval_le : intervalHours ≤ 24
  interval_divides : 24 % intervalHours = 0
  delay_lt : decisionDelayMs < intervalHours * HOUR_MS - SETTLEMENT_GUARD_MS
  warmup_aligned : warmupStartMs % (intervalHours * HOUR_MS) = 0
  collateral_le : collateralFraction ≤ 1

variable {K : Type} [Field K] [LinearOrder K]

/-- The settlement interval in milliseconds. -/
def Config.intervalMs (self : Config K) : Int := self.intervalHours * HOUR_MS

/-- `Config(...)`. -/
def Config.make (symbol : String) (warmupStartMs startMs endMs : Int)
    (initialCapitalUsdt collateralFraction : Decimal K) (policy : Policy K)
    (executionMode : ExecutionMode) (seed draws rollingDays minSettlements intervalHours : Int)
    (prior : Prior K) (impactRollingDays decisionDelayMs : Int) :
    Except ValueError (Config K) := do
  integer warmupStartMs "warmup_start_ms" 0
  integer startMs "start_ms" 0
  integer endMs "end_ms" 0
  integer seed "seed" 0
  integer draws "draws" 2
  integer rollingDays "rolling_days" 1
  integer impactRollingDays "impact_rolling_days" 1
  integer minSettlements "min_settlements" 3
  integer intervalHours "interval_hours" 1
  let capital ← decimalPositive initialCapitalUsdt "initial_capital_usdt"
  let collateral ← decimalPositive collateralFraction "collateral_fraction"
  integer decisionDelayMs "decision_delay_ms" (SETTLEMENT_GUARD_MS + 1)
  raiseIf (CALENDAR_END_MS ≤ startMs ∨ CALENDAR_END_MS ≤ endMs) "year 10000 is out of range"
  if h : (0 ≤ warmupStartMs ∧ 0 ≤ seed ∧ 2 ≤ draws ∧ 1 ≤ rollingDays ∧ 1 ≤ impactRollingDays ∧
        3 ≤ minSettlements ∧ 1 ≤ intervalHours) ∧
      (0 < capital ∧ 0 < collateral ∧ SETTLEMENT_GUARD_MS + 1 ≤ decisionDelayMs ∧
        endMs < CALENDAR_END_MS) ∧
      (symbol = "BTCUSDT" ∨ symbol = "SOLUSDT") ∧ warmupStartMs < startMs ∧ startMs < endMs ∧
      startMs = foldStart startMs ∧ endMs = foldStart endMs ∧ intervalHours ≤ 24 ∧
      24 % intervalHours = 0 ∧
      decisionDelayMs < intervalHours * HOUR_MS - SETTLEMENT_GUARD_MS ∧
      warmupStartMs % (intervalHours * HOUR_MS) = 0 ∧ collateral ≤ 1 then
    return {
      symbol, warmupStartMs, startMs, endMs, initialCapitalUsdt := capital,
      collateralFraction := collateral, policy, executionMode, seed, draws, rollingDays,
      minSettlements, intervalHours, prior, impactRollingDays, decisionDelayMs,
      warmup_nonneg := h.1.1, seed_nonneg := h.1.2.1, draws_two := h.1.2.2.1,
      rolling_pos := h.1.2.2.2.1, impact_pos := h.1.2.2.2.2.1, min_three := h.1.2.2.2.2.2.1,
      interval_pos := h.1.2.2.2.2.2.2, capital_pos := h.2.1.1, collateral_pos := h.2.1.2.1,
      guard_lt_delay := h.2.1.2.2.1, in_calendar := h.2.1.2.2.2, symbol_known := h.2.2.1,
      warmup_lt_start := h.2.2.2.1, start_lt_end := h.2.2.2.2.1, start_fold := h.2.2.2.2.2.1,
      end_fold := h.2.2.2.2.2.2.1, interval_le := h.2.2.2.2.2.2.2.1,
      interval_divides := h.2.2.2.2.2.2.2.2.1, delay_lt := h.2.2.2.2.2.2.2.2.2.1,
      warmup_aligned := h.2.2.2.2.2.2.2.2.2.2.1, collateral_le := h.2.2.2.2.2.2.2.2.2.2.2 }
  else .error ⟨"Invalid run scope, monthly boundaries, capital or execution policy"⟩

end Strategy
end PerpCarry
