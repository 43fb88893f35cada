import PerpCarry.Strategy.RunConfig
import PerpCarry.Strategy.Sizing

/-!
# Strategy.WalkForward

The walk-forward run: `python/perpcarry/strategy/walk_forward.py`.

`Runner.process` takes one event, in the order of the source: the checks of the event clock, then
settlement or decision, then the record. What the run rests on and does not compute itself (the
executor, the square root, the digests, the drawn funding paths) is in `Backtest`; the executor has
a state of its own, so that any implementation of `fills` is one.

Each part of `process` is a function of the runner, with the same words as the method it models.
The amounts that are booked, tested or recorded are rounded as in the two contexts, and the numbers
that are compared with floats or handed to the model are turned into floats. What a decision is
computed from (the charges, the cap, the costs, the lots) is read exactly.
-/

namespace PerpCarry
namespace Strategy

open Arithmetic (inRun toFloat)
open Models (DAY_MS RollingFundingModel Paths)

variable {K : Type} [Field K] [LinearOrder K]

/-! ## Events and records -/

structure FundingEvent (K : Type) where
  eventId : String
  timeMs : Int
  rate : Decimal K
  intervalHours : Int
  markPrice : Option (Decimal K)

structure Opportunity (K : Type) [Field K] [LinearOrder K] where
  foldStartMs : Int
  curve : ImpactCurve K
  approval : Option FundingApproval
  market : SizingInputs K
  perpHalfSpreadBps : K
  spotExecutionBps : K
  financingFraction : K
  explicit : (ExecutionCharges.mk perpHalfSpreadBps perpHalfSpreadBps 0 0 spotExecutionBps
    spotExecutionBps financingFraction).check = .ok ()

structure MarketEvent (K : Type) [Field K] [LinearOrder K] where
  eventId : String
  timeMs : Int
  spotMid : Decimal K
  perpMid : Decimal K
  marks : Marks K
  opportunity : Option (Opportunity K)
  decide : Bool
  financingUsdt : Decimal K

inductive Event (K : Type) [Field K] [LinearOrder K] where
  | funding (event : FundingEvent K)
  | market (event : MarketEvent K)

namespace Event

def eventId : Event K → String
  | .funding e => e.eventId
  | .market e => e.eventId

def timeMs : Event K → Int
  | .funding e => e.timeMs
  | .market e => e.timeMs

end Event

inductive EventType where
  | funding
  | market
  deriving DecidableEq

/-- A scored event. `forecast` is the distribution whose summary the source writes. -/
structure Record (K : Type) where
  eventId : String
  timeMs : Int
  foldStartMs : Int
  eventType : EventType
  decision : Option (Decision K)
  valuation : Option (Valuation K)
  plannedSettlements : Option Int
  settlementsHeld : Int
  quantityBase : K
  advFraction : Option K
  notionalUsdt : Option K
  impactSha256 : Option String
  fundingApprovalSha256 : Option String
  forecast : Option (FundingForecast K)
  executionMode : ExecutionMode
  cashUsdt : K
  fundingUsdt : K
  evidenceAdmitted : Bool
  sizing : Option (SizingResult K)

/-! ## The runner -/

structure Executor (K σ : Type) [Field K] [LinearOrder K] where
  mode : ExecutionMode
  fills : σ → MarketEvent K → (quantity : K) → (opening : Bool) →
    Except Raised (List (Fill K) × σ)

/-- A run's configuration, and what it calls: `seedOf` is the seed read from the digest of seed,
symbol and time, `modelDigest` that of the model's specification. -/
structure Backtest (K σ : Type) [Field K] [LinearOrder K] where
  config : Config K
  fees : FeeSchedule K
  executor : Executor K σ
  sqrt : K → K
  seedOf : Int → String → Int → Nat
  modelDigest : RollingFundingModel K → String
  paths : Paths K

structure Runner (K σ : Type) [Field K] [LinearOrder K] where
  model : RollingFundingModel K
  ledger : Ledger K
  position : Option (Position K) := none
  lastTime : Int
  nextObservationMs : Int
  ids : Finset String := ∅
  foldCurves : List (Int × String) := []
  nextDecisionMs : Int
  executor : σ

variable [Arithmetic K]

/-- Less cash and perp P&L than the reserve asked for. -/
def Ledger.Short (self : Ledger K) (mark fraction : K) : Prop :=
  inRun (self.cashUsdt + self.perp.unrealizedIn inRun mark) <
    inRun (inRun (inRun |self.perp.quantity| * mark) * fraction)

instance (self : Ledger K) (mark fraction : K) : Decidable (self.Short mark fraction) := by
  unfold Ledger.Short; infer_instance

variable {σ : Type}

namespace Backtest

/-- `CarryStrategy(config.symbol, config.policy)`. -/
def strategy (b : Backtest K σ) : CarryStrategy K where
  symbol := b.config.symbol
  policy := b.config.policy
  symbol_ne := by
    rcases b.config.symbol_known with h | h <;> rw [h] <;> decide

/-- `_Runner(config, fees, executor)`. -/
def start (b : Backtest K σ) (executor : σ) : Except Raised (Runner K σ) := do
  raiseWhen (b.executor.mode ≠ b.config.executionMode) .valueError
    "Execution mode does not match configured backend"
  let ledger ← raising (Ledger.start b.config.symbol (.finite b.config.initialCapitalUsdt)
    b.config.startMs b.fees)
  return {
    model := {
      rollingDays := b.config.rollingDays
      minSettlements := b.config.minSettlements
      prior := b.config.prior
      rolling_pos := b.config.rolling_pos
      min_three := b.config.min_three }
    ledger
    lastTime := b.config.warmupStartMs
    nextObservationMs := b.config.warmupStartMs
    nextDecisionMs := b.config.startMs + b.config.decisionDelayMs
    executor }

/-- The tests of `admit` on an opportunity. -/
def Unadmitted (b : Backtest K σ) (event : MarketEvent K) (o : Opportunity K) : Prop :=
  o.foldStartMs ≠ foldStart event.timeMs ∨ o.foldStartMs < o.curve.evidenceEndExclusiveMs ∨
    event.timeMs < o.curve.admittedAtMs ∨ o.curve.symbol ≠ b.config.symbol ∨
    (o.curve.kind = .synthetic ∧ b.config.policy.allowSyntheticCosts = false) ∨
    o.market.symbol ≠ b.config.symbol ∨ event.timeMs < o.market.observedAtMs ∨
    o.market.validUntilMs ≤ event.timeMs ∨
    o.market.advEndExclusiveMs ≠ event.timeMs / DAY_MS * DAY_MS ∨
    ¬ (o.market.metadataValidFromMs ≤ event.timeMs ∧
      event.timeMs < o.market.metadataValidUntilMs) ∨
    o.market.priceUsdt ≠ toFloat event.perpMid.value

instance (b : Backtest K σ) (event : MarketEvent K) (o : Opportunity K) :
    Decidable (b.Unadmitted event o) := by
  unfold Unadmitted; infer_instance

/-- `charges`. -/
def charges (b : Backtest K σ) (event : MarketEvent K) (o : Opportunity K) :
    Except Raised (ExecutionCharges K) := do
  let perpFee ← raising (b.fees.quote b.config.symbol .perp event.timeMs)
  let spotFee ← raising (b.fees.quote b.config.symbol .spot event.timeMs)
  let hedge := (toBps spotFee + o.spotExecutionBps) * (event.spotMid.value / event.perpMid.value)
  let charges : ExecutionCharges K := ⟨o.perpHalfSpreadBps, o.perpHalfSpreadBps, toBps perpFee,
    toBps perpFee, hedge, hedge, o.financingFraction⟩
  raising charges.check
  return charges

/-- What one quoted unit of the entry ties up at worst, and the notional the cash allows. -/
def cap (b : Backtest K σ) (event : MarketEvent K) (o : Opportunity K) (cashUsdt : K) :
    Except Raised K := do
  let spotFee ← raising (b.fees.quote b.config.symbol .spot event.timeMs)
  let perpFee ← raising (b.fees.quote b.config.symbol .perp event.timeMs)
  let spotMid := event.spotMid.value
  let perpMid := event.perpMid.value
  let perpMark := event.marks.perp.value
  let worstImpact :=
    ofBps (o.curve.sellCoefficientBps * b.sqrt o.curve.sizeMax + o.perpHalfSpreadBps)
  let perUnit := spotMid * (1 + ofBps o.spotExecutionBps) * (1 + spotFee) +
    perpMark * b.config.collateralFraction + max 0 (perpMark - perpMid) +
    perpMid * (worstImpact + perpFee)
  return max 0 cashUsdt / perUnit * perpMid

/-- The two fills a trade must consist of. -/
def Paired (b : Backtest K σ) (event : MarketEvent K) (quantity : K) (opening : Bool)
    (fills : List (Fill K)) : Prop :=
  fills.map (fun f => (f.market, f.quantity, f.timeMs, f.symbol, f.referenceMid)) = [
    (.spot, .finite (if opening then quantity else inRun (-quantity)), event.timeMs,
      b.config.symbol, event.spotMid),
    (.perp, .finite (if opening then inRun (-quantity) else quantity), event.timeMs,
      b.config.symbol, event.perpMid)]

instance (b : Backtest K σ) (event : MarketEvent K) (quantity : K) (opening : Bool)
    (fills : List (Fill K)) : Decidable (b.Paired event quantity opening fills) := by
  unfold Paired; infer_instance

end Backtest

namespace Runner

variable (b : Backtest K σ)

/-- `admit`: the opportunity, if it may be used now; the first curve admitted in a month stays. -/
def admitEvent (self : Runner K σ) (event : MarketEvent K) :
    Except Raised (Option (Opportunity K) × Runner K σ) :=
  match event.opportunity with
  | none => .ok (none, self)
  | some o =>
    if b.Unadmitted event o then .ok (none, self)
    else
      match self.foldCurves.lookup o.foldStartMs with
      | none => .ok (some o, { self with
          foldCurves := (o.foldStartMs, o.curve.artifactSha256) :: self.foldCurves })
      | some previous =>
        if previous ≠ o.curve.artifactSha256 then
          .error ⟨.valueError, "Impact artifact changed within a sealed monthly fold"⟩
        else .ok (some o, self)

/-- `reserve`. -/
def reserve (self : Runner K σ) (mark : K) : Except Raised Unit :=
  raiseWhen (self.ledger.Short mark b.config.collateralFraction) .executionUnavailable
    "Collateral reserve shortfall; liquidation is not simulated"

/-- `trade`: whether the two fills were booked. An opening trade that leaves the reserve short is
refused as a whole. -/
def trade (self : Runner K σ) (event : MarketEvent K) (quantity : K) (opening : Bool) :
    Except Raised (Bool × Runner K σ) := do
  let (admitted, self) ←
    (if b.config.executionMode = .inferred then self.admitEvent b event else .ok (none, self))
  raiseWhen (b.config.executionMode = .inferred ∧ admitted.isNone) .executionUnavailable
    "No admitted inferred exit execution"
  let (fills, executor) ← b.executor.fills self.executor event quantity opening
  raiseWhen (¬ b.Paired event quantity opening fills) .executionUnavailable
    "Executor must propose full paired fills at current time and reference mids"
  let proposed ← raising (Lib.run Ledger.fill self.ledger fills)
  if opening = true ∧ proposed.Short event.marks.perp.value b.config.collateralFraction then
    return (false, { self with executor })
  else return (true, { self with executor, ledger := proposed })

/-- The end of `enter`, a size having been found: so many lots, in the context of the run. -/
def takePosition (self : Runner K σ) (event : MarketEvent K) (result : SizingResult K) :
    Except Raised (Decision K × Runner K σ) := do
  let quantity := inRun result.quantityBase
  let (booked, self) ← self.trade b event quantity true
  if booked then
    let notional := toFloat (inRun (quantity * event.perpMid.value))
    let position ← raising (Position.make b.config.symbol notional event.timeMs
      b.config.policy.horizonSettlements 0 b.config.intervalHours)
    return (result.decision, { self with position := some position })
  else return (⟨.wait, "actual_fill_capital_unavailable", none, none⟩, self)

/-- The decision of `held`, from the position and what the ledger holds. -/
def continuation (self : Runner K σ) (event : MarketEvent K) (opportunity : Option (Opportunity K))
    (forecast : Option (FundingForecast K)) (held : Position K) : Except Raised (Decision K) := do
  let quantity := inRun (-self.ledger.perp.quantity)
  let notional := toFloat (inRun (quantity * event.perpMid.value))
  let position ← raising (held.withNotional notional)
  let estimate ←
    (match opportunity with
    | none => .ok none
    | some o =>
      if 0 < held.remaining then
        catching .impactModelError (do
          let charges ← b.charges event o
          o.curve.fromCurve b.sqrt event.timeMs o.market.validUntilMs position.notionalUsdt
            (toFloat (inRun (quantity / o.market.advBase))) held.remaining charges)
      else .ok none)
  raising (b.strategy.decide event.timeMs forecast estimate (opportunity.bind (·.approval))
    (some position))

/-- `held`. -/
def held (self : Runner K σ) (event : MarketEvent K) (opportunity : Option (Opportunity K))
    (forecast : Option (FundingForecast K)) (position : Position K) :
    Except Raised (Decision K × Runner K σ) := do
  let decision ← self.continuation b event opportunity forecast position
  if decision.action = .exit then
    let (_, self) ← self.trade b event (inRun (-self.ledger.perp.quantity)) false
    return (decision, { self with position := none })
  else return (decision, self)

/-- `funding.from_model`, for the settlements that remain. -/
def fromModel (self : Runner K σ) (nowMs remaining : Int) : Except Raised (FundingForecast K) := do
  let prediction ← self.model.predictCumulativeFunding b.paths remaining nowMs b.config.draws
    (b.seedOf b.config.seed b.config.symbol nowMs)
  raising (FundingForecast.make b.config.symbol prediction (b.modelDigest self.model))

/-- The settlements a decision is about. -/
def remaining (self : Runner K σ) : Int :=
  match self.position with
  | none => b.config.policy.horizonSettlements
  | some position => position.remaining

/-- The forecast of a decision; none without admitted history. -/
def forecast (self : Runner K σ) (nowMs : Int) : Except Raised (Option (FundingForecast K)) :=
  if 0 < self.remaining b then
    catching .fundingModelUnavailable (self.fromModel b nowMs (self.remaining b))
  else .ok none

/-- What a decision adds to the record. -/
structure Outcome (K : Type) where
  decision : Option (Decision K) := none
  forecast : Option (FundingForecast K) := none
  result : Option (SizingResult K) := none

/-- `record`, of an event without a decision or an opportunity. -/
def baseRecord (self : Runner K σ) (eventId : String) (timeMs : Int) (eventType : EventType) :
    Record K where
  eventId := eventId
  timeMs := timeMs
  foldStartMs := foldStart timeMs
  eventType := eventType
  decision := none
  valuation := none
  plannedSettlements := self.position.map (·.plannedSettlements)
  settlementsHeld := (self.position.map (·.settlementsHeld)).getD 0
  quantityBase := inRun (-self.ledger.perp.quantity)
  advFraction := none
  notionalUsdt := none
  impactSha256 := none
  fundingApprovalSha256 := none
  forecast := none
  executionMode := b.config.executionMode
  cashUsdt := self.ledger.cashUsdt
  fundingUsdt := self.ledger.fundingUsdt
  evidenceAdmitted := false
  sizing := none

/-- `record`, of a market event. -/
def marketRecord (self : Runner K σ) (event : MarketEvent K) (outcome : Outcome K)
    (valuation : Valuation K) : Except Raised (Record K × Runner K σ) := do
  let (admitted, self) ← self.admitEvent b event
  let quantity := inRun (-self.ledger.perp.quantity)
  return ({ self.baseRecord b event.eventId event.timeMs .market with
    decision := outcome.decision
    valuation := some valuation
    advFraction := event.opportunity.map fun o => toFloat (inRun (quantity / o.market.advBase))
    notionalUsdt := some (inRun (quantity * event.perpMid.value))
    impactSha256 := event.opportunity.map (·.curve.artifactSha256)
    fundingApprovalSha256 := event.opportunity.bind fun o => o.approval.map (·.evidenceSha256)
    forecast := outcome.forecast
    evidenceAdmitted := admitted.isSome
    sizing := outcome.result }, self)

/-- The runner that has seen the event. -/
def seen (self : Runner K σ) (event : Event K) : Runner K σ :=
  { self with lastTime := event.timeMs, ids := insert event.eventId self.ids }

/-- The head of `process`: the event clock. -/
def receive (self : Runner K σ) (event : Event K) : Except Raised (Runner K σ) := do
  raising (integer event.timeMs "event time" 0)
  raiseWhen (event.eventId = "" ∨ event.eventId ∈ self.ids ∨ event.timeMs < self.lastTime)
    .valueError "Duplicate/backwards event stream"
  raiseWhen (¬ (b.config.warmupStartMs ≤ event.timeMs ∧ event.timeMs < b.config.endMs)) .valueError
    "Event outside configured warmup/study window"
  raiseWhen (b.config.startMs ≤ event.timeMs ∧ self.nextDecisionMs < event.timeMs) .valueError
    "Missing scheduled decision before this event"
  return self.seen event

/-- A settlement inside the study window. -/
def settle (self : Runner K σ) (event : FundingEvent K) : Except Raised (Runner K σ) := do
  -- a missing mark is refused like one that is no number
  let markPrice := event.markPrice.getD .nan
  let ledger ← raising (self.ledger.settle
    ⟨event.eventId, b.config.symbol, event.timeMs, event.intervalHours, event.rate, markPrice⟩)
  let self := { self with ledger }
  self.reserve b markPrice.value
  return { self with position := self.position.map (·.settled) }

/-- `process` of a funding event. -/
def funding (self : Runner K σ) (event : FundingEvent K) :
    Except Raised (Option (Record K) × Runner K σ) := do
  let rate ← raising (decimal event.rate "funding rate")
  raiseWhen (event.intervalHours ≠ b.config.intervalHours ∨
      event.timeMs ≠ self.nextObservationMs) .valueError
    "Missing/misaligned funding or unsupported cadence change"
  let self ← (if b.config.startMs ≤ event.timeMs then self.settle b event else .ok self)
  let model ← self.model.update event.timeMs (toFloat rate) event.intervalHours
  let self := { self with
    model
    nextObservationMs := self.nextObservationMs + event.intervalHours * HOUR_MS }
  if event.timeMs < b.config.startMs then return (none, self)
  else return (some (self.baseRecord b event.eventId event.timeMs .funding), self)

/-- The tests of a market event before anything is booked. -/
def scope (self : Runner K σ) (event : MarketEvent K) : Except Raised Unit := do
  raiseWhen (event.timeMs < b.config.startMs) .valueError
    "Warmup accepts funding only; no warmup trading"
  let _ ← raising (decimalPositive event.spotMid "spot execution mid")
  let _ ← raising (decimalPositive event.perpMid "perp execution mid")
  let _ ← raising (decimal event.financingUsdt "realized financing")
  raiseWhen (event.marks.timeMs ≠ event.timeMs ∨ event.marks.symbol ≠ b.config.symbol) .valueError
    "Valuation marks or decision scope disagree"
  raiseWhen (event.decide = true ∧
      self.ledger.lastFundingMs.all fun last => event.timeMs - last ≤ SETTLEMENT_GUARD_MS)
    .valueError "Decision precedes conservative settlement availability boundary"
  raiseWhen ((event.decide = true ∧ event.timeMs ≠ self.nextDecisionMs) ∨
      (event.decide = false ∧ event.timeMs = self.nextDecisionMs)) .valueError
    "Market event does not match scheduled decision"

variable [FloorRing K]

/-- `enter`. -/
def enter (self : Runner K σ) (event : MarketEvent K) (opportunity : Option (Opportunity K))
    (forecast : Option (FundingForecast K)) :
    Except Raised (Decision K × Option (SizingResult K) × Runner K σ) :=
  match opportunity with
  | none => .ok (⟨.wait, "market_evidence_unavailable", none, none⟩, none, self)
  | some o => do
    let charges ← b.charges event o
    let cap ← b.cap event o self.ledger.cashUsdt
    if cap ≤ 0 then return (⟨.wait, "capital_unavailable", none, none⟩, none, self)
    else
      let market ← raising (o.market.withMaxNotional (min o.market.maxNotionalUsdt (toFloat cap)))
      let result ← sizePosition b.sqrt b.strategy
        { nowMs := event.timeMs, forecast, approval := o.approval, market, curve := o.curve,
          charges }
      if result.decision.action = .enter then
        let (decision, self) ← self.takePosition b event result
        return (decision, some result, self)
      else return (result.decision, some result, self)

/-- The scheduled decision of a market event. -/
def decision (self : Runner K σ) (event : MarketEvent K) :
    Except Raised (Outcome K × Runner K σ) := do
  let forecast ← self.forecast b event.timeMs
  let (opportunity, self) ← self.admitEvent b event
  match self.position with
  | none =>
    let (decision, result, self) ← self.enter b event opportunity forecast
    return ({ decision := some decision, forecast, result }, self)
  | some position =>
    let (decision, self) ← self.held b event opportunity forecast position
    return ({ decision := some decision, forecast }, self)

/-- `process` of a market event. -/
def market (self : Runner K σ) (event : MarketEvent K) :
    Except Raised (Record K × Runner K σ) := do
  self.scope b event
  let ledger ← raising (self.ledger.finance (event.eventId ++ ":finance") event.timeMs
    event.financingUsdt)
  let self := { self with ledger }
  let valuation ← raising (self.ledger.value event.marks)
  self.reserve b event.marks.perp.value
  raiseWhen (valuation.netEquityUsdt ≤ 0) .executionUnavailable
    "Nonpositive equity; liquidation is not simulated"
  let (outcome, self) ← (if event.decide then self.decision b event else .ok ({}, self))
  let valuation ← raising (self.ledger.value event.marks)
  self.reserve b event.marks.perp.value
  let self := { self with
    nextDecisionMs := self.nextDecisionMs + if event.decide then b.config.intervalMs else 0 }
  self.marketRecord b event outcome valuation

/-- `process`: the record of an event, none during the warm-up, and the runner after it. -/
def process (self : Runner K σ) (event : Event K) :
    Except Raised (Option (Record K) × Runner K σ) := do
  let self ← self.receive b event
  match event with
  | .funding e => self.funding b e
  | .market e =>
    let (record, self) ← self.market b e
    return (some record, self)

end Runner

/-! ## The run -/

namespace Backtest

variable (b : Backtest K σ) [FloorRing K]

/-- `iter_backtest` over the decoded rows of a stream: the records it yields, and the error that ended
it, if one did. A row that cannot be decoded raises where it is reached. -/
def iterate (r : Runner K σ) : List (Except Raised (Event K)) → List (Record K) × Option Raised
  | [] => ([], none)
  | .error e :: _ => ([], some e)
  | .ok event :: rows =>
    match r.process b event with
    | .error e => ([], some e)
    | .ok (record, r') =>
      let rest := iterate r' rows
      (record.toList ++ rest.1, rest.2)

def iterBacktest (executor : σ) (rows : List (Except Raised (Event K))) :
    List (Record K) × Option Raised :=
  match b.start executor with
  | .error e => ([], some e)
  | .ok r => b.iterate r rows

/-- A step of the run, with the records so far. -/
def step (s : Runner K σ × List (Record K)) (event : Event K) :
    Except Raised (Runner K σ × List (Record K)) :=
  (s.1.process b event).map fun r => (r.2, s.2 ++ r.1.toList)

/-- The runner after `events`, all of which were processed, and the records they yielded. -/
def Reaches (executor : σ) (events : List (Event K)) (r : Runner K σ)
    (records : List (Record K)) : Prop :=
  ∃ started, b.start executor = .ok started ∧
    Lib.run b.step (started, []) events = .ok (r, records)

/-- The run over `events`, or the error that stopped it. -/
def replay (executor : σ) (events : List (Event K)) :
    Except Raised (Runner K σ × List (Record K)) :=
  match b.start executor with
  | .error e => .error e
  | .ok started => Lib.run b.step (started, []) events

end Backtest

end Strategy
end PerpCarry
