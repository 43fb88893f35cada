import Mathlib.Analysis.Real.Sqrt
import Mathlib.Tactic.Ring
import PerpCarry.Strategy.Evidence

/-!
# Strategy.InferredExecutor

Fills at inferred prices: `InferredExecutor` of `python/perpcarry/strategy/execution.py`.

The perp leg trades at its mid moved by the impact of the curve and half the spread, the spot leg at
its mid moved by the quoted spot cost; an opening trade buys spot and sells perp.

* `inferred_trade`: what a booked trade leaves in the ledger.
* `RootLike.fraction_le`: the impact of a supported quantity is at most the one at the end of the
  support.
-/

namespace PerpCarry
namespace Strategy

variable {K : Type} [Field K] [LinearOrder K]

def Market.name : Market → String
  | .spot => "spot"
  | .perp => "perp"

/-- `_fill`. The runner has tested that both mids are finite. -/
def inferredFill (event : MarketEvent K) (market : Market) (quantity price : K) : Fill K where
  eventId := event.eventId ++ ":" ++ market.name
  symbol := event.marks.symbol
  timeMs := event.timeMs
  market := market
  quantity := .finite quantity
  price := .finite price
  referenceMid := if market = .spot then event.spotMid else event.perpMid

/-- The curve or the market data are not for this quantity at this time. -/
def Unsupported (event : MarketEvent K) (o : Opportunity K) (quantity : K) : Prop :=
  o.curve.symbol ≠ event.marks.symbol ∨ event.timeMs < o.curve.admittedAtMs ∨
    event.timeMs < o.curve.evidenceEndExclusiveMs ∨ event.timeMs < o.market.observedAtMs ∨
    o.market.validUntilMs ≤ event.timeMs ∨
    ¬ (o.curve.sizeMin ≤ quantity / o.market.advBase ∧
      quantity / o.market.advBase ≤ o.curve.sizeMax) ∨
    o.market.validatedQuantityBase < quantity

instance (event : MarketEvent K) (o : Opportunity K) (quantity : K) :
    Decidable (Unsupported event o quantity) := by
  unfold Unsupported; infer_instance

def direction {K : Type} [Field K] (opening : Bool) : K := if opening then 1 else -1

theorem direction_sq {K : Type} [Field K] (opening : Bool) :
    (direction opening : K) * direction opening = 1 := by
  cases opening with
  | true => simp [direction]
  | false => simp [direction]

def Opportunity.coefficientBps (o : Opportunity K) (opening : Bool) : K :=
  if opening then o.curve.sellCoefficientBps else o.curve.buyCoefficientBps

def Opportunity.perpFraction (sqrt : K → K) (o : Opportunity K) (quantity : K) (opening : Bool) :
    K :=
  ofBps (o.coefficientBps opening * sqrt (quantity / o.market.advBase)) +
    ofBps o.perpHalfSpreadBps

def Opportunity.spotFraction (o : Opportunity K) : K := ofBps o.spotExecutionBps

def Opportunity.spotPrice (o : Opportunity K) (event : MarketEvent K) (opening : Bool) : K :=
  event.spotMid.value * (1 + direction opening * o.spotFraction)

def Opportunity.perpPrice (sqrt : K → K) (o : Opportunity K) (event : MarketEvent K)
    (quantity : K) (opening : Bool) : K :=
  event.perpMid.value * (1 - direction opening * o.perpFraction sqrt quantity opening)

/-- `InferredExecutor.fills`. -/
def inferredFills (sqrt : K → K) (event : MarketEvent K) (quantity : K) (opening : Bool) :
    Except Raised (List (Fill K)) :=
  match event.opportunity with
  | none => .error ⟨.executionUnavailable, "Missing impact inputs for inferred execution"⟩
  | some o => do
    raiseWhen (Unsupported event o quantity) .executionUnavailable
      "Unsupported quantity or unavailable inferred execution inputs"
    return [
      inferredFill event .spot (direction opening * quantity) (o.spotPrice event opening),
      inferredFill event .perp (-direction opening * quantity)
        (o.perpPrice sqrt event quantity opening)]

/-- `InferredExecutor()`. -/
def inferredExecutor (sqrt : K → K) : Executor K Unit where
  mode := .inferred
  fills _ event quantity opening := (inferredFills sqrt event quantity opening).map (·, ())

/-- A square root, as far as the results need one: not negative, and monotone. -/
structure RootLike (sqrt : K → K) : Prop where
  nonneg : ∀ x, 0 ≤ x → 0 ≤ sqrt x
  mono : ∀ x y, 0 ≤ x → x ≤ y → sqrt x ≤ sqrt y

/-- What an accepted pair of inferred fills has passed, and what it leaves. -/
structure InferredTrade (sqrt : K → K) (before : Ledger K) (e : MarketEvent K) (quantity : K)
    (opening : Bool) (o : Opportunity K) (spotRate perpRate : K) (after : Ledger K) : Prop where
  opportunity : e.opportunity = some o
  supported : ¬ Unsupported e o quantity
  spotMid_pos : 0 < e.spotMid.value
  perpMid_pos : 0 < e.perpMid.value
  time_nonneg : 0 ≤ e.timeMs
  spot_quoted : before.fees.quote before.symbol .spot e.timeMs = .ok spotRate
  perp_quoted : before.fees.quote before.symbol .perp e.timeMs = .ok perpRate
  cash : after.cashUsdt = before.cashUsdt -
    direction opening * quantity * o.spotPrice e opening -
    |direction opening * quantity| * o.spotPrice e opening * spotRate +
    (before.perp.trade (-direction opening * quantity) (o.perpPrice sqrt e quantity opening)).2 -
    |-direction opening * quantity| * o.perpPrice sqrt e quantity opening * perpRate
  perp : after.perp =
    (before.perp.trade (-direction opening * quantity) (o.perpPrice sqrt e quantity opening)).1
  fees : after.feesUsdt = before.feesUsdt +
    |direction opening * quantity| * o.spotPrice e opening * spotRate +
    |-direction opening * quantity| * o.perpPrice sqrt e quantity opening * perpRate
  execution : after.executionCostUsdt = before.executionCostUsdt +
    direction opening * quantity * (o.spotPrice e opening - e.spotMid.value) +
    -direction opening * quantity * (o.perpPrice sqrt e quantity opening - e.perpMid.value)

section

variable {b : Backtest K Unit} {before after : Ledger K} {e : MarketEvent K} {quantity : K}
  {opening : Bool} {sqrt : K → K}

theorem inferredFills_ok {fills : List (Fill K)}
    (h : inferredFills sqrt e quantity opening = .ok fills) :
    ∃ o, e.opportunity = some o ∧ ¬ Unsupported e o quantity ∧ fills = [
      inferredFill e .spot (direction opening * quantity) (o.spotPrice e opening),
      inferredFill e .perp (-direction opening * quantity)
        (o.perpPrice sqrt e quantity opening)] := by
  unfold inferredFills at h
  split at h
  · cases h
  · rename_i o ho
    simp only [bind_ok, raiseWhen_ok, pure_ok] at h
    obtain ⟨_, hsupported, rfl⟩ := h
    exact ⟨o, ho, hsupported, rfl⟩

/-- The ledger after a booked trade, read off its two fills. -/
theorem inferred_trade (hexecutor : b.executor = inferredExecutor sqrt)
    (h : Booked b () before e quantity opening after) :
    ∃ o spotRate perpRate, InferredTrade sqrt before e quantity opening o spotRate perpRate
      after := by
  obtain ⟨fills, executor', hfills, _, hrun⟩ := h
  rw [hexecutor] at hfills
  simp only [inferredExecutor] at hfills
  cases hinferred : inferredFills sqrt e quantity opening with
  | error err =>
    rw [hinferred] at hfills
    cases hfills
  | ok proposed =>
    rw [hinferred] at hfills
    cases hfills
    obtain ⟨o, ho, hsupported, rfl⟩ := inferredFills_ok hinferred
    obtain ⟨between, hspot, hrun⟩ := Lib.run_cons_ok.mp hrun
    obtain ⟨last, hperp, hrun⟩ := Lib.run_cons_ok.mp hrun
    cases hrun
    obtain ⟨q, price, mid, spotRate, hacc, rfl⟩ := Ledger.fill_ok.mp hspot
    obtain ⟨q', price', mid', perpRate, hacc', rfl⟩ := Ledger.fill_ok.mp hperp
    cases hacc.quantity_eq
    cases hacc.price_eq
    cases hacc'.quantity_eq
    cases hacc'.price_eq
    have hmid : e.spotMid = .finite mid := hacc.mid_eq
    have hmid' : e.perpMid = .finite mid' := hacc'.mid_eq
    have hspotMid : e.spotMid.value = mid := by rw [hmid]; rfl
    have hperpMid : e.perpMid.value = mid' := by rw [hmid']; rfl
    refine ⟨o, spotRate, perpRate, ho, hsupported, ?_, ?_, ?_, hacc.quoted, hacc'.quoted, ?_, rfl,
      rfl, ?_⟩
    · rw [hspotMid]
      exact hacc.mid_pos
    · rw [hperpMid]
      exact hacc'.mid_pos
    · exact (Ledger.event_ok.mp hacc.event).1
    · have hpaid : before.cashUsdt - direction opening * quantity * o.spotPrice e opening =
          before.cashUsdt + -(direction opening * quantity) * o.spotPrice e opening := by
        ring
      rw [hpaid]
      rfl
    · rw [hspotMid, hperpMid]

theorem coefficientBps_nonneg (o : Opportunity K) (opening : Bool) :
    0 ≤ o.coefficientBps opening := by
  cases opening with
  | true => exact o.curve.sell_nonneg
  | false => exact o.curve.buy_nonneg

theorem explicit_nonneg (o : Opportunity K) :
    0 ≤ o.perpHalfSpreadBps ∧ 0 ≤ o.spotExecutionBps ∧ 0 ≤ o.financingFraction := by
  have h := o.explicit
  unfold ExecutionCharges.check ExecutionCharges.numbers at h
  simp only [bind_ok, number_ok] at h
  obtain ⟨_, ⟨_, hspread, _, _, _, _, _, _, _, hspot, _, _, hfinancing⟩, _⟩ := h
  exact ⟨hspread, hspot, hfinancing⟩

theorem quote_nonneg {fees : FeeSchedule K} {symbol : String} {market : Market} {timeMs : Int}
    {rate : K} (h : fees.quote symbol market timeMs = .ok rate) : 0 ≤ rate := by
  obtain ⟨period, _, _, _, _, _, rfl⟩ := FeeSchedule.quote_ok h
  exact period.fraction_nonneg

variable [IsStrictOrderedRing K]

theorem abs_direction (opening : Bool) (h : 0 < quantity) :
    |direction opening * quantity| = quantity ∧ |-direction opening * quantity| = quantity := by
  cases opening with
  | true => simp [direction, abs_of_pos h]
  | false => simp [direction, abs_of_pos h]

theorem supported_quantity {o : Opportunity K} (h : ¬ Unsupported e o quantity) :
    0 < quantity ∧ 0 < quantity / o.market.advBase ∧
      o.curve.sizeMin ≤ quantity / o.market.advBase ∧
      quantity / o.market.advBase ≤ o.curve.sizeMax := by
  unfold Unsupported at h
  simp only [not_or, not_not] at h
  obtain ⟨_, _, _, _, _, ⟨hmin, hmax⟩, _⟩ := h
  have hfraction := o.curve.size_pos.trans_le hmin
  refine ⟨?_, hfraction, hmin, hmax⟩
  have := mul_pos hfraction o.market.adv_pos
  rwa [div_mul_cancel₀ _ o.market.adv_pos.ne'] at this

namespace RootLike

variable {o : Opportunity K}

theorem of_exact (h : ∀ x, 0 ≤ x → 0 ≤ sqrt x ∧ sqrt x * sqrt x = x) : RootLike sqrt where
  nonneg := fun x hx => (h x hx).1
  mono := fun x y hx hle => by
    obtain ⟨hx', hsqx⟩ := h x hx
    obtain ⟨hy', hsqy⟩ := h y (hx.trans hle)
    rw [mul_self_le_mul_self_iff hx' hy', hsqx, hsqy]
    exact hle

example : RootLike Real.sqrt :=
  .of_exact fun x hx => ⟨Real.sqrt_nonneg x, Real.mul_self_sqrt hx⟩

theorem perpFraction_nonneg (hroot : RootLike sqrt) (h : ¬ Unsupported e o quantity)
    (opening : Bool) : 0 ≤ o.perpFraction sqrt quantity opening := by
  have hsqrt := hroot.nonneg _ (supported_quantity h).2.1.le
  have hspread := (explicit_nonneg o).1
  have hcoefficient := coefficientBps_nonneg o opening
  unfold Opportunity.perpFraction ofBps
  positivity

theorem fraction_le (hroot : RootLike sqrt) (h : ¬ Unsupported e o quantity) (opening : Bool) :
    o.perpFraction sqrt quantity opening ≤
      ofBps (o.coefficientBps opening * sqrt o.curve.sizeMax + o.perpHalfSpreadBps) := by
  obtain ⟨_, hpos, _, hmax⟩ := supported_quantity h
  have hsqrt := hroot.mono _ _ hpos.le hmax
  have hmul := mul_le_mul_of_nonneg_left hsqrt (coefficientBps_nonneg o opening)
  unfold Opportunity.perpFraction ofBps
  rw [← add_div]
  exact div_le_div_of_nonneg_right (add_le_add hmul le_rfl) (by positivity)

end RootLike

end

end Strategy
end PerpCarry
