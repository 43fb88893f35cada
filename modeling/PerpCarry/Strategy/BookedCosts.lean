import Mathlib.Tactic.FieldSimp
import PerpCarry.Strategy.CapitalCap

/-!
# Strategy.BookedCosts

The cost a decision used is the cost the ledger books.

`charges` and `from_curve` express the cost of a side in fractions of the perp notional,
`InferredExecutor` as two prices off their mids, and `Ledger.fill` as signed quantities times price
differences.

* `charges_defined`: the charges of an opportunity, from the two quoted fees.
* `booked_execution`, `booked_fees_at_mid`: what a booked trade adds to the ledger.
* `booked_costs`: both sides of a trade, against the estimate under the runner's charges.
-/

namespace PerpCarry
namespace Strategy

variable {K : Type} [Field K] [LinearOrder K]

/-- The fraction that an estimate charges for opening, or for closing now. -/
def CostEstimate.fractionOf (self : CostEstimate K) (opening : Bool) : K :=
  if opening then self.entryFraction else self.closeNowFraction

/-- Impact and half-spread of the perp leg, and the cost of the spot leg on the perp notional. -/
def Opportunity.nonFeeFraction (sqrt : K → K) (o : Opportunity K) (e : MarketEvent K)
    (quantity : K) (opening : Bool) : K :=
  ofBps (o.coefficientBps opening * sqrt (quantity / o.market.advBase) + o.perpHalfSpreadBps +
    o.spotExecutionBps * (e.spotMid.value / e.perpMid.value))

/-- The fees of both legs, on the perp notional. -/
def feeFraction (e : MarketEvent K) (spotFee perpFee : K) : K :=
  perpFee + spotFee * (e.spotMid.value / e.perpMid.value)

/-- The estimate of one side, and what the two fills of that side added to the ledger. -/
structure CostsAgree (b : Backtest K Unit) (e : MarketEvent K) (o : Opportunity K) (quantity : K)
    (opening : Bool) (before after : Ledger K) (estimate : CostEstimate K) (spot perp : Fill K)
    (spotFee perpFee : K) : Prop where
  proposed : b.executor.fills () e quantity opening = .ok ([spot, perp], ())
  spot_fee : b.fees.quote b.config.symbol .spot e.timeMs = .ok spotFee
  perp_fee : b.fees.quote b.config.symbol .perp e.timeMs = .ok perpFee
  fraction : estimate.fractionOf opening =
    o.nonFeeFraction b.sqrt e quantity opening + feeFraction e spotFee perpFee
  execution : after.executionCostUsdt - before.executionCostUsdt =
    quantity * e.perpMid.value * o.nonFeeFraction b.sqrt e quantity opening
  fees : after.feesUsdt - before.feesUsdt =
    quantity * e.perpMid.value * feeFraction e spotFee perpFee +
      (spotFee * quantity * (spot.price.value - spot.referenceMid.value) +
        perpFee * quantity * (perp.price.value - perp.referenceMid.value))

section Sides

variable {b : Backtest K Unit} {e : MarketEvent K} {o : Opportunity K} {before after : Ledger K}
  {quantity spotFee perpFee : K} {opening : Bool} {sqrt : K → K}

theorem inferredFills_supported (ho : e.opportunity = some o)
    (h : ¬ Unsupported e o quantity) :
    inferredFills sqrt e quantity opening = .ok [
      inferredFill e .spot (direction opening * quantity) (o.spotPrice e opening),
      inferredFill e .perp (-direction opening * quantity)
        (o.perpPrice sqrt e quantity opening)] := by
  unfold inferredFills
  rw [ho]
  dsimp only
  simp only [bind_ok, raiseWhen_ok, pure_ok]
  exact ⟨(), h, trivial⟩

/-- A supported quantity is one the curve may be asked for. -/
theorem supports_of_supported (hnow : 0 ≤ e.timeMs) (h : ¬ Unsupported e o quantity) :
    o.curve.Supports e.timeMs o.market.validUntilMs (quantity / o.market.advBase) := by
  unfold Unsupported at h
  simp only [not_or, not_not, not_lt, not_le] at h
  obtain ⟨_, hadmitted, hevidence, _, hvalid, ⟨hmin, hmax⟩, _⟩ := h
  exact ⟨hnow, hvalid, hadmitted, hevidence, hmin, hmax⟩

variable [IsStrictOrderedRing K]

/-- Both sides are charged alike: half the spread and the fee of the perp leg, and what the spot
leg costs on the notional of the perp leg. -/
theorem charges_defined (hspotMid : 0 < e.spotMid.value) (hperpMid : 0 < e.perpMid.value)
    (hspot : b.fees.quote b.config.symbol .spot e.timeMs = .ok spotFee)
    (hperp : b.fees.quote b.config.symbol .perp e.timeMs = .ok perpFee) (o : Opportunity K) :
    let hedge := (toBps spotFee + o.spotExecutionBps) * (e.spotMid.value / e.perpMid.value)
    let charges : ExecutionCharges K := ⟨o.perpHalfSpreadBps, o.perpHalfSpreadBps, toBps perpFee,
      toBps perpFee, hedge, hedge, o.financingFraction⟩
    b.charges e o = .ok charges ∧ charges.check = .ok () := by
  obtain ⟨hspread, hexecution, hfinancing⟩ := explicit_nonneg o
  have hspotFee := quote_nonneg hspot
  have hperpFee := quote_nonneg hperp
  intro hedge charges
  have hedge_nonneg : 0 ≤ hedge := by
    show 0 ≤ (spotFee * 10000 + o.spotExecutionBps) * (e.spotMid.value / e.perpMid.value)
    positivity
  have hfee_nonneg : 0 ≤ toBps perpFee := by
    unfold toBps
    positivity
  have hcheck : charges.check = .ok () := by
    unfold ExecutionCharges.check ExecutionCharges.numbers ExecutionCharges.fixedFraction
    simp only [bind_ok, number_ok]
    refine ⟨(), ⟨(), hspread, (), hspread, (), hfee_nonneg, (), hfee_nonneg, (), hedge_nonneg, (),
      hedge_nonneg, hfinancing⟩, ?_⟩
    positivity
  refine ⟨?_, hcheck⟩
  unfold Backtest.charges
  simp only [bind_ok, raising_ok, pure_ok]
  exact ⟨perpFee, hperp, spotFee, hspot, (), hcheck, rfl⟩

/-- Both legs pay their distance from the mid, in the direction of the trade. -/
theorem booked_execution
    (h : InferredTrade sqrt before e quantity opening o spotFee perpFee after) :
    after.executionCostUsdt - before.executionCostUsdt =
      quantity * e.perpMid.value * o.nonFeeFraction sqrt e quantity opening := by
  have hmid := h.perpMid_pos.ne'
  have hsq : (direction opening : K) * direction opening = 1 := direction_sq opening
  have hspot : direction opening * quantity * (o.spotPrice e opening - e.spotMid.value) =
      quantity * (e.spotMid.value * o.spotFraction) := by
    unfold Opportunity.spotPrice
    calc direction opening * quantity *
          (e.spotMid.value * (1 + direction opening * o.spotFraction) - e.spotMid.value)
        = direction opening * direction opening *
            (quantity * (e.spotMid.value * o.spotFraction)) := by ring
      _ = _ := by rw [hsq, one_mul]
  have hperp : -direction opening * quantity *
      (o.perpPrice sqrt e quantity opening - e.perpMid.value) =
        quantity * (e.perpMid.value * o.perpFraction sqrt quantity opening) := by
    unfold Opportunity.perpPrice
    calc -direction opening * quantity * (e.perpMid.value *
          (1 - direction opening * o.perpFraction sqrt quantity opening) - e.perpMid.value)
        = direction opening * direction opening *
            (quantity * (e.perpMid.value * o.perpFraction sqrt quantity opening)) := by
          ring
      _ = _ := by rw [hsq, one_mul]
  rw [h.execution, hspot, hperp]
  unfold Opportunity.spotFraction Opportunity.perpFraction Opportunity.nonFeeFraction ofBps
  field_simp
  ring

/-- Fees on the executed prices are fees on the mids and a correction. -/
theorem booked_fees_at_mid
    (h : InferredTrade sqrt before e quantity opening o spotFee perpFee after) :
    after.feesUsdt - before.feesUsdt = quantity * e.perpMid.value * feeFraction e spotFee perpFee +
      (spotFee * quantity * (o.spotPrice e opening - e.spotMid.value) +
        perpFee * quantity * (o.perpPrice sqrt e quantity opening - e.perpMid.value)) := by
  have hmid := h.perpMid_pos.ne'
  obtain ⟨hspot, hperp⟩ := abs_direction opening (supported_quantity h.supported).1
  rw [h.fees, hspot, hperp]
  unfold feeFraction
  field_simp
  ring

/-- The estimate of a side splits into what the fills cost and what the fees on the mids are. -/
theorem estimate_fraction (root spotFee perpFee : K) (e : MarketEvent K) (o : Opportunity K)
    (opening : Bool) :
    ImpactCurve.sideFraction (o.coefficientBps opening) root o.perpHalfSpreadBps (toBps perpFee)
        ((toBps spotFee + o.spotExecutionBps) * (e.spotMid.value / e.perpMid.value)) =
      ofBps (o.coefficientBps opening * root + o.perpHalfSpreadBps +
        o.spotExecutionBps * (e.spotMid.value / e.perpMid.value)) +
        feeFraction e spotFee perpFee := by
  unfold ImpactCurve.sideFraction feeFraction ofBps toBps
  ring

end Sides

section Runs

variable {b : Backtest K Unit} {r : Runner K Unit} {past : List (Event K)}
  {records : List (Record K)} {e : MarketEvent K} {o : Opportunity K} {financed after : Ledger K}
  {quantity notional : K} {opening : Bool} {horizon : Int} [IsStrictOrderedRing K] [FloorRing K]

/-- For any side of a trade that the ledger of a run accepted: the runner's charges are defined, so
is the estimate of `from_curve`, and the two fills cost what it says. -/
theorem booked_costs (hroot : RootLike b.sqrt) (hexecutor : b.executor = inferredExecutor b.sqrt)
    (h : b.Reaches () past r records) (hfinance : r.ledger.finance (e.eventId ++ ":finance") e.timeMs
      e.financingUsdt = .ok financed) (ho : e.opportunity = some o)
    (hbooked : Booked b () financed e quantity opening after) (hnotional : 0 < notional)
    (hhorizon : 1 ≤ horizon) :
    ∃ charges estimate spot perp spotFee perpFee, b.charges e o = .ok charges ∧
      o.curve.fromCurve b.sqrt e.timeMs o.market.validUntilMs notional
        (quantity / o.market.advBase) horizon charges = .ok estimate ∧
      CostsAgree b e o quantity opening financed after estimate spot perp spotFee perpFee := by
  obtain ⟨o', spotFee, perpFee, htrade⟩ := inferred_trade hexecutor hbooked
  cases ho.symm.trans htrade.opportunity
  have hfees : financed.fees = b.fees ∧ financed.symbol = b.config.symbol := by
    obtain ⟨_, _, _, _, hfees, hsymbol⟩ := finance_cash hfinance
    rw [hfees, hsymbol]
    exact (reaches_informed h).fees
  have hspot := htrade.spot_quoted
  have hperp := htrade.perp_quoted
  rw [hfees.1, hfees.2] at hspot hperp
  obtain ⟨hcharges, hcheck⟩ :=
    charges_defined htrade.spotMid_pos htrade.perpMid_pos hspot hperp o
  have hsqrt := hroot.nonneg _ (supported_quantity htrade.supported).2.1.le
  obtain ⟨estimate, hestimate, _, _, _, hentry, hclose, _⟩ := ImpactCurve.fromCurve_defined
    (supports_of_supported htrade.time_nonneg htrade.supported) hcheck hnotional hhorizon hsqrt
  refine ⟨_, estimate,
    inferredFill e .spot (direction opening * quantity) (o.spotPrice e opening),
    inferredFill e .perp (-direction opening * quantity) (o.perpPrice b.sqrt e quantity opening),
    spotFee, perpFee, hcharges, hestimate, ?_, hspot, hperp, ?_,
    booked_execution htrade, booked_fees_at_mid htrade⟩
  · rw [hexecutor]
    simp only [inferredExecutor]
    rw [inferredFills_supported ho htrade.supported]
    rfl
  · cases opening with
    | true => exact hentry.trans (estimate_fraction _ spotFee perpFee e o true)
    | false => exact hclose.trans (estimate_fraction _ spotFee perpFee e o false)

end Runs

/-- The entry of the run. -/
theorem booked_costs_study :
    ∃ e o r records financed after quantity, studyEntry = .market e ∧ e.opportunity = some o ∧
      inferredBacktest.Reaches () studyWarmup r records ∧
      Booked inferredBacktest () financed e quantity true after ∧
      ∃ charges estimate spot perp spotFee perpFee, inferredBacktest.charges e o = .ok charges ∧
        o.curve.fromCurve inferredBacktest.sqrt e.timeMs o.market.validUntilMs 100
          (quantity / o.market.advBase) 1 charges = .ok estimate ∧
        CostsAgree inferredBacktest e o quantity true financed after estimate spot perp spotFee
          perpFee := by
  have hrun : (inferredBacktest.replay () (studyWarmup ++ [studyEntry])).toOption.any
      (fun s => s.2.getLast?.any fun record => record.decision.map (·.action) = some .enter) =
        true := by
    decide +kernel
  obtain ⟨r', records', hreaches, hlast⟩ := Backtest.reaches_of_replay hrun
  obtain ⟨r, records, record, hbefore, hstep, hrecords⟩ := Backtest.reaches_snoc_inv hreaches
  obtain ⟨_, rec, _, _, _, rfl, _⟩ := Runner.process_market hstep
  have henter : rec.decision.map (·.action) = some .enter := by
    simpa [hrecords] using hlast
  obtain ⟨d, hd, haction⟩ := Option.map_eq_some_iff.mp henter
  obtain ⟨e, financed, outcome, he, houtcome, hfinance, hdecided⟩ := Runner.process_decided hstep hd
  generalize r'.ledger = ledger at hdecided
  generalize r'.position = position at hdecided
  cases hdecided with
  | waited d' flat decision action =>
    cases houtcome.symm.trans decision
    cases action.symm.trans haction
  | entered result after p flat decision forecast entry =>
    obtain ⟨o, _, _, _, hadmitEvent, _⟩ := entry.evidence
    obtain ⟨ho, _⟩ := (Runner.admit_ok hadmitEvent).2.2.2.2 o rfl
    exact ⟨e, o, r, records, financed, _, _, he, ho, hbefore, entry.booked,
      booked_costs stepRoot_rootLike rfl hbefore hfinance ho entry.booked (by norm_num)
        (by norm_num)⟩
  | held d' p position decision action continues remaining =>
    cases houtcome.symm.trans decision
    cases action.symm.trans haction
  | exited d' p after position decision action continues booked =>
    cases houtcome.symm.trans decision
    cases action.symm.trans haction

end Strategy
end PerpCarry
