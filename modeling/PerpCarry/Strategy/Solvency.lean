import PerpCarry.Strategy.Hedged

/-!
# Strategy.Solvency

Equity and collateral of the reported states.

The reserve is tested again after the decision, the equity is not. An exit leaves nothing but cash,
and cash that is exactly zero covers the reserve of a flat book. An entry leaves a spot leg as well;
what that is worth can only be lost in the ledger's rounding.

* `booked_proposed`: the ledger after a trade, from the fills that the executor proposed.
* `decided_equity`: which decisions leave a positive equity.
* `run_solvent_iff`: a run's reported states are solvent if and only if no trade leaves nothing.
* `run_solvent_exact`: of exact numbers, if and only if no exit does.
-/

namespace PerpCarry
namespace Strategy

open Arithmetic (inLedger inRun Lawful ledger_zero run_zero ledger_nonneg_of_run)

variable {K σ : Type} [Field K] [LinearOrder K]

section Definitions

variable [Arithmetic K]

/-- The cash of `l` after two fills at these fee rates. -/
def cashAfter (l : Ledger K) (spot perp : Fill K) (spotRate perpRate : K) : K :=
  let fee (fill : Fill K) (rate : K) : K :=
    inLedger (inLedger (inLedger |fill.quantity.value| * fill.price.value) * rate)
  let paid := inLedger (inLedger (-spot.quantity.value) * spot.price.value)
  let realized := (l.perp.trade perp.quantity.value perp.price.value).2
  let between := inLedger (inLedger (l.cashUsdt + paid) - fee spot spotRate)
  inLedger (inLedger (between + realized) - fee perp perpRate)

/-- What is left of `l` when two fills have closed it: cash, less a cost basis still open. -/
def closingWorth (l : Ledger K) (spot perp : Fill K) (spotRate perpRate : K) : K :=
  let perpLeg := (l.perp.trade perp.quantity.value perp.price.value).1
  inLedger (cashAfter l spot perp spotRate perpRate - perpLeg.basisUsdt)

/-- What two fills leave of `l` at these marks. -/
def openingWorth (l : Ledger K) (spot perp : Fill K) (spotRate perpRate : K) (marks : Marks K) : K :=
  let spotLeg := (l.spot.trade spot.quantity.value spot.price.value).1
  let perpLeg := (l.perp.trade perp.quantity.value perp.price.value).1
  inLedger (inLedger (cashAfter l spot perp spotRate perpRate +
    inLedger (spotLeg.quantity * marks.spot.value)) + perpLeg.unrealizedIn inLedger marks.perp.value)

/-- The executor's fills for a trade, and the fee rates that they meet. -/
structure Proposed (b : Backtest K σ) (r : Runner K σ) (e : MarketEvent K) (quantity : K)
    (opening : Bool) (spot perp : Fill K) (spotRate perpRate : K) : Prop where
  fills : ∃ executor, b.executor.fills r.executor e quantity opening = .ok ([spot, perp], executor)
  spotFee : r.ledger.fees.quote r.ledger.symbol .spot spot.timeMs = .ok spotRate
  perpFee : r.ledger.fees.quote r.ledger.symbol .perp perp.timeMs = .ok perpRate

/-- The event exits a position, and the executor's fills leave nothing. -/
def ExitSpends (b : Backtest K σ) (r : Runner K σ) (e : MarketEvent K) : Prop :=
  ∃ p d spot perp spotRate perpRate, r.position = some p ∧ Runner.Continues b r e p d ∧
    d.action = .exit ∧
    Proposed b r e (inRun (-r.ledger.perp.quantity)) false spot perp spotRate perpRate ∧
    closingWorth r.ledger spot perp spotRate perpRate = 0

/-- The event enters a position, and the ledger's digits hold nothing of what the fills leave. -/
def EntrySpends (b : Backtest K σ) (r : Runner K σ) (e : MarketEvent K) [FloorRing K] : Prop :=
  ∃ result spot perp spotRate perpRate, Runner.Enters b r e result ∧
    Proposed b r e (inRun result.quantityBase) true spot perp spotRate perpRate ∧
    openingWorth r.ledger spot perp spotRate perpRate e.marks ≤ 0

/-- `r₁` is the runner that decides about the event: its financing is booked. -/
def Financed (r : Runner K σ) (e : MarketEvent K) (r₁ : Runner K σ) : Prop :=
  ∃ ledger, r.ledger.finance (e.eventId ++ ":finance") e.timeMs e.financingUsdt = .ok ledger ∧
    r₁ = { r.seen (.market e) with ledger }

/-- A trade of the event leaves nothing. -/
def SpendsAll (b : Backtest K σ) (r : Runner K σ) (e : MarketEvent K) [FloorRing K] : Prop :=
  e.decide = true ∧ ∃ r₁, Financed r e r₁ ∧ (ExitSpends b r₁ e ∨ EntrySpends b r₁ e)

/-- Cash and perp P&L cover the reserve at this mark, both as the run computes them. -/
def Covers (b : Backtest K σ) (l : Ledger K) (mark : K) : Prop :=
  inRun (inRun (inRun |l.perp.quantity| * mark) * b.config.collateralFraction) ≤
    inRun (l.cashUsdt + l.perp.unrealizedIn inRun mark)

/-- What a yielded record says of the state it reports. -/
structure Solvent (b : Backtest K σ) (event : Event K) (record : Record K) (r' : Runner K σ) :
    Prop where
  market : ∀ e, event = .market e →
    Covers b r'.ledger e.marks.perp.value ∧
      ∃ v, record.valuation = some v ∧ 0 < v.netEquityUsdt
  funding : ∀ e, event = .funding e → Covers b r'.ledger (e.markPrice.getD .nan).value

/-- Spot and perp leg are opposite, and numbers of the ledger. -/
structure Ledger.Opposed (l : Ledger K) : Prop where
  legs : l.spot.quantity = -l.perp.quantity
  kept : inLedger l.perp.quantity = l.perp.quantity

end Definitions

/-! ## Trades -/

section Trades

variable [Arithmetic K] {b : Backtest K σ} {r : Runner K σ} {e : MarketEvent K} {quantity : K}
  {opening : Bool} {after l l' : Ledger K}

theorem covers_of_not_short {mark : K} (h : ¬ l.Short mark b.config.collateralFraction) :
    Covers b l mark :=
  not_lt.mp h

omit [Arithmetic K] in
theorem Proposed.unique {spot perp spot' perp' : Fill K}
    {spotRate perpRate spotRate' perpRate' : K}
    (h : Proposed b r e quantity opening spot perp spotRate perpRate)
    (h' : Proposed b r e quantity opening spot' perp' spotRate' perpRate') :
    spot' = spot ∧ perp' = perp ∧ spotRate' = spotRate ∧ perpRate' = perpRate := by
  obtain ⟨_, hfills⟩ := h.fills
  obtain ⟨_, hfills'⟩ := h'.fills
  rw [hfills] at hfills'
  cases hfills'
  cases h.spotFee.symm.trans h'.spotFee
  cases h.perpFee.symm.trans h'.perpFee
  exact ⟨rfl, rfl, rfl, rfl⟩

/-- What a trade leaves, from the fills that the executor proposed. -/
theorem booked_proposed (h : Booked b r.executor r.ledger e quantity opening after) :
    ∃ spot perp spotRate perpRate,
      Proposed b r e quantity opening spot perp spotRate perpRate ∧
      spot.quantity.value = (if opening then quantity else inRun (-quantity)) ∧
      perp.quantity.value = (if opening then inRun (-quantity) else quantity) ∧
      after.cashUsdt = cashAfter r.ledger spot perp spotRate perpRate ∧
      after.spot = (r.ledger.spot.trade spot.quantity.value spot.price.value).1 ∧
      after.perp = (r.ledger.perp.trade perp.quantity.value perp.price.value).1 := by
  obtain ⟨spot, perp, executor, between, hfills, ⟨hspot, hs⟩, ⟨hperp, hp⟩, hfirst, hsecond⟩ :=
    booked_pair h
  obtain ⟨spotPrice, spotRate, hspotPrice, hspotRate, hcash₁, hspot₁, hother₁, hfees, hsymbol⟩ :=
    Ledger.fill_booked hfirst
  obtain ⟨perpPrice, perpRate, hperpPrice, hperpRate, hcash₂, hperp₂, hother₂, _, _⟩ :=
    Ledger.fill_booked hsecond
  have hperp₁ : between.perp = r.ledger.perp := hother₁ .perp (by rw [hspot]; nofun)
  have hspot₂ : after.spot = between.spot := hother₂ .spot (by rw [hperp]; nofun)
  rw [hspot] at hcash₁ hspot₁ hspotRate
  rw [hperp] at hcash₂ hperp₂ hperpRate
  rw [hfees, hsymbol] at hperpRate
  refine ⟨spot, perp, spotRate, perpRate, ⟨⟨executor, hfills⟩, hspotRate, hperpRate⟩, ?_, ?_, ?_,
    ?_, ?_⟩
  · rw [hs]
    rfl
  · rw [hp]
    rfl
  · rw [hcash₂, hcash₁]
    simp only [Ledger.leg, hperp₁, Ledger.cashChange, cashAfter, hspotPrice, hperpPrice,
      Decimal.value]
  · rw [hspot₂, hspotPrice]
    exact hspot₁
  · rw [hperpPrice]
    simp only [Ledger.leg, hperp₁] at hperp₂
    exact hperp₂

theorem opposed_congr (h : l.Opposed) (hlegs : l'.spot = l.spot ∧ l'.perp = l.perp) :
    l'.Opposed := by
  obtain ⟨hspot, hperp⟩ := hlegs
  exact ⟨by rw [hspot, hperp]; exact h.legs, by rw [hperp]; exact h.kept⟩

variable [Lawful K]

theorem basis_kept (leg : Leg K) (quantity price : K) :
    inLedger (leg.trade quantity price).1.basisUsdt = (leg.trade quantity price).1.basisUsdt := by
  unfold Leg.trade
  split
  · exact Lawful.ledger_idem _
  · exact Lawful.ledger_idem _

theorem booked_opposed (h : Booked b r.executor r.ledger e quantity opening after)
    (hlegs : r.ledger.Opposed) (hquantity : inRun quantity = quantity) : after.Opposed := by
  obtain ⟨spot, perp, _, _, _, hs, hp, _, hspot, hperp⟩ := booked_proposed h
  have hneg : inRun (-quantity) = -quantity := by rw [Lawful.run_neg, hquantity]
  have hopposite : spot.quantity.value = -perp.quantity.value := by
    rw [hs, hp, hneg]
    cases opening with
    | true => exact (neg_neg quantity).symm
    | false => rfl
  constructor
  · rw [hspot, hperp, Leg.trade_rounded, Leg.trade_rounded, hlegs.legs, hopposite, ← neg_add,
      Lawful.ledger_neg]
  · rw [hperp, Leg.trade_rounded, Lawful.ledger_idem]

/-- Closing all that is held leaves both legs flat, whatever the digits. -/
theorem closed_opposed [IsStrictOrderedRing K] (hlegs : r.ledger.Opposed)
    (h : Booked b r.executor r.ledger e (inRun (-r.ledger.perp.quantity)) false after) :
    after.spot.quantity = 0 ∧ after.perp.quantity = 0 := by
  obtain ⟨spot, perp, _, _, _, hs, hp, _, hspot, hperp⟩ := booked_proposed h
  have hkept : inRun r.ledger.perp.quantity = r.ledger.perp.quantity := by
    rw [← hlegs.kept, Lawful.run_ledger]
  have hneg : inRun (-r.ledger.perp.quantity) = -r.ledger.perp.quantity := by
    rw [Lawful.run_neg, hkept]
  rw [hneg] at hs hp
  rw [neg_neg, hkept] at hs
  constructor
  · rw [hspot, Leg.trade_rounded, hs, if_neg Bool.false_ne_true, hlegs.legs, neg_add_cancel,
      ledger_zero]
  · rw [hperp, Leg.trade_rounded, hp, if_neg Bool.false_ne_true, add_neg_cancel, ledger_zero]

end Trades

/-! ## Decisions -/

section Decisions

variable [Arithmetic K] {b : Backtest K σ} {r r' : Runner K σ} {e : MarketEvent K} {p : Position K}
  {d d' : Decision K}

theorem continues_unique (h : Runner.Continues b r e p d) (h' : Runner.Continues b r e p d') :
    d = d' := by
  obtain ⟨opportunity, r₁, forecast, hforecast, hadmitEvent, hd⟩ := h
  obtain ⟨opportunity', r₁', forecast', hforecast', hadmitEvent', hd'⟩ := h'
  rw [hforecast] at hforecast'
  rw [hadmitEvent] at hadmitEvent'
  cases hforecast'
  cases hadmitEvent'
  rw [hd] at hd'
  cases hd'
  rfl

theorem enters_unique [FloorRing K] {result result' : SizingResult K}
    (h : Runner.Enters b r e result) (h' : Runner.Enters b r e result') : result' = result := by
  obtain ⟨_, forecast, opportunity, r₁, r₂, hforecast, hadmitEvent, henter, _⟩ := h
  obtain ⟨_, forecast', opportunity', r₁', r₂', hforecast', hadmitEvent', henter', _⟩ := h'
  rw [hforecast] at hforecast'
  rw [hadmitEvent] at hadmitEvent'
  cases hforecast'
  cases hadmitEvent'
  rw [henter] at henter'
  simp only [Except.ok.injEq, Prod.mk.injEq, Option.some.injEq] at henter'
  exact henter'.2.1.symm

theorem value_equity {l : Ledger K} {marks : Marks K} {v : Valuation K} (h : l.value marks = .ok v) :
    0 < marks.spot.value ∧ 0 < marks.perp.value ∧
      v.netEquityUsdt = inLedger (inLedger (l.cashUsdt +
        inLedger (l.spot.quantity * marks.spot.value)) +
          l.perp.unrealizedIn inLedger marks.perp.value) := by
  obtain ⟨spotMark, perpMark, ⟨_, ⟨hspot, hspotPos⟩, ⟨hperp, hperpPos⟩, _⟩, rfl⟩ :=
    Ledger.value_iff.mp h
  rw [hspot, hperp]
  exact ⟨hspotPos, hperpPos, rfl⟩

/-- An entry leaves what its fills are worth. -/
theorem entered_equity [FloorRing K] {result : SizingResult K} {ledger : Ledger K}
    {final : Valuation K} (hflat : r.position = none) (henters : Runner.Enters b r e result)
    (hbooked : Booked b r.executor r.ledger e (inRun result.quantityBase) true ledger)
    (hfinal : ledger.value e.marks = .ok final) :
    0 < final.netEquityUsdt ↔ ¬ (ExitSpends b r e ∨ EntrySpends b r e) := by
  obtain ⟨spot, perp, spotRate, perpRate, hproposed, _, _, hcash, hspot, hperp⟩ :=
    booked_proposed hbooked
  obtain ⟨_, _, hequity⟩ := value_equity hfinal
  have hworth : final.netEquityUsdt = openingWorth r.ledger spot perp spotRate perpRate e.marks := by
    rw [hequity, hcash, hspot, hperp]
    rfl
  rw [hworth, ← not_le, not_iff_not]
  constructor
  · intro hnothing
    exact .inr ⟨result, spot, perp, spotRate, perpRate, henters, hproposed, hnothing⟩
  · rintro (⟨p, _, _, _, _, _, hposition, _⟩ | ⟨result', _, _, _, _, henters', hproposed', hnothing⟩)
    · cases hflat.symm.trans hposition
    · obtain rfl := enters_unique henters henters'
      obtain ⟨rfl, rfl, rfl, rfl⟩ := hproposed.unique hproposed'
      exact hnothing

variable [IsStrictOrderedRing K] [Lawful K]

/-- A flat book is worth its cash, less a cost basis still open, and a covered reserve leaves that
not below zero. -/
theorem flat_equity {l : Ledger K} {marks : Marks K} {v : Valuation K}
    (hspot : l.spot.quantity = 0) (hperp : l.perp.quantity = 0)
    (hcash : inLedger l.cashUsdt = l.cashUsdt)
    (hbasis : inLedger l.perp.basisUsdt = l.perp.basisUsdt)
    (hcovers : Covers b l marks.perp.value) (h : l.value marks = .ok v) :
    v.netEquityUsdt = inLedger (l.cashUsdt - l.perp.basisUsdt) ∧
      0 ≤ inLedger (l.cashUsdt - l.perp.basisUsdt) := by
  obtain ⟨_, _, hequity⟩ := value_equity h
  have hrun : inRun l.perp.basisUsdt = l.perp.basisUsdt := by
    rw [← hbasis, Lawful.run_ledger]
  have hcovered : 0 ≤ inRun (l.cashUsdt - l.perp.basisUsdt) := by
    unfold Covers Leg.unrealizedIn at hcovers
    simp only [hperp, abs_zero, zero_mul, run_zero, zero_sub, Lawful.run_neg, hrun] at hcovers
    rw [sub_eq_add_neg]
    exact hcovers
  refine ⟨?_, ledger_nonneg_of_run hcovered⟩
  rw [hequity, hspot, Leg.unrealizedIn, hperp]
  simp only [zero_mul, ledger_zero, add_zero, zero_sub, Lawful.ledger_neg, hcash, hbasis]
  rw [← sub_eq_add_neg]

/-- An exit leaves its cash, which is nothing when all of it is spent. -/
theorem exited_equity [FloorRing K] {ledger : Ledger K} {final : Valuation K}
    (hlegs : r.ledger.Opposed) (hposition : r.position = some p)
    (hcontinues : Runner.Continues b r e p d) (haction : d.action = .exit)
    (hbooked : Booked b r.executor r.ledger e (inRun (-r.ledger.perp.quantity)) false ledger)
    (hcovers : Covers b ledger e.marks.perp.value) (hfinal : ledger.value e.marks = .ok final) :
    0 < final.netEquityUsdt ↔ ¬ (ExitSpends b r e ∨ EntrySpends b r e) := by
  obtain ⟨hspot, hperp⟩ := closed_opposed hlegs hbooked
  obtain ⟨spot, perp, spotRate, perpRate, hproposed, _, _, hcash, _, hleg⟩ :=
    booked_proposed hbooked
  have hcashKept : inLedger ledger.cashUsdt = ledger.cashUsdt := by
    rw [hcash, cashAfter, Lawful.ledger_idem]
  have hbasisKept : inLedger ledger.perp.basisUsdt = ledger.perp.basisUsdt := by
    rw [hleg, basis_kept]
  obtain ⟨hequity, hnonneg⟩ := flat_equity hspot hperp hcashKept hbasisKept hcovers hfinal
  have hworth : inLedger (ledger.cashUsdt - ledger.perp.basisUsdt) =
      closingWorth r.ledger spot perp spotRate perpRate := by
    rw [hcash, hleg]
    rfl
  rw [hequity, lt_iff_le_and_ne, and_iff_right hnonneg, hworth, ne_comm, ne_eq, not_iff_not]
  constructor
  · intro hzero
    exact .inl ⟨p, d, spot, perp, spotRate, perpRate, hposition, hcontinues, haction, hproposed,
      hzero⟩
  · rintro (⟨_, _, _, _, _, _, _, _, _, hproposed', hzero⟩ | ⟨_, _, _, _, _, ⟨hflat, _⟩, _⟩)
    · obtain ⟨rfl, rfl, rfl, rfl⟩ := hproposed.unique hproposed'
      exact hzero
    · cases hflat.symm.trans hposition

/-! ## Steps -/

variable [FloorRing K] {outcome : Runner.Outcome K} {ledger : Ledger K}
  {position : Option (Position K)}

/-- Only a trade that leaves nothing leaves no equity. -/
theorem decided_equity {before final : Valuation K} (hlegs : r.ledger.Opposed)
    (hbefore : r.ledger.value e.marks = .ok before) (hpos : 0 < before.netEquityUsdt)
    (hd : Runner.Decided b r e outcome ledger position)
    (henters : ∀ result, Runner.Enters b r e result →
      outcome.decision = some result.decision ∧ outcome.result = some result)
    (hcovers : Covers b ledger e.marks.perp.value) (hfinal : ledger.value e.marks = .ok final) :
    0 < final.netEquityUsdt ↔ ¬ (ExitSpends b r e ∨ EntrySpends b r e) := by
  cases hd with
  | waited d flat decision action =>
    rw [hbefore] at hfinal
    cases hfinal
    refine iff_of_true hpos ?_
    rintro (⟨_, _, _, _, _, _, hposition, _⟩ | ⟨result, _, _, _, _, hresult, _⟩)
    · cases flat.symm.trans hposition
    · have hsame := decision.symm.trans (henters result hresult).1
      cases hsame
      obtain ⟨_, _, _, _, _, _, _, _, haction⟩ := hresult
      cases action.symm.trans haction
  | entered result after p flat decision forecast entry =>
    exact entered_equity flat entry.chosen entry.booked hfinal
  | held d p position decision action continues remaining =>
    rw [hbefore] at hfinal
    cases hfinal
    refine iff_of_true hpos ?_
    rintro (⟨p', d', _, _, _, _, hposition, hcontinues, hexit, _⟩ | ⟨_, _, _, _, _, ⟨hflat, _⟩, _⟩)
    · cases position.symm.trans hposition
      rw [continues_unique continues hcontinues, hexit] at action
      cases action
    · cases hflat.symm.trans position
  | exited d p after position decision action continues booked =>
    exact exited_equity hlegs position continues action booked hcovers hfinal

omit [IsStrictOrderedRing K] in
theorem decided_opposed (hlegs : r.ledger.Opposed)
    (hd : Runner.Decided b r e outcome ledger position) : ledger.Opposed := by
  cases hd with
  | waited d flat decision action => exact hlegs
  | entered result after p flat decision forecast entry =>
    exact booked_opposed entry.booked hlegs (Lawful.run_idem _)
  | held d p position decision action continues remaining => exact hlegs
  | exited d p after position decision action continues booked =>
    exact booked_opposed booked hlegs (Lawful.run_idem _)

omit [IsStrictOrderedRing K] in
theorem process_opposed {event : Event K} {record : Option (Record K)} (h : r.ledger.Opposed)
    (hs : r.process b event = .ok (record, r')) : r'.ledger.Opposed := by
  cases event with
  | funding e =>
    obtain ⟨_, hstep⟩ := Runner.process_funding hs
    by_cases hwarmup : e.timeMs < b.config.startMs
    · rw [(hstep.warmup hwarmup).2.1]
      exact h
    · exact opposed_congr h (settle_quantities (hstep.scored (not_lt.mp hwarmup)).1)
  | market e =>
    obtain ⟨_, rec, financed, outcome, final, _, hstep⟩ := Runner.process_market hs
    have hfinanced : financed.Opposed := opposed_congr h (finance_quantities hstep.finance)
    cases hdecide : e.decide with
    | true => exact decided_opposed hfinanced (hstep.decided hdecide)
    | false =>
      rw [(hstep.idle hdecide).2.1]
      exact hfinanced

theorem reaches_opposed {executor : σ} {events : List (Event K)} {records : List (Record K)}
    (h : b.Reaches executor events r records) : r.ledger.Opposed := by
  refine Backtest.reaches_induction (fun _ r _ => r.ledger.Opposed) ?_ ?_ h
  · intro r hstart
    obtain ⟨_, _, _, hledger⟩ := Backtest.start_ok hstart
    obtain ⟨_, _, _, _, hledger⟩ := Ledger.start_ok.mp hledger
    rw [← hledger]
    exact ⟨neg_zero.symm, ledger_zero⟩
  · intro past r records event record r' h hs
    exact process_opposed h hs

theorem process_solvent_iff {event : Event K} {record : Record K} (hr : r.ledger.Opposed)
    (hs : r.process b event = .ok (some record, r')) :
    Solvent b event record r' ↔ ∀ e, event = .market e → ¬ SpendsAll b r e := by
  cases event with
  | funding e =>
    refine iff_of_true ⟨(fun _ h => nomatch h), ?_⟩ (fun _ h => nomatch h)
    rintro _ ⟨⟩
    obtain ⟨_, hstep⟩ := Runner.process_funding hs
    by_cases hwarmup : e.timeMs < b.config.startMs
    · cases (hstep.warmup hwarmup).1
    · exact covers_of_not_short (hstep.scored (not_lt.mp hwarmup)).2.1
  | market e =>
    obtain ⟨_, rec, financed, outcome, final, heq, hstep⟩ := Runner.process_market hs
    cases heq
    obtain ⟨before, hbefore, hpos⟩ := hstep.solvent
    have hlegs := opposed_congr hr (finance_quantities hstep.finance)
    have hcovers := covers_of_not_short hstep.reserved
    have hequity : 0 < final.netEquityUsdt ↔ ¬ SpendsAll b r e := by
      cases hdecide : e.decide with
      | true =>
        have hiff := decided_equity hlegs hbefore hpos (hstep.decided hdecide)
          (hstep.enters hdecide) hcovers hstep.valued
        rw [hiff, not_iff_not]
        constructor
        · exact fun hspends => ⟨hdecide, _, ⟨financed, hstep.finance, rfl⟩, hspends⟩
        · rintro ⟨_, _, ⟨financed', hfinance, rfl⟩, hspends⟩
          cases hstep.finance.symm.trans hfinance
          exact hspends
      | false =>
        have hvalued := hstep.valued
        rw [(hstep.idle hdecide).2.1, hbefore] at hvalued
        cases hvalued
        refine iff_of_true hpos ?_
        rintro ⟨hyes, _⟩
        cases hdecide.symm.trans hyes
    constructor
    · rintro h _ ⟨⟩
      obtain ⟨v, hv, hposv⟩ := (h.market e rfl).2
      cases hstep.recorded.2.2.2.2.1.symm.trans hv
      exact hequity.mp hposv
    · intro h
      refine ⟨?_, fun _ h => nomatch h⟩
      rintro _ ⟨⟩
      exact ⟨hcovers, final, hstep.recorded.2.2.2.2.1, hequity.mpr (h e rfl)⟩

/-- In every run: the states reported are solvent, if and only if no trade leaves nothing. -/
theorem run_solvent_iff (b : Backtest K σ) (executor : σ) (events : List (Event K)) :
    b.EveryStep executor events (fun _ event record r' =>
        ∀ found, record = some found → Solvent b event found r') ↔
      b.EveryStep executor events (fun r event _ _ =>
        ∀ e, event = .market e → ¬ SpendsAll b r e) := by
  refine Backtest.everyStep_congr ?_
  intro past r records event record r' hreaches hstep
  have hr := reaches_opposed hreaches
  constructor
  · intro h
    cases record with
    | none =>
      rintro e rfl
      obtain ⟨_, _, _, _, _, hnone, _⟩ := Runner.process_market hstep
      cases hnone
    | some found => exact (process_solvent_iff hr hstep).mp (h found rfl)
  · rintro h found rfl
    exact (process_solvent_iff hr hstep).mpr h

end Decisions

/-! ## Exact numbers -/

section Exact

variable {b : Backtest K σ} {r r' : Runner K σ} {e : MarketEvent K} [IsStrictOrderedRing K]

/-- A covered reserve and a spot leg are worth something. -/
theorem covered_equity {l : Ledger K} {marks : Marks K} {v : Valuation K} (hb : l.Balanced)
    (hne : l.perp.quantity ≠ 0) (hcovers : Covers b l marks.perp.value)
    (h : l.value marks = .ok v) : 0 < v.netEquityUsdt := by
  obtain ⟨hspot, hpos, hequity⟩ := value_equity h
  have hequity : v.netEquityUsdt = l.cashUsdt + l.spot.quantity * marks.spot.value +
      l.perp.unrealized marks.perp.value := hequity
  have hcovers : |l.perp.quantity| * marks.perp.value * b.config.collateralFraction ≤
      l.cashUsdt + l.perp.unrealized marks.perp.value := hcovers
  have hlong : 0 < l.spot.quantity := by
    refine lt_of_le_of_ne hb.long ?_
    rw [hb.legs]
    exact (neg_ne_zero.mpr hne).symm
  have hreserve : 0 ≤ l.cashUsdt + l.perp.unrealized marks.perp.value := by
    refine le_trans ?_ hcovers
    have := b.config.collateral_pos
    positivity
  have hspotValue : 0 < l.spot.quantity * marks.spot.value := mul_pos hlong hspot
  rw [hequity]
  linarith

variable [FloorRing K]

/-- Of exact numbers an entry never leaves nothing. -/
theorem entry_keeps {financed : Ledger K} {outcome : Runner.Outcome K} {final : Valuation K}
    {record : Record K} (hr : Hedged r)
    (hstep : Runner.MarketStep b (r.seen (.market e)) e financed outcome final record r')
    (hdecide : e.decide = true) :
    ¬ EntrySpends b { r.seen (.market e) with ledger := financed } e := by
  rintro ⟨result, spot, perp, spotRate, perpRate, henters, hproposed, hnothing⟩
  obtain ⟨hdecision, _⟩ := hstep.enters hdecide result henters
  have hlegs := finance_quantities hstep.finance
  have hflat : r.position = none := henters.1
  have hvalued := hstep.valued
  have hcovers : Covers b r'.ledger e.marks.perp.value := covers_of_not_short hstep.reserved
  have hd := hstep.decided hdecide
  generalize r'.ledger = ledger at hd hvalued hcovers
  generalize r'.position = position at hd
  cases hd with
  | waited d flat decision action =>
    cases decision.symm.trans hdecision
    obtain ⟨_, _, _, _, _, _, _, _, haction⟩ := henters
    cases action.symm.trans haction
  | entered result' after p flat decision forecast entry =>
    obtain rfl := enters_unique henters entry.chosen
    have hbalanced : financed.Balanced := balanced_congr hr.balanced hlegs
    have hempty : financed.perp.quantity = 0 := by
      rw [hlegs.2]
      exact hr.position_iff.mp hflat
    have hpos := covered_equity (booked_balanced hbalanced entry.booked)
      (opened_ne_zero hempty entry.booked) hcovers hvalued
    refine ((entered_equity flat henters entry.booked hvalued).mp hpos) ?_
    exact .inr ⟨_, spot, perp, spotRate, perpRate, henters, hproposed, hnothing⟩
  | held d p position decision action continues remaining => cases hflat.symm.trans position
  | exited d p after position decision action continues booked => cases hflat.symm.trans position

/-- Of exact numbers: if and only if no exit leaves nothing. -/
theorem run_solvent_exact (b : Backtest K σ) (executor : σ) (events : List (Event K)) :
    b.EveryStep executor events (fun _ event record r' =>
        ∀ found, record = some found → Solvent b event found r') ↔
      b.EveryStep executor events (fun r event _ _ => ∀ e r₁, event = .market e →
        e.decide = true → Financed r e r₁ → ¬ ExitSpends b r₁ e) := by
  refine Backtest.everyStep_congr ?_
  intro past r records event record r' hreaches hs
  have hopposed := reaches_opposed hreaches
  cases event with
  | funding e =>
    constructor
    · rintro h _ _ ⟨⟩
    · rintro h found rfl
      refine (process_solvent_iff hopposed hs).mpr ?_
      rintro _ ⟨⟩
  | market e =>
    obtain ⟨_, found, financed, outcome, final, rfl, hstep⟩ := Runner.process_market hs
    have hiff := process_solvent_iff hopposed hs
    constructor
    · rintro h _ r₁ ⟨⟩ hdecide hfinanced hexit
      exact hiff.mp (h found rfl) e rfl ⟨hdecide, r₁, hfinanced, .inl hexit⟩
    · rintro h _ ⟨⟩
      refine hiff.mpr ?_
      rintro _ ⟨⟩ ⟨hdecide, r₁, hfinanced, hspends⟩
      rcases hspends with hexit | hentry
      · exact h e r₁ rfl hdecide hfinanced hexit
      · obtain ⟨financed', hfinance, rfl⟩ := hfinanced
        cases hstep.finance.symm.trans hfinance
        exact entry_keeps (reaches_hedged hreaches) hstep hdecide hentry

end Exact

/-! ## An exit that spends all the cash -/

/-- After the warm-up: an entry, the settlement it waits for, and the exit. -/
def studyExit : List (Event ℚ) :=
  [studyEntry, studyFunding "s1" 2707200000, studyDecision "d1" 2707216000]

/-- The perp leg is bought back at its opening price. The run goes through. -/
theorem run_solvent_iff_study :
    letI := Arithmetic.python
    (∃ r records, (studyBacktest 100).Reaches () (studyWarmup ++ studyExit) r records) ∧
      ((studyBacktest 100).EveryStep () (studyWarmup ++ studyExit) (fun _ event record r' =>
          ∀ found, record = some found → Solvent (studyBacktest 100) event found r') ↔
        (studyBacktest 100).EveryStep () (studyWarmup ++ studyExit) (fun r event _ _ =>
          ∀ e, event = .market e → ¬ SpendsAll (studyBacktest 100) r e)) := by
  let := Arithmetic.python
  have hrun : ((studyBacktest 100).replay () (studyWarmup ++ studyExit)).toOption.any
      (fun s => s.1.position.isNone) = true := by
    decide +kernel
  obtain ⟨r, records, hreaches, _⟩ := Backtest.reaches_of_replay hrun
  have := Arithmetic.python_lawful
  exact ⟨⟨r, records, hreaches⟩, run_solvent_iff (studyBacktest 100) () (studyWarmup ++ studyExit)⟩

/-- The perp leg of one unit is bought back at 10100.1: nothing is left, and the record is
yielded. -/
theorem study_exit_spends_all :
    letI := Arithmetic.python
    ∃ r records, (studyBacktest (101001 / 10)).Reaches () (studyWarmup ++ studyExit) r records ∧
      ∃ record ∈ records, record.eventType = .market ∧
        record.decision.map (·.action) = some .exit ∧
        record.valuation.map (·.netEquityUsdt) = some 0 := by
  let := Arithmetic.python
  have hrun : ((studyBacktest (101001 / 10)).replay () (studyWarmup ++ studyExit)).toOption.any
      (fun s => s.2.any fun record => record.eventType = .market ∧
        record.decision.map (·.action) = some .exit ∧
        record.valuation.map (·.netEquityUsdt) = some 0) = true := by
    decide +kernel
  obtain ⟨r, records, hreaches, hfound⟩ := Backtest.reaches_of_replay hrun
  obtain ⟨record, hmem, htest⟩ := List.any_eq_true.mp hfound
  exact ⟨r, records, hreaches, record, hmem, of_decide_eq_true htest⟩

end Strategy
end PerpCarry
