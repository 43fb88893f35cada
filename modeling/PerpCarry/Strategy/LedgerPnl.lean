import Mathlib.Tactic.FieldSimp
import Mathlib.Tactic.Ring
import Mathlib.Algebra.BigOperators.Group.List.Basic
import PerpCarry.Strategy.Accounting

/-!
# Strategy.LedgerPnl

The two P&L figures of a ledger against the fills of its run.

The ledger keeps average-cost legs and a cash account on which the two markets settle differently.
`Books` says what both hold in terms of the fills so far: the quantity held on each leg, what its
fills paid, and what they would have paid at the mid.

* `trade_basis`: one trade moves basis less realized P&L by what the trade pays, also when it
  closes at the average cost.
* `step_books`, `run_books`: one event, and a run of any length, keep `Books`.
* `value_pnl`: gross P&L is the fills marked from their reference mids, plus funding, and net P&L,
  which comes from the cash account, is gross less costs.
-/

namespace PerpCarry
namespace Strategy

variable {K : Type}

def fillsOf : List (LedgerEvent K) → List (Fill K)
  | [] => []
  | .fill f :: events => f :: fillsOf events
  | .settle _ :: events => fillsOf events
  | .finance _ _ _ :: events => fillsOf events

theorem fillsOf_append (past events : List (LedgerEvent K)) :
    fillsOf (past ++ events) = fillsOf past ++ fillsOf events := by
  induction past with
  | nil => rfl
  | cons e past ih => cases e <;> simp [fillsOf, ih]

section Sums

variable [Field K] {past : List (LedgerEvent K)} {market : Market} {amount : Fill K → K}

/-- The fills' `amount`, summed over one market. -/
def onMarket (market : Market) (amount : Fill K → K) (events : List (LedgerEvent K)) : K :=
  ((fillsOf events).map fun f => if f.market = market then amount f else 0).sum

def Fill.notional (f : Fill K) : K := f.quantity.value * f.price.value
def Fill.midNotional (f : Fill K) : K := f.quantity.value * f.referenceMid.value

def held (market : Market) : List (LedgerEvent K) → K := onMarket market fun f => f.quantity.value
def paid (market : Market) : List (LedgerEvent K) → K := onMarket market Fill.notional
def paidAtMid (market : Market) : List (LedgerEvent K) → K := onMarket market Fill.midNotional

def Marks.mark (marks : Marks K) : Market → K
  | .spot => marks.spot.value
  | .perp => marks.perp.value

@[simp] theorem onMarket_fill (f : Fill K) :
    onMarket market amount (past ++ [.fill f]) =
      onMarket market amount past + if f.market = market then amount f else 0 := by
  simp [onMarket, fillsOf_append, fillsOf]

@[simp] theorem onMarket_settle (e : FundingSettlement K) :
    onMarket market amount (past ++ [.settle e]) = onMarket market amount past := by
  simp [onMarket, fillsOf_append, fillsOf]

@[simp] theorem onMarket_finance (eventId : String) (timeMs : Int) (cost : Decimal K) :
    onMarket market amount (past ++ [.finance eventId timeMs cost]) =
      onMarket market amount past := by
  simp [onMarket, fillsOf_append, fillsOf]

/-- The fills marked from their mids: each leg's quantity at its mark, less the value at mid. -/
theorem sum_marked (marks : Marks K) (events : List (LedgerEvent K)) :
    ((fillsOf events).map fun f =>
        f.quantity.value * (marks.mark f.market - f.referenceMid.value)).sum =
      held .spot events * marks.mark .spot - paidAtMid .spot events +
        (held .perp events * marks.mark .perp - paidAtMid .perp events) := by
  simp only [held, paidAtMid, onMarket]
  induction fillsOf events with
  | nil => simp
  | cons f fs ih =>
    simp only [List.map_cons, List.sum_cons, ih]
    cases hm : f.market <;> simp [Fill.midNotional] <;> ring

end Sums

variable [Field K] [LinearOrder K]

theorem trade_basis (leg : Leg K) (quantity price : K) :
    (leg.trade quantity price).1.basisUsdt - (leg.trade quantity price).1.realizedUsdt =
      leg.basisUsdt - leg.realizedUsdt + quantity * price := by
  unfold Leg.trade
  split
  · rename_i closing
    have hne : leg.quantity ≠ 0 := by
      intro h0
      rw [h0, zero_mul] at closing
      exact lt_irrefl _ closing
    show (leg.quantity + quantity) * (leg.basisUsdt / leg.quantity) -
      (leg.realizedUsdt + -quantity * (price - leg.basisUsdt / leg.quantity)) = _
    field_simp
    ring
  · show leg.basisUsdt + quantity * price - (leg.realizedUsdt + 0) = _
    ring

/-- The ledger's account of the fills so far. Spot was paid for in full, the perp leg settles only
what it realized. -/
structure Books (initial : K) (past : List (LedgerEvent K)) (l : Ledger K) : Prop where
  initial_eq : l.initialCapitalUsdt = initial
  quantity_eq : ∀ market, (l.leg market).quantity = held market past
  basis_eq : ∀ market, (l.leg market).basisUsdt - (l.leg market).realizedUsdt = paid market past
  cash_eq : l.cashUsdt = initial - paid .spot past + l.perp.realizedUsdt + l.fundingUsdt -
    l.feesUsdt - l.financingUsdt
  execution_eq : l.executionCostUsdt = paid .spot past - paidAtMid .spot past +
    (paid .perp past - paidAtMid .perp past)

section Step

variable {l l' : Ledger K} {initial : K} {past : List (LedgerEvent K)}

theorem fill_books {e : Fill K} (h : Books initial past l) (hs : l.fill e = .ok l') :
    Books initial (past ++ [.fill e]) l' := by
  obtain ⟨quantity, price, mid, rate, hacc, rfl⟩ := Ledger.fill_ok.mp hs
  have hquantity : e.quantity.value = quantity := by rw [hacc.quantity_eq]; rfl
  have hprice : e.price.value = price := by rw [hacc.price_eq]; rfl
  have hmid : e.referenceMid.value = mid := by rw [hacc.mid_eq]; rfl
  constructor
  · show (l.setLeg _ _).initialCapitalUsdt = initial
    cases e.market <;> exact h.initial_eq
  · intro market
    show ((l.setLeg _ _).leg market).quantity = _
    have := h.quantity_eq market
    simp only [Ledger.leg_setLeg, held, onMarket_fill, hquantity] at this ⊢
    by_cases hm : market = e.market
    · subst hm
      rw [if_pos rfl, if_pos rfl, Leg.trade_quantity, this]
    · rw [if_neg hm, if_neg (Ne.symm hm), this, add_zero]
  · intro market
    show ((l.setLeg _ _).leg market).basisUsdt - ((l.setLeg _ _).leg market).realizedUsdt = _
    have := h.basis_eq market
    simp only [Ledger.leg_setLeg, paid, onMarket_fill] at this ⊢
    by_cases hm : market = e.market
    · subst hm
      rw [if_pos rfl, if_pos rfl, trade_basis, this, Fill.notional, hquantity, hprice]
    · rw [if_neg hm, if_neg (Ne.symm hm), this, add_zero]
  · have := h.cash_eq
    have hrealized := Leg.trade_realized (l.leg e.market) quantity price
    cases hm : e.market
    all_goals
      simp only [hm, Ledger.leg, Ledger.setLeg, Ledger.cashChange, paid, onMarket_fill,
        Fill.notional, hquantity, hprice, Arithmetic.inLedger_exact] at hrealized this ⊢
      grind
  · have := h.execution_eq
    cases hm : e.market
    all_goals
      simp only [hm, paid, paidAtMid, onMarket_fill, Fill.notional,
        Fill.midNotional, hquantity, hprice, hmid] at this ⊢
      grind

theorem settle_books {e : FundingSettlement K} (h : Books initial past l)
    (hs : l.settle e = .ok l') : Books initial (past ++ [.settle e]) l' := by
  obtain ⟨rate, mark, _, rfl⟩ := Ledger.settle_ok.mp hs
  refine ⟨h.initial_eq, fun market => ?_, fun market => ?_, ?_, ?_⟩
  · show (l.leg market).quantity = _
    rw [h.quantity_eq, held, onMarket_settle]
  · show (l.leg market).basisUsdt - (l.leg market).realizedUsdt = _
    rw [h.basis_eq, paid, onMarket_settle]
  · have := h.cash_eq
    simp only [paid, onMarket_settle] at this ⊢
    rw [this]
    ring
  · simpa [paid, paidAtMid] using h.execution_eq

theorem finance_books {eventId : String} {timeMs : Int} {costUsdt : Decimal K}
    (h : Books initial past l) (hs : l.finance eventId timeMs costUsdt = .ok l') :
    Books initial (past ++ [.finance eventId timeMs costUsdt]) l' := by
  obtain ⟨cost, _, rfl⟩ := Ledger.finance_ok.mp hs
  refine ⟨h.initial_eq, fun market => ?_, fun market => ?_, ?_, ?_⟩
  · show (l.leg market).quantity = _
    rw [h.quantity_eq, held, onMarket_finance]
  · show (l.leg market).basisUsdt - (l.leg market).realizedUsdt = _
    rw [h.basis_eq, paid, onMarket_finance]
  · have := h.cash_eq
    simp only [paid, onMarket_finance] at this ⊢
    rw [this]
    ring
  · simpa [paid, paidAtMid] using h.execution_eq

theorem step_books {e : LedgerEvent K} (h : Books initial past l) (hs : l.step e = .ok l') :
    Books initial (past ++ [e]) l' := by
  cases e with
  | fill e => exact fill_books h hs
  | settle e => exact settle_books h hs
  | finance eventId timeMs costUsdt => exact finance_books h hs

theorem start_books {symbol : String} {capital : Decimal K} {next : Int} {fees : FeeSchedule K}
    (h : Ledger.start symbol capital next fees = .ok l) : Books capital.value [] l := by
  obtain ⟨c, ⟨rfl, _⟩, _, _, rfl⟩ := Ledger.start_ok.mp h
  constructor
  · rfl
  · intro market; cases market <;> rfl
  · intro market; cases market <;> simp [Ledger.leg, Leg.flat, paid, onMarket, fillsOf]
  · simp [Leg.flat, paid, onMarket, fillsOf, Decimal.value]
  · simp [paid, paidAtMid, onMarket, fillsOf]

theorem run_books {events : List (LedgerEvent K)} (h : Books initial past l)
    (hs : l.run events = .ok l') : Books initial (past ++ events) l' :=
  Lib.run_history (Books initial) (fun _ _ _ _ => step_books) past h hs

end Step

/-- The two P&L figures of every accepted valuation after every accepted run. -/
theorem value_pnl {symbol : String} {capital : Decimal K} {next : Int} {fees : FeeSchedule K}
    {opened l : Ledger K} {events : List (LedgerEvent K)} {marks : Marks K} {v : Valuation K}
    (hstart : Ledger.start symbol capital next fees = .ok opened)
    (hrun : opened.run events = .ok l) (hvalue : l.value marks = .ok v) :
    v.grossPnlUsdt =
        ((fillsOf events).map fun f =>
          f.quantity.value * (marks.mark f.market - f.referenceMid.value)).sum + v.fundingUsdt ∧
      v.netPnlUsdt = v.grossPnlUsdt - v.executionCostUsdt - v.feesUsdt - v.financingUsdt := by
  have h : Books capital.value events l := run_books (start_books hstart) hrun
  obtain ⟨spotMark, perpMark, ⟨_, ⟨hspot, _⟩, ⟨hperp, _⟩, _⟩, rfl⟩ := Ledger.value_ok.mp hvalue
  have hsm : marks.mark .spot = spotMark := by simp [Marks.mark, hspot, Decimal.value]
  have hpm : marks.mark .perp = perpMark := by simp [Marks.mark, hperp, Decimal.value]
  have hsb : l.spot.basisUsdt - l.spot.realizedUsdt = paid .spot events := h.basis_eq .spot
  have hpb : l.perp.basisUsdt - l.perp.realizedUsdt = paid .perp events := h.basis_eq .perp
  have hsq : l.spot.quantity = held .spot events := h.quantity_eq .spot
  have hpq : l.perp.quantity = held .perp events := h.quantity_eq .perp
  have hexec := h.execution_eq
  rw [sum_marked, hsm, hpm]
  simp only [Leg.unrealized]
  constructor
  · rw [hexec, ← hsb, ← hpb, ← hsq, ← hpq]
    ring
  · rw [h.cash_eq, h.initial_eq, ← hsb]
    ring

theorem btcusdt_ne : "BTCUSDT" ≠ "" := by decide

theorem epoch_nonneg : (0 : Int) ≤ 0 := le_rfl

def takerPeriod (market : Market) (rate : ℚ) (h : 0 ≤ rate ∧ rate < 1) : FeePeriod ℚ where
  symbol := "BTCUSDT"
  market := market
  startMs := 0
  endMs := 100 * HOUR_MS
  takerFraction := rate
  source := "https://example.org/synthetic-fees"
  observedAtMs := 0
  kind := .assumption
  start_nonneg := epoch_nonneg
  observed_nonneg := epoch_nonneg
  symbol_ne := btcusdt_ne
  span := by decide
  fraction_nonneg := h.1
  fraction_lt := h.2
  https := by decide

def takerFees : FeeSchedule ℚ where
  periods := [takerPeriod .spot (1 / 1000) (by decide +kernel),
    takerPeriod .perp (1 / 2000) (by decide +kernel)]
  allowAssumptions := true
  nonempty := by decide
  disjoint := by decide

/-- Both legs opened, one funding payment, both legs closed, a financing charge. -/
def roundTrip : List (LedgerEvent ℚ) := [
  .fill ⟨"open spot", "BTCUSDT", 1000, .spot, .finite 2, .finite 101, .finite 100⟩,
  .fill ⟨"open perp", "BTCUSDT", 1000, .perp, .finite (-2), .finite 99, .finite 100⟩,
  .settle ⟨"fund", "BTCUSDT", 28800000, 8, .finite (1 / 1000), .finite 110⟩,
  .fill ⟨"close spot", "BTCUSDT", 28816000, .spot, .finite (-2), .finite 109, .finite 110⟩,
  .fill ⟨"close perp", "BTCUSDT", 28816000, .perp, .finite 2, .finite 113, .finite 112⟩,
  .finance "financing" 28817000 (.finite (1 / 2))]

def roundTripStart : Ledger ℚ where
  symbol := "BTCUSDT"
  initialCapitalUsdt := 10000
  nextFundingMs := 28800000
  fees := takerFees
  cashUsdt := 10000

def roundTripEnd : Ledger ℚ where
  symbol := "BTCUSDT"
  initialCapitalUsdt := 10000
  nextFundingMs := 57600000
  fees := takerFees
  cashUsdt := 9987088 / 1000
  timeMs := 28817000
  spot := ⟨0, 0, 16⟩
  perp := ⟨0, 0, -28⟩
  fundingUsdt := 22 / 100
  feesUsdt := 632 / 1000
  financingUsdt := 1 / 2
  executionCostUsdt := 8
  lastFundingMs := some 28800000
  eventIds := {"financing", "close perp", "close spot", "fund", "open perp", "open spot"}

def roundTripValue : Valuation ℚ where
  timeMs := 28817000
  cashUsdt := 9987088 / 1000
  spotQuantity := 0
  perpQuantity := 0
  pricePnlUsdt := -12
  fundingUsdt := 22 / 100
  feesUsdt := 632 / 1000
  financingUsdt := 1 / 2
  executionCostUsdt := 8
  grossPnlUsdt := -378 / 100
  netPnlUsdt := -12912 / 1000
  grossEquityUsdt := 999622 / 100
  netEquityUsdt := 9987088 / 1000

def roundTripMarks : Marks ℚ := ⟨"BTCUSDT", 28817000, .finite 110, .finite 112⟩

theorem value_pnl_roundTrip :
    roundTripValue.grossPnlUsdt =
        ((fillsOf roundTrip).map fun f =>
          f.quantity.value * (roundTripMarks.mark f.market - f.referenceMid.value)).sum +
            roundTripValue.fundingUsdt ∧
      roundTripValue.netPnlUsdt = roundTripValue.grossPnlUsdt - roundTripValue.executionCostUsdt -
        roundTripValue.feesUsdt - roundTripValue.financingUsdt := by
  have hstart : Ledger.start "BTCUSDT" (.finite 10000) 28800000 takerFees = .ok roundTripStart := by
    rfl
  have hrun : roundTripStart.run roundTrip = .ok roundTripEnd := by decide +kernel
  have hvalue : roundTripEnd.value roundTripMarks = .ok roundTripValue := by decide +kernel
  exact value_pnl hstart hrun hvalue

end Strategy
end PerpCarry
