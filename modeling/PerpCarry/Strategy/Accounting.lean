import Mathlib.Data.Finset.Insert
import Mathlib.Algebra.Order.Group.Unbundled.Abs
import PerpCarry.Lib.EventRun
import PerpCarry.Strategy.Fees

/-!
# Strategy.Accounting

Cash accounting of a long-spot/short-perp position:
`python/perpcarry/strategy/accounting.py`.

`Ledger.fill`, `Ledger.settle` and `Ledger.finance` either refuse an event or return the next
ledger, every operation rounded as in the ledger's context. The lemmas `fill_iff`, `settle_iff` and
`finance_iff` say once what an accepted event has passed and what it changes, `fill_ok`, `settle_ok`
and `finance_ok` the same of exact numbers; later modules use them and never unfold the functions.
-/

namespace PerpCarry
namespace Strategy

open Arithmetic (inLedger)

def HOUR_MS : Int := 3600000
def SETTLEMENT_GUARD_MS : Int := 15000

structure Fill (K : Type) where
  eventId : String
  symbol : String
  timeMs : Int
  market : Market
  quantity : Decimal K
  price : Decimal K
  referenceMid : Decimal K
  deriving DecidableEq

structure FundingSettlement (K : Type) where
  eventId : String
  symbol : String
  timeMs : Int
  intervalHours : Int
  rate : Decimal K
  markPrice : Decimal K
  deriving DecidableEq

structure Marks (K : Type) where
  symbol : String
  timeMs : Int
  spot : Decimal K
  perp : Decimal K
  deriving DecidableEq

variable {K : Type} [Field K] [LinearOrder K]

@[ext] structure Leg (K : Type) where
  quantity : K
  basisUsdt : K
  realizedUsdt : K
  deriving DecidableEq

namespace Leg

def flat : Leg K := ⟨0, 0, 0⟩

/-- The leg after a trade, and the P&L the trade realized. Against the position, the average cost
of the whole position prices what is closed. -/
def trade [Arithmetic K] (self : Leg K) (quantity price : K) : Leg K × K :=
  if inLedger (self.quantity * quantity) < 0 then
    let average := inLedger (self.basisUsdt / self.quantity)
    let realized := inLedger (inLedger (-quantity) * inLedger (price - average))
    let basis := inLedger (inLedger (self.quantity + quantity) * average)
    (⟨inLedger (self.quantity + quantity), basis, inLedger (self.realizedUsdt + realized)⟩,
      realized)
  else
    let basis := inLedger (self.basisUsdt + inLedger (quantity * price))
    (⟨inLedger (self.quantity + quantity), basis, inLedger (self.realizedUsdt + 0)⟩, 0)

/-- `unrealized`, in the context of the caller. -/
def unrealizedIn (self : Leg K) (rnd : K → K) (mark : K) : K :=
  rnd (rnd (self.quantity * mark) - self.basisUsdt)

def unrealized (self : Leg K) (mark : K) : K := self.quantity * mark - self.basisUsdt

variable (leg : Leg K) (quantity price : K)

theorem trade_rounded [Arithmetic K] :
    (leg.trade quantity price).1.quantity = inLedger (leg.quantity + quantity) := by
  unfold trade; split <;> rfl

theorem trade_exact : leg.trade quantity price =
    if leg.quantity * quantity < 0 then
      let average := leg.basisUsdt / leg.quantity
      let realized := -quantity * (price - average)
      (⟨leg.quantity + quantity, (leg.quantity + quantity) * average,
        leg.realizedUsdt + realized⟩, realized)
    else
      (⟨leg.quantity + quantity, leg.basisUsdt + quantity * price, leg.realizedUsdt + 0⟩, 0) := rfl

@[simp] theorem trade_quantity :
    (leg.trade quantity price).1.quantity = leg.quantity + quantity :=
  trade_rounded leg quantity price

theorem trade_realized :
    (leg.trade quantity price).1.realizedUsdt =
      leg.realizedUsdt + (leg.trade quantity price).2 := by
  rw [trade_exact]; split <;> rfl

end Leg

structure Valuation (K : Type) where
  timeMs : Int
  cashUsdt : K
  spotQuantity : K
  perpQuantity : K
  pricePnlUsdt : K
  fundingUsdt : K
  feesUsdt : K
  financingUsdt : K
  executionCostUsdt : K
  grossPnlUsdt : K
  netPnlUsdt : K
  grossEquityUsdt : K
  netEquityUsdt : K
  deriving DecidableEq

structure Ledger (K : Type) [Field K] [LinearOrder K] where
  symbol : String
  initialCapitalUsdt : K
  nextFundingMs : Int
  fees : FeeSchedule K
  cashUsdt : K
  timeMs : Int := 0
  spot : Leg K := .flat
  perp : Leg K := .flat
  fundingUsdt : K := 0
  feesUsdt : K := 0
  financingUsdt : K := 0
  executionCostUsdt : K := 0
  lastFundingMs : Option Int := none
  eventIds : Finset String := ∅
  deriving DecidableEq

namespace Ledger

def start (symbol : String) (initialCapitalUsdt : Decimal K) (nextFundingMs : Int)
    (fees : FeeSchedule K) : Except ValueError (Ledger K) := do
  let capital ← decimalPositive initialCapitalUsdt "initial_capital_usdt"
  timestamp nextFundingMs "next_funding_ms"
  raiseIf (symbol = "" ∨ nextFundingMs % HOUR_MS ≠ 0)
    "Require symbol, explicit fees and nominal hourly funding boundary"
  return { symbol, initialCapitalUsdt := capital, nextFundingMs, fees, cashUsdt := capital }

/-- `_event`. -/
def event (self : Ledger K) (eventId symbol : String) (timeMs : Int) : Except ValueError Unit := do
  timestamp timeMs "time_ms"
  raiseIf (eventId = "" ∨ eventId ∈ self.eventIds ∨ symbol ≠ self.symbol ∨ timeMs < self.timeMs)
    "Duplicate, backwards or out-of-scope accounting event"

def leg (self : Ledger K) : Market → Leg K
  | .spot => self.spot
  | .perp => self.perp

/-- `replace(self, **{market: updated})`. -/
def setLeg (self : Ledger K) (market : Market) (updated : Leg K) : Ledger K :=
  match market with
  | .spot => { self with spot := updated }
  | .perp => { self with perp := updated }

/-- A perp fill so near a settlement that it is unclear whether it earns the payment. -/
def SettlementAmbiguous (self : Ledger K) (timeMs : Int) : Prop :=
  self.nextFundingMs - timeMs ≤ SETTLEMENT_GUARD_MS ∨
    ∃ last ∈ self.lastFundingMs, timeMs - last ≤ SETTLEMENT_GUARD_MS

instance (self : Ledger K) (timeMs : Int) : Decidable (SettlementAmbiguous self timeMs) := by
  unfold SettlementAmbiguous
  cases self.lastFundingMs with
  | none => exact decidable_of_iff (self.nextFundingMs - timeMs ≤ SETTLEMENT_GUARD_MS) (by simp)
  | some last =>
    exact decidable_of_iff (self.nextFundingMs - timeMs ≤ SETTLEMENT_GUARD_MS ∨
      timeMs - last ≤ SETTLEMENT_GUARD_MS) (by simp)

/-- A spot leg may not go short, a perp leg may not go long. -/
def Reverses (market : Market) (updated : Leg K) : Prop :=
  market = .spot ∧ updated.quantity < 0 ∨ market = .perp ∧ 0 < updated.quantity

instance (market : Market) (updated : Leg K) : Decidable (Reverses market updated) := by
  unfold Reverses; infer_instance

/-- Spot is paid for in full; a perp trade moves cash only by what it realizes. -/
def cashChange [Arithmetic K] (market : Market) (quantity price realized : K) : K :=
  match market with
  | .spot => inLedger (inLedger (-quantity) * price)
  | .perp => realized

section Events

variable [Arithmetic K]

def fill (self : Ledger K) (event : Fill K) : Except ValueError (Ledger K) := do
  self.event event.eventId event.symbol event.timeMs
  let quantity ← decimal event.quantity "quantity"
  let price ← decimalPositive event.price "price"
  let mid ← decimalPositive event.referenceMid "reference_mid"
  raiseIf (quantity = 0) "Require nonzero actual spot/perp fill"
  raiseIf (self.nextFundingMs ≤ event.timeMs) "Missing funding settlement before fill"
  raiseIf (event.market = .perp ∧ self.SettlementAmbiguous event.timeMs)
    "Perp fill has ambiguous settlement eligibility"
  let (updated, realized) := (self.leg event.market).trade quantity price
  raiseIf (Reverses event.market updated) "Fill reverses the allowed carry leg"
  let rate ← self.fees.quote self.symbol event.market event.timeMs
  let fee := inLedger (inLedger (inLedger |quantity| * price) * rate)
  let change := cashChange event.market quantity price realized
  return { self.setLeg event.market updated with
    cashUsdt := inLedger (inLedger (self.cashUsdt + change) - fee)
    feesUsdt := inLedger (self.feesUsdt + fee)
    executionCostUsdt :=
      inLedger (self.executionCostUsdt + inLedger (quantity * inLedger (price - mid)))
    timeMs := event.timeMs
    eventIds := insert event.eventId self.eventIds }

def settle (self : Ledger K) (event : FundingSettlement K) : Except ValueError (Ledger K) := do
  self.event event.eventId event.symbol event.timeMs
  let rate ← decimal event.rate "rate"
  let mark ← decimalPositive event.markPrice "mark_price"
  raiseIf (event.timeMs ≠ self.nextFundingMs ∨
      ¬ (1 ≤ event.intervalHours ∧ event.intervalHours ≤ 24))
    "Missing/misaligned settlement or invalid per-row interval"
  let payment := inLedger (inLedger (inLedger (-self.perp.quantity) * mark) * rate)
  return { self with
    cashUsdt := inLedger (self.cashUsdt + payment)
    fundingUsdt := inLedger (self.fundingUsdt + payment)
    nextFundingMs := event.timeMs + event.intervalHours * HOUR_MS
    lastFundingMs := some event.timeMs
    timeMs := event.timeMs
    eventIds := insert event.eventId self.eventIds }

def finance (self : Ledger K) (eventId : String) (timeMs : Int) (costUsdt : Decimal K) :
    Except ValueError (Ledger K) := do
  self.event eventId self.symbol timeMs
  let cost ← decimal costUsdt "cost_usdt"
  raiseIf (cost < 0 ∨ self.nextFundingMs ≤ timeMs)
    "Negative financing or missing funding settlement"
  return { self with
    cashUsdt := inLedger (self.cashUsdt - cost)
    financingUsdt := inLedger (self.financingUsdt + cost)
    timeMs := timeMs
    eventIds := insert eventId self.eventIds }

def value (self : Ledger K) (marks : Marks K) : Except ValueError (Valuation K) := do
  timestamp marks.timeMs "time_ms"
  let spotMark ← decimalPositive marks.spot "spot mark"
  let perpMark ← decimalPositive marks.perp "perp mark"
  raiseIf (marks.symbol ≠ self.symbol ∨ marks.timeMs < self.timeMs ∨
      self.nextFundingMs ≤ marks.timeMs)
    "Backwards/out-of-scope marks or missing funding settlement"
  let spotPnl := inLedger (self.spot.realizedUsdt + self.spot.unrealizedIn inLedger spotMark)
  let pricePnl := inLedger (inLedger (spotPnl + self.perp.realizedUsdt) +
    self.perp.unrealizedIn inLedger perpMark)
  let equity := inLedger (inLedger (self.cashUsdt + inLedger (self.spot.quantity * spotMark)) +
    self.perp.unrealizedIn inLedger perpMark)
  let net := inLedger (equity - self.initialCapitalUsdt)
  let gross := inLedger (inLedger (pricePnl + self.fundingUsdt) + self.executionCostUsdt)
  return {
    timeMs := marks.timeMs
    cashUsdt := self.cashUsdt
    spotQuantity := self.spot.quantity
    perpQuantity := self.perp.quantity
    pricePnlUsdt := pricePnl
    fundingUsdt := self.fundingUsdt
    feesUsdt := self.feesUsdt
    financingUsdt := self.financingUsdt
    executionCostUsdt := self.executionCostUsdt
    grossPnlUsdt := gross
    netPnlUsdt := net
    grossEquityUsdt := inLedger (self.initialCapitalUsdt + gross)
    netEquityUsdt := equity }

end Events

/-- What an accepted fill has passed, its decimals read as `quantity`, `price` and `mid`. -/
structure FillAccepted [Arithmetic K] (l : Ledger K) (e : Fill K) (quantity price mid rate : K) :
    Prop where
  event : l.event e.eventId e.symbol e.timeMs = .ok ()
  quantity_eq : e.quantity = .finite quantity
  price_eq : e.price = .finite price
  mid_eq : e.referenceMid = .finite mid
  price_pos : 0 < price
  mid_pos : 0 < mid
  quantity_ne : quantity ≠ 0
  before_funding : e.timeMs < l.nextFundingMs
  clear : e.market = .perp → ¬ l.SettlementAmbiguous e.timeMs
  keeps_side : ¬ Reverses e.market ((l.leg e.market).trade quantity price).1
  quoted : l.fees.quote l.symbol e.market e.timeMs = .ok rate

variable {self self' : Ledger K}

theorem event_ok {eventId symbol : String} {timeMs : Int} {x : Unit} :
    self.event eventId symbol timeMs = .ok x ↔
      0 ≤ timeMs ∧ eventId ≠ "" ∧ eventId ∉ self.eventIds ∧ symbol = self.symbol ∧
        self.timeMs ≤ timeMs := by
  simp only [event, bind_ok, timestamp_ok, raiseIf_ok, not_or, Decidable.not_not, not_lt]
  constructor
  · rintro ⟨_, hpos, hid, hnew, hsymbol, hclock⟩
    exact ⟨hpos, hid, hnew, hsymbol, hclock⟩
  · rintro ⟨hpos, hid, hnew, hsymbol, hclock⟩
    exact ⟨(), hpos, hid, hnew, hsymbol, hclock⟩

theorem start_ok {symbol : String} {initial : Decimal K} {next : Int} {fees : FeeSchedule K} :
    start symbol initial next fees = .ok self ↔
      ∃ capital, (initial = .finite capital ∧ 0 < capital) ∧ 0 ≤ next ∧
        ¬ (symbol = "" ∨ next % HOUR_MS ≠ 0) ∧
        { symbol, initialCapitalUsdt := capital, nextFundingMs := next, fees,
          cashUsdt := capital } = self := by
  simp only [start, bind_ok, decimalPositive_ok, timestamp_ok, raiseIf_ok, pure_ok]
  constructor
  · rintro ⟨capital, hcap, _, hnext, _, hreq, rfl⟩
    exact ⟨capital, hcap, hnext, hreq, rfl⟩
  · rintro ⟨capital, hcap, hnext, hreq, rfl⟩
    exact ⟨capital, hcap, (), hnext, (), hreq, rfl⟩

@[simp] theorem leg_setLeg (market other : Market) (updated : Leg K) :
    (self.setLeg market updated).leg other = if other = market then updated else self.leg other := by
  cases market <;> cases other <;> rfl

section Rounded

variable [Arithmetic K]

theorem fill_iff {e : Fill K} :
    self.fill e = .ok self' ↔ ∃ quantity price mid rate,
      self.FillAccepted e quantity price mid rate ∧
      { self.setLeg e.market ((self.leg e.market).trade quantity price).1 with
        cashUsdt := inLedger (inLedger (self.cashUsdt + cashChange e.market quantity price
          ((self.leg e.market).trade quantity price).2) -
            inLedger (inLedger (inLedger |quantity| * price) * rate))
        feesUsdt := inLedger (self.feesUsdt +
          inLedger (inLedger (inLedger |quantity| * price) * rate))
        executionCostUsdt :=
          inLedger (self.executionCostUsdt + inLedger (quantity * inLedger (price - mid)))
        timeMs := e.timeMs
        eventIds := insert e.eventId self.eventIds } = self' := by
  simp only [fill, bind_ok, decimal_ok, decimalPositive_ok, raiseIf_ok, pure_ok]
  constructor
  · rintro ⟨_, hev, q, hq, p, ⟨hp, hpp⟩, m, ⟨hm, hmp⟩, _, hne, _, hbf, _, hcl, _, hks, rate, hr, rfl⟩
    exact ⟨q, p, m, rate, ⟨hev, hq, hp, hm, hpp, hmp, hne, by omega, fun h hs => hcl ⟨h, hs⟩,
      hks, hr⟩, rfl⟩
  · rintro ⟨q, p, m, rate, h, rfl⟩
    exact ⟨(), h.event, q, h.quantity_eq, p, ⟨h.price_eq, h.price_pos⟩, m, ⟨h.mid_eq, h.mid_pos⟩,
      (), h.quantity_ne, (), by have := h.before_funding; omega, (), fun hc => h.clear hc.1 hc.2,
      (), h.keeps_side, rate, h.quoted, rfl⟩

theorem settle_iff {e : FundingSettlement K} :
    self.settle e = .ok self' ↔ ∃ rate mark,
      (self.event e.eventId e.symbol e.timeMs = .ok () ∧ e.rate = .finite rate ∧
        (e.markPrice = .finite mark ∧ 0 < mark) ∧ e.timeMs = self.nextFundingMs ∧
        1 ≤ e.intervalHours ∧ e.intervalHours ≤ 24) ∧
      { self with
        cashUsdt := inLedger (self.cashUsdt +
          inLedger (inLedger (inLedger (-self.perp.quantity) * mark) * rate))
        fundingUsdt := inLedger (self.fundingUsdt +
          inLedger (inLedger (inLedger (-self.perp.quantity) * mark) * rate))
        nextFundingMs := e.timeMs + e.intervalHours * HOUR_MS
        lastFundingMs := some e.timeMs
        timeMs := e.timeMs
        eventIds := insert e.eventId self.eventIds } = self' := by
  simp only [settle, bind_ok, decimal_ok, decimalPositive_ok, raiseIf_ok, pure_ok, not_or,
    Decidable.not_not]
  constructor
  · rintro ⟨_, hev, rate, hr, mark, hm, _, ⟨ht, hlo, hhi⟩, rfl⟩
    exact ⟨rate, mark, ⟨hev, hr, hm, ht, hlo, hhi⟩, rfl⟩
  · rintro ⟨rate, mark, ⟨hev, hr, hm, ht, hlo, hhi⟩, rfl⟩
    exact ⟨(), hev, rate, hr, mark, hm, (), ⟨ht, hlo, hhi⟩, rfl⟩

theorem finance_iff {eventId : String} {timeMs : Int} {costUsdt : Decimal K} :
    self.finance eventId timeMs costUsdt = .ok self' ↔ ∃ cost,
      (self.event eventId self.symbol timeMs = .ok () ∧ costUsdt = .finite cost ∧ 0 ≤ cost ∧
        timeMs < self.nextFundingMs) ∧
      { self with
        cashUsdt := inLedger (self.cashUsdt - cost)
        financingUsdt := inLedger (self.financingUsdt + cost)
        timeMs := timeMs
        eventIds := insert eventId self.eventIds } = self' := by
  simp only [finance, bind_ok, decimal_ok, raiseIf_ok, pure_ok, not_or, not_lt, not_le]
  constructor
  · rintro ⟨_, hev, cost, hc, _, ⟨hpos, ht⟩, rfl⟩
    exact ⟨cost, ⟨hev, hc, hpos, ht⟩, rfl⟩
  · rintro ⟨cost, ⟨hev, hc, hpos, ht⟩, rfl⟩
    exact ⟨(), hev, cost, hc, (), ⟨hpos, ht⟩, rfl⟩

theorem value_iff {marks : Marks K} {v : Valuation K} :
    self.value marks = .ok v ↔ ∃ spotMark perpMark,
      (0 ≤ marks.timeMs ∧ (marks.spot = .finite spotMark ∧ 0 < spotMark) ∧
        (marks.perp = .finite perpMark ∧ 0 < perpMark) ∧ marks.symbol = self.symbol ∧
        self.timeMs ≤ marks.timeMs ∧ marks.timeMs < self.nextFundingMs) ∧
      let spotPnl := inLedger (self.spot.realizedUsdt + self.spot.unrealizedIn inLedger spotMark)
      let pricePnl := inLedger (inLedger (spotPnl + self.perp.realizedUsdt) +
        self.perp.unrealizedIn inLedger perpMark)
      let equity := inLedger (inLedger (self.cashUsdt + inLedger (self.spot.quantity * spotMark)) +
        self.perp.unrealizedIn inLedger perpMark)
      let gross := inLedger (inLedger (pricePnl + self.fundingUsdt) + self.executionCostUsdt)
      (⟨marks.timeMs, self.cashUsdt, self.spot.quantity, self.perp.quantity, pricePnl,
        self.fundingUsdt, self.feesUsdt, self.financingUsdt, self.executionCostUsdt, gross,
        inLedger (equity - self.initialCapitalUsdt),
        inLedger (self.initialCapitalUsdt + gross), equity⟩ : Valuation K) = v := by
  simp only [value, bind_ok, timestamp_ok, decimalPositive_ok, raiseIf_ok, pure_ok, not_or,
    Decidable.not_not, not_lt, not_le]
  constructor
  · rintro ⟨_, ht, s, hs, p, hp, _, ⟨hsym, hlo, hhi⟩, rfl⟩
    exact ⟨s, p, ⟨ht, hs, hp, hsym, hlo, hhi⟩, rfl⟩
  · rintro ⟨s, p, ⟨ht, hs, hp, hsym, hlo, hhi⟩, rfl⟩
    exact ⟨(), ht, s, hs, p, hp, (), ⟨hsym, hlo, hhi⟩, rfl⟩

theorem fill_scope {e : Fill K} (h : self.fill e = .ok self') :
    self'.fees = self.fees ∧ self'.symbol = self.symbol := by
  obtain ⟨quantity, price, mid, rate, hacc, rfl⟩ := fill_iff.mp h
  cases e.market with
  | spot => exact ⟨rfl, rfl⟩
  | perp => exact ⟨rfl, rfl⟩

/-- What a fill does to the cash and to the legs, in the digits of the ledger. -/
theorem fill_booked {e : Fill K} (h : self.fill e = .ok self') :
    ∃ price rate, e.price = .finite price ∧
      self.fees.quote self.symbol e.market e.timeMs = .ok rate ∧
      self'.cashUsdt = inLedger (inLedger (self.cashUsdt +
        cashChange e.market e.quantity.value price
          ((self.leg e.market).trade e.quantity.value price).2) -
            inLedger (inLedger (inLedger |e.quantity.value| * price) * rate)) ∧
      self'.leg e.market = ((self.leg e.market).trade e.quantity.value price).1 ∧
      (∀ other, other ≠ e.market → self'.leg other = self.leg other) ∧
      self'.fees = self.fees ∧ self'.symbol = self.symbol := by
  obtain ⟨quantity, price, mid, rate, hacc, rfl⟩ := fill_iff.mp h
  rw [hacc.quantity_eq]
  refine ⟨price, rate, hacc.price_eq, hacc.quoted, rfl, ?_, ?_, ?_, ?_⟩
  · show (self.setLeg _ _).leg e.market = _
    rw [leg_setLeg, if_pos rfl]
    rfl
  · intro other hne
    show (self.setLeg _ _).leg other = _
    rw [leg_setLeg, if_neg hne]
  · cases e.market <;> rfl
  · cases e.market <;> rfl

end Rounded

/-! ### Exact numbers -/

theorem fill_ok {e : Fill K} :
    self.fill e = .ok self' ↔ ∃ quantity price mid rate,
      self.FillAccepted e quantity price mid rate ∧
      { self.setLeg e.market ((self.leg e.market).trade quantity price).1 with
        cashUsdt := self.cashUsdt + cashChange e.market quantity price
          ((self.leg e.market).trade quantity price).2 - |quantity| * price * rate
        feesUsdt := self.feesUsdt + |quantity| * price * rate
        executionCostUsdt := self.executionCostUsdt + quantity * (price - mid)
        timeMs := e.timeMs
        eventIds := insert e.eventId self.eventIds } = self' :=
  fill_iff

theorem settle_ok {e : FundingSettlement K} :
    self.settle e = .ok self' ↔ ∃ rate mark,
      (self.event e.eventId e.symbol e.timeMs = .ok () ∧ e.rate = .finite rate ∧
        (e.markPrice = .finite mark ∧ 0 < mark) ∧ e.timeMs = self.nextFundingMs ∧
        1 ≤ e.intervalHours ∧ e.intervalHours ≤ 24) ∧
      { self with
        cashUsdt := self.cashUsdt + -self.perp.quantity * mark * rate
        fundingUsdt := self.fundingUsdt + -self.perp.quantity * mark * rate
        nextFundingMs := e.timeMs + e.intervalHours * HOUR_MS
        lastFundingMs := some e.timeMs
        timeMs := e.timeMs
        eventIds := insert e.eventId self.eventIds } = self' :=
  settle_iff

theorem finance_ok {eventId : String} {timeMs : Int} {costUsdt : Decimal K} :
    self.finance eventId timeMs costUsdt = .ok self' ↔ ∃ cost,
      (self.event eventId self.symbol timeMs = .ok () ∧ costUsdt = .finite cost ∧ 0 ≤ cost ∧
        timeMs < self.nextFundingMs) ∧
      { self with
        cashUsdt := self.cashUsdt - cost
        financingUsdt := self.financingUsdt + cost
        timeMs := timeMs
        eventIds := insert eventId self.eventIds } = self' :=
  finance_iff

theorem value_ok {marks : Marks K} {v : Valuation K} :
    self.value marks = .ok v ↔ ∃ spotMark perpMark,
      (0 ≤ marks.timeMs ∧ (marks.spot = .finite spotMark ∧ 0 < spotMark) ∧
        (marks.perp = .finite perpMark ∧ 0 < perpMark) ∧ marks.symbol = self.symbol ∧
        self.timeMs ≤ marks.timeMs ∧ marks.timeMs < self.nextFundingMs) ∧
      let pricePnl := self.spot.realizedUsdt + self.spot.unrealized spotMark +
        self.perp.realizedUsdt + self.perp.unrealized perpMark
      let equity := self.cashUsdt + self.spot.quantity * spotMark + self.perp.unrealized perpMark
      let gross := pricePnl + self.fundingUsdt + self.executionCostUsdt
      (⟨marks.timeMs, self.cashUsdt, self.spot.quantity, self.perp.quantity, pricePnl,
        self.fundingUsdt, self.feesUsdt, self.financingUsdt, self.executionCostUsdt, gross,
        equity - self.initialCapitalUsdt, self.initialCapitalUsdt + gross, equity⟩ :
          Valuation K) = v :=
  value_iff

theorem fill_quantity {e : Fill K} (h : self.fill e = .ok self') (market : Market) :
    (self'.leg market).quantity =
      (self.leg market).quantity + if e.market = market then e.quantity.value else 0 := by
  obtain ⟨quantity, price, mid, rate, hacc, rfl⟩ := fill_ok.mp h
  show ((self.setLeg _ _).leg market).quantity = _
  rw [leg_setLeg, hacc.quantity_eq]
  by_cases hm : market = e.market
  · subst hm
    rw [if_pos rfl, if_pos rfl, Leg.trade_quantity]
    rfl
  · rw [if_neg hm, if_neg (Ne.symm hm), add_zero]

theorem fill_cash {e : Fill K} (h : self.fill e = .ok self') :
    ∃ price rate, e.price = .finite price ∧
      self.fees.quote self.symbol e.market e.timeMs = .ok rate ∧
      self'.cashUsdt = self.cashUsdt + cashChange e.market e.quantity.value price
        ((self.leg e.market).trade e.quantity.value price).2 -
          |e.quantity.value| * price * rate ∧
      self'.leg e.market = ((self.leg e.market).trade e.quantity.value price).1 ∧
      (∀ other, other ≠ e.market → self'.leg other = self.leg other) ∧
      self'.fees = self.fees ∧ self'.symbol = self.symbol :=
  fill_booked h

theorem fill_ne_zero {e : Fill K} (h : self.fill e = .ok self') : e.quantity.value ≠ 0 := by
  obtain ⟨quantity, price, mid, rate, hacc, rfl⟩ := fill_ok.mp h
  rw [hacc.quantity_eq]
  exact hacc.quantity_ne

end Ledger

/-- A call on a ledger. -/
inductive LedgerEvent (K : Type) where
  | fill (event : Fill K)
  | settle (event : FundingSettlement K)
  | finance (eventId : String) (timeMs : Int) (costUsdt : Decimal K)

def Ledger.step [Arithmetic K] (self : Ledger K) : LedgerEvent K → Except ValueError (Ledger K)
  | .fill event => self.fill event
  | .settle event => self.settle event
  | .finance eventId timeMs costUsdt => self.finance eventId timeMs costUsdt

def Ledger.run [Arithmetic K] (self : Ledger K) (events : List (LedgerEvent K)) :
    Except ValueError (Ledger K) :=
  Lib.run Ledger.step self events

end Strategy
end PerpCarry
