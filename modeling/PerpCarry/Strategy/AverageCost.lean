import Mathlib.Tactic.Linarith
import Mathlib.Tactic.Positivity
import PerpCarry.Strategy.LedgerPnl

/-!
# Strategy.AverageCost

The basis of a leg: `Leg.trade` of `python/perpcarry/strategy/accounting.py` over a run.

A leg keeps a quantity and a basis, not its fills. `Lots` keeps the fills that a leg forgets: the
prices at which it was opened since it was last flat. `AverageCost` relates the two.

* `trade_close`: a close divides by a quantity that is not zero, and leaves the average or nothing.
* `trade_opens`: any other fill is averaged in by its share.
* `trade_average`: so every trade keeps the relation.
* `fill_average`, `run_average`: an accepted fill, and a run of any length.
* `leg_average`: what the basis of a leg is after any run, and what the next close does to it.
-/

namespace PerpCarry
namespace Strategy

/-- The quantity of a leg and the prices it was opened at since it was last flat. -/
structure Lots (K : Type) where
  quantity : K
  prices : List K
  deriving DecidableEq

/-- A number between the least and the greatest of some. -/
def Between {K : Type} [LE K] (prices : List K) (x : K) : Prop :=
  (∃ low ∈ prices, low ≤ x) ∧ ∃ high ∈ prices, x ≤ high

variable {K : Type} [Field K] [LinearOrder K]

/-- A fill that leaves the leg flat ends the lots, one against the leg opens nothing. -/
def Lots.fill (self : Lots K) (quantity price : K) : Lots K :=
  if self.quantity + quantity = 0 then ⟨0, []⟩
  else if self.quantity * quantity < 0 then { self with quantity := self.quantity + quantity }
  else ⟨self.quantity + quantity, self.prices ++ [price]⟩

/-- The lots of a market after a run. -/
def lots (market : Market) (events : List (LedgerEvent K)) : Lots K :=
  ((fillsOf events).filter (·.market = market)).foldl
    (fun lots f => lots.fill f.quantity.value f.price.value) ⟨0, []⟩

/-- The average cost of a leg. -/
def Leg.average (leg : Leg K) : K := leg.basisUsdt / leg.quantity

/-- A leg beside its lots. -/
structure AverageCost (lots : Lots K) (leg : Leg K) : Prop where
  quantity : lots.quantity = leg.quantity
  flat : leg.quantity = 0 ↔ leg.basisUsdt = 0
  sign : leg.quantity ≠ 0 → 0 < leg.quantity * leg.basisUsdt
  between : leg.quantity ≠ 0 → Between lots.prices leg.average

section Lots

variable {l : Ledger K} {past : List (LedgerEvent K)} {market : Market}

@[simp] theorem lots_fill (f : Fill K) : lots market (past ++ [.fill f]) =
    if f.market = market then (lots market past).fill f.quantity.value f.price.value
    else lots market past := by
  unfold lots
  by_cases hmarket : f.market = market
  · simp [fillsOf_append, fillsOf, hmarket]
  · simp [fillsOf_append, fillsOf, hmarket]

@[simp] theorem lots_settle (e : FundingSettlement K) :
    lots market (past ++ [.settle e]) = lots market past := by
  simp [lots, fillsOf_append, fillsOf]

@[simp] theorem lots_finance (eventId : String) (timeMs : Int) (cost : Decimal K) :
    lots market (past ++ [.finance eventId timeMs cost]) = lots market past := by
  simp [lots, fillsOf_append, fillsOf]

/-- Every leg beside its lots. -/
def AveragesKept (past : List (LedgerEvent K)) (l : Ledger K) : Prop :=
  ∀ market, AverageCost (lots market past) (l.leg market)

theorem start_average {symbol : String} {capital : Decimal K} {next : Int} {fees : FeeSchedule K}
    (h : Ledger.start symbol capital next fees = .ok l) : AveragesKept [] l := by
  obtain ⟨c, _, _, _, rfl⟩ := Ledger.start_ok.mp h
  intro market
  have hleg : ∀ ledger : Ledger K, ledger.spot = .flat → ledger.perp = .flat →
      ledger.leg market = .flat := by
    intro ledger hspot hperp
    cases market
    · exact hspot
    · exact hperp
  rw [hleg _ rfl rfl]
  exact ⟨rfl, Iff.rfl, fun hne => absurd rfl hne, fun hne => absurd rfl hne⟩

end Lots

/-! ## One trade -/

variable {leg : Leg K} {quantity price : K}

/-- A close: the division is sound, and the average is kept or the leg is empty. -/
theorem trade_close (price : K) (h : leg.quantity * quantity < 0) :
    leg.quantity ≠ 0 ∧
      ((leg.trade quantity price).1.quantity = 0 → (leg.trade quantity price).1.basisUsdt = 0) ∧
      ((leg.trade quantity price).1.quantity ≠ 0 →
        (leg.trade quantity price).1.average = leg.average) := by
  have hne : leg.quantity ≠ 0 := by
    intro hzero
    rw [hzero, zero_mul] at h
    exact lt_irrefl _ h
  have hbasis : (leg.trade quantity price).1.basisUsdt =
      (leg.quantity + quantity) * leg.average := by
    rw [Leg.trade_exact, if_pos h]
    rfl
  rw [Leg.trade_quantity]
  refine ⟨hne, ?_, ?_⟩
  · intro hflat
    rw [hbasis, hflat, zero_mul]
  · intro hopen
    show (leg.trade quantity price).1.basisUsdt / (leg.trade quantity price).1.quantity = _
    rw [hbasis, Leg.trade_quantity, mul_div_cancel_left₀ _ hopen]

variable [IsStrictOrderedRing K]

theorem Between.mean {prices : List K} {x y t : K} (h : Between prices x) (h0 : 0 ≤ t)
    (h1 : t ≤ 1) : Between (prices ++ [y]) ((1 - t) * x + t * y) := by
  obtain ⟨⟨low, hlow, hlx⟩, high, hhigh, hxh⟩ := h
  have hrest : 0 ≤ 1 - t := sub_nonneg.mpr h1
  rcases le_total x y with hle | hle
  · refine ⟨⟨low, List.mem_append_left _ hlow, ?_⟩, y, by simp, ?_⟩
    · have hstep : 0 ≤ t * (y - x) := mul_nonneg h0 (sub_nonneg.mpr hle)
      linarith
    · have hstep : 0 ≤ (1 - t) * (y - x) := mul_nonneg hrest (sub_nonneg.mpr hle)
      linarith
  · refine ⟨⟨y, by simp, ?_⟩, high, List.mem_append_left _ hhigh, ?_⟩
    · have hstep : 0 ≤ (1 - t) * (x - y) := mul_nonneg hrest (sub_nonneg.mpr hle)
      linarith
    · have hstep : 0 ≤ t * (x - y) := mul_nonneg h0 (sub_nonneg.mpr hle)
      linarith

/-- A fill that does not go against the leg is part of what is held after it. -/
theorem opening_share (hquantity : quantity ≠ 0) (hopens : 0 ≤ leg.quantity * quantity) :
    leg.quantity + quantity ≠ 0 ∧ 0 ≤ quantity / (leg.quantity + quantity) ∧
      quantity / (leg.quantity + quantity) ≤ 1 := by
  rcases lt_or_gt_of_ne hquantity with hneg | hpos
  · have hheld : leg.quantity ≤ 0 := nonpos_of_mul_nonneg_left hopens hneg
    have htotal : leg.quantity + quantity < 0 := by linarith
    refine ⟨htotal.ne, div_nonneg_of_nonpos hneg.le htotal.le, ?_⟩
    rw [div_le_one_of_neg htotal]
    linarith
  · have hheld : 0 ≤ leg.quantity := nonneg_of_mul_nonneg_left hopens hpos
    have htotal : 0 < leg.quantity + quantity := by linarith
    refine ⟨htotal.ne', div_nonneg hpos.le htotal.le, ?_⟩
    rw [div_le_one htotal]
    linarith

theorem average_pos {lots : Lots K} (h : AverageCost lots leg) (hne : leg.quantity ≠ 0) :
    0 < leg.average := by
  have hsign := h.sign hne
  have hsquare : 0 < leg.quantity * leg.quantity := mul_self_pos.mpr hne
  have haverage : leg.average = leg.quantity * leg.basisUsdt / (leg.quantity * leg.quantity) := by
    unfold Leg.average
    field_simp
  rw [haverage]
  positivity

theorem averageCost_of_open {lots : Lots K} (hquantity : lots.quantity = leg.quantity)
    (hopen : leg.quantity ≠ 0) (hpos : 0 < leg.average) (hbetween : Between lots.prices leg.average) :
    AverageCost lots leg := by
  have hbasis : leg.basisUsdt = leg.quantity * leg.average := by
    rw [Leg.average, mul_div_cancel₀ _ hopen]
  have hsign : 0 < leg.quantity * leg.basisUsdt := by
    rw [hbasis, ← mul_assoc]
    exact mul_pos (mul_self_pos.mpr hopen) hpos
  refine ⟨hquantity, ?_, fun _ => hsign, fun _ => hbetween⟩
  constructor
  · exact fun hflat => absurd hflat hopen
  · intro hzero
    rw [hzero, mul_zero] at hsign
    exact absurd hsign (lt_irrefl _)

theorem trade_closes {lots : Lots K} (h : AverageCost lots leg)
    (hcloses : leg.quantity * quantity < 0) :
    AverageCost (lots.fill quantity price) (leg.trade quantity price).1 := by
  obtain ⟨hne, hempty, hkept⟩ := trade_close price hcloses
  have hheld : (leg.trade quantity price).1.quantity = leg.quantity + quantity :=
    leg.trade_quantity quantity price
  by_cases hflat : leg.quantity + quantity = 0
  · have hlots : lots.fill quantity price = ⟨0, []⟩ := by
      rw [Lots.fill, h.quantity, if_pos hflat]
    rw [hflat] at hheld
    refine ⟨?_, ?_, fun hopen => absurd hheld hopen, fun hopen => absurd hheld hopen⟩
    · rw [hlots, hheld]
    · exact ⟨hempty, fun _ => hheld⟩
  · have hlots : lots.fill quantity price = ⟨leg.quantity + quantity, lots.prices⟩ := by
      rw [Lots.fill, h.quantity, if_neg hflat, if_pos hcloses]
    have hopen : (leg.trade quantity price).1.quantity ≠ 0 := by rwa [hheld]
    have haverage := hkept hopen
    refine averageCost_of_open ?_ hopen ?_ ?_
    · rw [hlots, hheld]
    · rw [haverage]
      exact average_pos h hne
    · rw [haverage, hlots]
      exact h.between hne

/-- What a fill adds to a leg is averaged in by its share of the quantity. -/
theorem trade_opens {lots : Lots K} (h : AverageCost lots leg) (hprice : 0 < price)
    (hquantity : quantity ≠ 0) (hopens : 0 ≤ leg.quantity * quantity) :
    AverageCost (lots.fill quantity price) (leg.trade quantity price).1 := by
  obtain ⟨htotal, hshare0, hshare1⟩ := opening_share hquantity hopens
  have htrade : (leg.trade quantity price).1 =
      ⟨leg.quantity + quantity, leg.basisUsdt + quantity * price, leg.realizedUsdt + 0⟩ := by
    rw [Leg.trade_exact, if_neg (not_lt.mpr hopens)]
  have hlots : lots.fill quantity price = ⟨leg.quantity + quantity, lots.prices ++ [price]⟩ := by
    rw [Lots.fill, h.quantity, if_neg htotal, if_neg (not_lt.mpr hopens)]
  rw [htrade, hlots]
  by_cases hflat : leg.quantity = 0
  · have haverage : (leg.basisUsdt + quantity * price) / (leg.quantity + quantity) = price := by
      rw [h.flat.mp hflat, hflat, zero_add, zero_add, mul_div_cancel_left₀ _ hquantity]
    refine averageCost_of_open rfl htotal ?_ ?_
    · rwa [Leg.average, haverage]
    · rw [Leg.average, haverage]
      exact ⟨⟨price, by simp, le_rfl⟩, price, by simp, le_rfl⟩
  · have haverage : (leg.basisUsdt + quantity * price) / (leg.quantity + quantity) =
        (1 - quantity / (leg.quantity + quantity)) * leg.average +
          quantity / (leg.quantity + quantity) * price := by
      unfold Leg.average
      field_simp
      ring
    have hmean := (h.between hflat).mean (y := price) hshare0 hshare1
    have hpos := average_pos h hflat
    refine averageCost_of_open rfl htotal ?_ ?_
    · rw [Leg.average, haverage]
      rcases hshare1.eq_or_lt with hall | hpart
      · rw [hall, sub_self, zero_mul, zero_add, one_mul]
        exact hprice
      · have hold := mul_pos (sub_pos.mpr hpart) hpos
        have hnew := mul_nonneg hshare0 hprice.le
        linarith
    · rw [Leg.average, haverage]
      exact hmean

theorem trade_average {lots : Lots K} (h : AverageCost lots leg) (hprice : 0 < price)
    (hquantity : quantity ≠ 0) :
    AverageCost (lots.fill quantity price) (leg.trade quantity price).1 := by
  rcases lt_or_ge (leg.quantity * quantity) 0 with hcloses | hopens
  · exact trade_closes h hcloses
  · exact trade_opens h hprice hquantity hopens

/-! ## A run -/

section Run

variable {l l' : Ledger K} {past : List (LedgerEvent K)}

theorem fill_average {e : Fill K} (h : AveragesKept past l) (hs : l.fill e = .ok l') :
    AveragesKept (past ++ [.fill e]) l' := by
  obtain ⟨quantity, price, mid, rate, hacc, rfl⟩ := Ledger.fill_ok.mp hs
  intro market
  show AverageCost _ ((l.setLeg _ _).leg market)
  rw [Ledger.leg_setLeg, lots_fill, hacc.quantity_eq, hacc.price_eq]
  by_cases hmarket : market = e.market
  · subst hmarket
    rw [if_pos rfl, if_pos rfl]
    exact trade_average (h e.market) hacc.price_pos hacc.quantity_ne
  · rw [if_neg hmarket, if_neg (Ne.symm hmarket)]
    exact h market

theorem step_average {e : LedgerEvent K} (h : AveragesKept past l) (hs : l.step e = .ok l') :
    AveragesKept (past ++ [e]) l' := by
  cases e with
  | fill e => exact fill_average h hs
  | settle e =>
    obtain ⟨rate, mark, _, rfl⟩ := Ledger.settle_ok.mp hs
    intro market
    rw [lots_settle]
    exact h market
  | finance eventId timeMs costUsdt =>
    obtain ⟨cost, _, rfl⟩ := Ledger.finance_ok.mp hs
    intro market
    rw [lots_finance]
    exact h market

theorem run_average {events : List (LedgerEvent K)} (h : AveragesKept past l)
    (hs : l.run events = .ok l') : AveragesKept (past ++ events) l' :=
  Lib.run_history AveragesKept (fun _ _ _ _ => step_average) past h hs

end Run

/-- The basis of a leg after every accepted run, and under every fill that is accepted next. -/
theorem leg_average {symbol : String} {capital : Decimal K} {next : Int} {fees : FeeSchedule K}
    {opened l : Ledger K} {events : List (LedgerEvent K)}
    (hstart : Ledger.start symbol capital next fees = .ok opened)
    (hrun : opened.run events = .ok l) :
    (∀ market, AverageCost (lots market events) (l.leg market)) ∧
      ∀ e l', l.fill e = .ok l' → (l.leg e.market).quantity * e.quantity.value < 0 →
        (l.leg e.market).quantity ≠ 0 ∧
        ((l'.leg e.market).quantity = 0 → (l'.leg e.market).basisUsdt = 0) ∧
        ((l'.leg e.market).quantity ≠ 0 →
          (l'.leg e.market).average = (l.leg e.market).average) := by
  have hkept : AveragesKept events l := run_average (start_average hstart) hrun
  refine ⟨hkept, ?_⟩
  intro e l' hfill hcloses
  obtain ⟨price, rate, _, _, _, hleg, _⟩ := Ledger.fill_cash hfill
  rw [hleg]
  exact trade_close price hcloses

/-- Both legs opened and the funding paid: the first half of `roundTrip`. -/
def roundTripHeld : Ledger ℚ where
  symbol := "BTCUSDT"
  initialCapitalUsdt := 10000
  nextFundingMs := 57600000
  fees := takerFees
  cashUsdt := 9798 - 81 / 1000
  timeMs := 28800000
  spot := ⟨2, 202, 0⟩
  perp := ⟨-2, -198, 0⟩
  fundingUsdt := 22 / 100
  feesUsdt := 301 / 1000
  executionCostUsdt := 4
  lastFundingMs := some 28800000
  eventIds := {"fund", "open perp", "open spot"}

theorem leg_average_roundTrip :
    (∀ market, AverageCost (lots market (roundTrip.take 3)) (roundTripHeld.leg market)) ∧
      ∀ e l', roundTripHeld.fill e = .ok l' →
        (roundTripHeld.leg e.market).quantity * e.quantity.value < 0 →
        (roundTripHeld.leg e.market).quantity ≠ 0 ∧
        ((l'.leg e.market).quantity = 0 → (l'.leg e.market).basisUsdt = 0) ∧
        ((l'.leg e.market).quantity ≠ 0 →
          (l'.leg e.market).average = (roundTripHeld.leg e.market).average) := by
  have hstart : Ledger.start "BTCUSDT" (.finite 10000) 28800000 takerFees = .ok roundTripStart := by
    rfl
  have hrun : roundTripStart.run (roundTrip.take 3) = .ok roundTripHeld := by decide +kernel
  exact leg_average hstart hrun

end Strategy
end PerpCarry
