import Mathlib.Tactic.Linarith
import PerpCarry.Strategy.InferredExecutor
import PerpCarry.Strategy.Solvency

/-!
# Strategy.CapitalCap

The capital cap of an entry suffices.

The cap reserves for every unit what the worst impact of the curve, the fees on the mids and the
marks can cost. `InferredExecutor` books the impact of the actual size, and fees on its own prices.

* `cap_ok`: the cap, from the reserve of one unit.
* `reserve_covered`: a size within the cap leaves its collateral, as an inequality.
* `trade_covered`: so does a booked trade of such a size.
* `reaches_funded`: a flat book has an empty perp leg, in every reachable state.
* `cap_suffices`: no run refuses an entry for the capital of its fills.
-/

namespace PerpCarry
namespace Strategy

variable {K : Type} [Field K] [LinearOrder K]

/-- What `enter` reserves for one quoted unit. -/
def Backtest.perUnit {σ : Type} (b : Backtest K σ) (event : MarketEvent K) (o : Opportunity K)
    (spotFee perpFee : K) : K :=
  event.spotMid.value * (1 + ofBps o.spotExecutionBps) * (1 + spotFee) +
    event.marks.perp.value * b.config.collateralFraction +
    max 0 (event.marks.perp.value - event.perpMid.value) +
    event.perpMid.value *
      (ofBps (o.curve.sellCoefficientBps * b.sqrt o.curve.sizeMax + o.perpHalfSpreadBps) + perpFee)

/-- A market event has been financed and valued, and may be decided upon. -/
structure Deciding {σ : Type} (r : Runner K σ) (e : MarketEvent K) (financed : Ledger K) :
    Prop where
  finance : r.ledger.finance (e.eventId ++ ":finance") e.timeMs e.financingUsdt = .ok financed
  valued : ∃ v, financed.value e.marks = .ok v

/-- `enter` has sized an entry under its capital cap. -/
structure SizedEntry {σ : Type} [FloorRing K] (b : Backtest K σ) (ledger : Ledger K)
    (e : MarketEvent K) (o : Opportunity K) (forecast : Option (FundingForecast K)) (cap : K)
    (result : SizingResult K) : Prop where
  capped : b.cap e o ledger.cashUsdt = .ok cap
  cap_pos : 0 < cap
  sized : ∃ charges market, b.charges e o = .ok charges ∧
    o.market.withMaxNotional (min o.market.maxNotionalUsdt cap) = .ok market ∧
    sizePosition b.sqrt b.strategy
      { nowMs := e.timeMs, forecast, approval := o.approval, market, curve := o.curve, charges } =
        .ok result
  enters : result.decision.action = .enter

section Cap

variable {σ : Type} {b : Backtest K σ} {e : MarketEvent K} {o : Opportunity K} {cash cap : K}

theorem cap_ok (h : b.cap e o cash = .ok cap) :
    ∃ spotFee perpFee, b.fees.quote b.config.symbol .spot e.timeMs = .ok spotFee ∧
      b.fees.quote b.config.symbol .perp e.timeMs = .ok perpFee ∧
      cap = max 0 cash / b.perUnit e o spotFee perpFee * e.perpMid.value := by
  unfold Backtest.cap at h
  simp only [bind_ok, raising_ok, pure_ok] at h
  obtain ⟨spotFee, hspot, perpFee, hperp, rfl⟩ := h
  exact ⟨spotFee, perpFee, hspot, hperp, rfl⟩

/-- The notional of a sized entry is within the cap. -/
theorem SizedEntry.within [IsStrictOrderedRing K] [FloorRing K] {ledger : Ledger K}
    {forecast : Option (FundingForecast K)} {result : SizingResult K}
    (hprice : o.market.priceUsdt = e.perpMid.value)
    (h : SizedEntry b ledger e o forecast cap result) :
    result.quantityBase * e.perpMid.value ≤ cap := by
  obtain ⟨charges, market, _, hmarket, hsized⟩ := h.sized
  have hnotional := sizePosition_notional hsized h.enters
  unfold SizingInputs.withMaxNotional at hmarket
  obtain ⟨_, _, hmarket⟩ := bind_ok.mp hmarket
  split at hmarket
  · cases hmarket
    rw [← hprice]
    exact hnotional.trans (min_le_right _ _)
  · cases hmarket

end Cap

section Inequality

variable [IsStrictOrderedRing K]

/-- Spot bought at `spot`, a perp leg sold `impact` below its mid and marked at `mark`: what a unit
ties up is at most what was reserved for it. -/
theorem reserve_covered {quantity cash spot mid mark spotFee perpFee impact worst collateral : K}
    (hquantity : 0 < quantity) (hspot : 0 < spot) (hmid : 0 < mid) (hmark : 0 < mark)
    (hcollateral : 0 < collateral) (hspotFee : 0 ≤ spotFee) (hperpFee : 0 ≤ perpFee)
    (himpact : 0 ≤ impact) (hworst : impact ≤ worst)
    (hcap : quantity * mid ≤ max 0 cash / (spot * (1 + spotFee) + mark * collateral +
      max 0 (mark - mid) + mid * (worst + perpFee)) * mid) :
    quantity * mark * collateral ≤ cash - quantity * spot - quantity * spot * spotFee -
      quantity * (mid * (1 - impact)) * perpFee +
        (-quantity * mark + quantity * (mid * (1 - impact))) := by
  have hadverse : mark - mid ≤ max 0 (mark - mid) := le_max_right _ _
  have hreserved : 0 < spot * (1 + spotFee) + mark * collateral + max 0 (mark - mid) +
      mid * (worst + perpFee) := by
    have hworst' := himpact.trans hworst
    have hadverse' : 0 ≤ max 0 (mark - mid) := le_max_left _ _
    positivity
  have hfunded := le_of_mul_le_mul_right hcap hmid
  rw [le_div_iff₀ hreserved] at hfunded
  have hcash : max 0 cash = cash := by
    refine max_eq_right (le_of_not_gt fun hneg => ?_)
    rw [max_eq_left hneg.le] at hfunded
    exact absurd hfunded (not_le.mpr (mul_pos hquantity hreserved))
  rw [hcash] at hfunded
  have hunit : spot * (1 + spotFee) + mark * collateral + (mark - mid) + mid * impact +
      mid * (1 - impact) * perpFee ≤
        spot * (1 + spotFee) + mark * collateral + max 0 (mark - mid) + mid * (worst + perpFee) := by
    have hmoved := mul_le_mul_of_nonneg_left hworst hmid.le
    have hsaved : 0 ≤ mid * impact * perpFee := by positivity
    linarith
  have htied := (mul_le_mul_of_nonneg_left hunit hquantity.le).trans hfunded
  linarith

/-- A booked entry within the cap leaves its collateral. -/
theorem trade_covered {b : Backtest K Unit} {before after : Ledger K} {e : MarketEvent K}
    {o : Opportunity K} {quantity cap : K} (hroot : RootLike b.sqrt)
    (hexecutor : b.executor = inferredExecutor b.sqrt)
    (hfees : before.fees = b.fees ∧ before.symbol = b.config.symbol)
    (hflat : before.perp.quantity = 0 ∧ before.perp.basisUsdt = 0)
    (hmark : 0 < e.marks.perp.value) (ho : e.opportunity = some o)
    (hcap : b.cap e o before.cashUsdt = .ok cap) (hwithin : quantity * e.perpMid.value ≤ cap)
    (h : Booked b () before e quantity true after) :
    ¬ after.Short e.marks.perp.value b.config.collateralFraction := by
  obtain ⟨o', spotRate, perpRate, htrade⟩ := inferred_trade hexecutor h
  cases ho.symm.trans htrade.opportunity
  obtain ⟨spotFee, perpFee, hspotFee, hperpFee, rfl⟩ := cap_ok hcap
  have hspot := htrade.spot_quoted
  have hperp := htrade.perp_quoted
  rw [hfees.1, hfees.2] at hspot hperp
  cases hspotFee.symm.trans hspot
  cases hperpFee.symm.trans hperp
  obtain ⟨hquantity, _⟩ := supported_quantity htrade.supported
  obtain ⟨hspotAbs, hperpAbs⟩ := abs_direction true hquantity
  have hspotPrice : 0 < o.spotPrice e true := by
    have hcost := (explicit_nonneg o).2.1
    have := htrade.spotMid_pos
    unfold Opportunity.spotPrice Opportunity.spotFraction ofBps direction
    rw [if_pos rfl]
    positivity
  have hcovered := reserve_covered hquantity hspotPrice htrade.perpMid_pos hmark
    b.config.collateral_pos (quote_nonneg hspotFee) (quote_nonneg hperpFee)
    (hroot.perpFraction_nonneg htrade.supported true) (hroot.fraction_le htrade.supported true)
    (by simpa [Backtest.perUnit, Opportunity.spotPrice, Opportunity.spotFraction, direction,
      Opportunity.coefficientBps] using hwithin)
  have hleg : before.perp.trade (-direction true * quantity) (o.perpPrice b.sqrt e quantity true) =
      (⟨-quantity, -quantity * o.perpPrice b.sqrt e quantity true, before.perp.realizedUsdt⟩,
        0) := by
    simp [Leg.trade, hflat.1, hflat.2, direction]
  refine not_lt.mpr ?_
  show |after.perp.quantity| * e.marks.perp.value * b.config.collateralFraction ≤
    after.cashUsdt + after.perp.unrealized e.marks.perp.value
  rw [htrade.cash, htrade.perp, hspotAbs, hperpAbs, hleg]
  simp only [Leg.unrealized, abs_neg, abs_of_pos hquantity]
  have hsold : o.perpPrice b.sqrt e quantity true =
      e.perpMid.value * (1 - o.perpFraction b.sqrt quantity true) := by
    simp [Opportunity.perpPrice, direction]
  rw [hsold]
  simp only [direction, if_true]
  linarith

end Inequality

/-! ## Flat books -/

section Flat

variable {b : Backtest K Unit} {r r' : Runner K Unit} {past : List (Event K)}
  {records : List (Record K)}

/-- A flat book has no basis left in its perp leg. -/
def Unburdened (r : Runner K Unit) : Prop := r.position = none → r.ledger.perp.basisUsdt = 0

theorem start_unburdened (h : b.start () = .ok r) : Unburdened r := by
  obtain ⟨_, _, _, hledger⟩ := Backtest.start_ok h
  obtain ⟨_, _, _, _, hledger⟩ := Ledger.start_ok.mp hledger
  intro _
  rw [← hledger]
  rfl

/-- What the cap relies on, in every state of a run. -/
structure Funded (b : Backtest K Unit) (r : Runner K Unit) : Prop where
  hedged : Hedged r
  unburdened : Unburdened r
  fees : r.ledger.fees = b.fees ∧ r.ledger.symbol = b.config.symbol

/-- The financed ledger of a flat book: the fees of the run, and an empty perp leg. -/
theorem Funded.flat {e : MarketEvent K} {financed : Ledger K} (h : Funded b r)
    (hflat : r.position = none) (hd : Deciding r e financed) :
    (financed.fees = b.fees ∧ financed.symbol = b.config.symbol) ∧
      financed.perp.quantity = 0 ∧ financed.perp.basisUsdt = 0 := by
  obtain ⟨cost, _, _, hperp, hfees, hsymbol⟩ := finance_cash hd.finance
  rw [hfees, hsymbol, hperp]
  exact ⟨h.fees, h.hedged.position_iff.mp hflat, h.unburdened hflat⟩

theorem Deciding.mark_pos {e : MarketEvent K} {financed : Ledger K} (h : Deciding r e financed) :
    0 < e.marks.perp.value := by
  obtain ⟨v, hv⟩ := h.valued
  exact (value_equity hv).2.1

variable [IsStrictOrderedRing K]

/-- Closing the perp leg leaves none of its cost basis. -/
theorem closed_basis {e : MarketEvent K} {after : Ledger K}
    (h : Booked b r.executor r.ledger e (-r.ledger.perp.quantity) false after) :
    after.perp.basisUsdt = 0 := by
  obtain ⟨spot, perp, _, _, _, _, hp, _, _, hleg⟩ := booked_proposed h
  have hne : r.ledger.perp.quantity ≠ 0 := neg_ne_zero.mp (booked_quantities h).2.2
  have hclosing : r.ledger.perp.quantity * -r.ledger.perp.quantity < 0 := by
    rw [mul_neg, neg_lt_zero]
    exact mul_self_pos.mpr hne
  rw [if_neg Bool.false_ne_true] at hp
  rw [hleg, hp, Leg.trade_exact, if_pos hclosing]
  simp

variable [FloorRing K]

theorem decided_unburdened {e : MarketEvent K} {outcome : Runner.Outcome K} (h : Unburdened r)
    (hd : Runner.Decided b r e outcome r'.ledger r'.position) : Unburdened r' := by
  intro hflat
  generalize hledger : r'.ledger = ledger at hd
  generalize hposition : r'.position = position at hd
  rw [hposition] at hflat
  cases hd with
  | waited d flat decision action => exact h flat
  | entered result after p flat decision forecast entry => cases hflat
  | held d p position decision action continues remaining => cases hflat
  | exited d p after position decision action continues booked =>
    exact closed_basis booked

theorem process_unburdened {event : Event K} {record : Option (Record K)} (h : Unburdened r)
    (hs : r.process b event = .ok (record, r')) : Unburdened r' := by
  cases event with
  | funding e =>
    obtain ⟨_, hstep⟩ := Runner.process_funding hs
    intro hflat
    by_cases hwarmup : e.timeMs < b.config.startMs
    · obtain ⟨_, hledger, hposition⟩ := hstep.warmup hwarmup
      rw [hledger]
      exact h (hposition.symm.trans hflat)
    · obtain ⟨hsettled, _, hposition, _⟩ := hstep.scored (not_lt.mp hwarmup)
      rw [(settle_quantities hsettled).2]
      rw [hposition, Option.map_eq_none_iff] at hflat
      exact h hflat
  | market e =>
    obtain ⟨_, _, financed, outcome, final, _, hstep⟩ := Runner.process_market hs
    have hfinanced : Unburdened { r.seen (.market e) with ledger := financed } := by
      intro hflat
      show financed.perp.basisUsdt = 0
      rw [(finance_quantities hstep.finance).2]
      exact h hflat
    cases hdecide : e.decide with
    | true => exact decided_unburdened hfinanced (hstep.decided hdecide)
    | false =>
      obtain ⟨_, hledger, hposition⟩ := hstep.idle hdecide
      intro hflat
      rw [hledger]
      exact hfinanced (hposition.symm.trans hflat)

theorem reaches_funded (h : b.Reaches () past r records) : Funded b r where
  hedged := reaches_hedged h
  unburdened := Backtest.reaches_induction (fun _ r _ => Unburdened r)
    (fun _ => start_unburdened) (fun _ _ _ _ _ _ => process_unburdened) h
  fees := (reaches_informed h).fees

end Flat

/-! ## Entries -/

section Entries

variable {σ : Type} [FloorRing K]

/-- An entry is refused for the capital of its fills when a size was found, and the fills of that
size would leave the reserve short. -/
theorem enter_refused {b : Backtest K σ} {r r' : Runner K σ} {e : MarketEvent K}
    {found : Option (Opportunity K)} {forecast : Option (FundingForecast K)}
    {decision : Decision K} {sizing : Option (SizingResult K)}
    (h : r.enter b e found forecast = .ok (decision, sizing, r'))
    (hreason : decision.reason = "actual_fill_capital_unavailable") :
    ∃ o cap result, found = some o ∧ SizedEntry b r.ledger e o forecast cap result ∧
      Runner.Overreaches b r e result.quantityBase := by
  unfold Runner.enter at h
  split at h
  · cases h
    simp at hreason
  · rename_i o
    obtain ⟨charges, hcharges, h⟩ := bind_ok.mp h
    obtain ⟨cap, hcap, h⟩ := bind_ok.mp h
    split at h
    · cases h
      simp at hreason
    · rename_i hpos
      obtain ⟨market, hmarket, h⟩ := bind_ok.mp h
      obtain ⟨result, hresult, h⟩ := bind_ok.mp h
      rw [raising_ok] at hmarket
      have hsizing : result.decision.reason ≠ "actual_fill_capital_unavailable" := by
        intro heq
        have hmem := sizePosition_reason hresult
        rw [heq] at hmem
        simp [CarryStrategy.reasons] at hmem
      split at h
      · rename_i henters
        obtain ⟨⟨d, r₁⟩, htake, h⟩ := bind_ok.mp h
        cases h
        obtain ⟨_, ⟨_, hshort, _⟩ | ⟨rfl, _⟩⟩ := Runner.takePosition_ok htake
        · exact ⟨o, cap, result, rfl, ⟨hcap, not_le.mp hpos, ⟨charges, market, hcharges, hmarket,
            hresult⟩, henters⟩, hshort⟩
        · exact absurd hreason hsizing
      · cases h
        exact absurd hreason hsizing

/-- A decision is refused for the capital of its fills only in an entry. -/
theorem decision_refused {b : Backtest K σ} {r r' : Runner K σ} {e : MarketEvent K}
    {outcome : Runner.Outcome K} {d : Decision K} (h : r.decision b e = .ok (outcome, r'))
    (hd : outcome.decision = some d) (hreason : d.reason = "actual_fill_capital_unavailable") :
    ∃ o forecast cap result r₁, r.position = none ∧ r.admitEvent b e = .ok (some o, r₁) ∧
      SizedEntry b r.ledger e o forecast cap result ∧
      Runner.Overreaches b r e result.quantityBase := by
  unfold Runner.decision at h
  obtain ⟨forecast, _, h⟩ := bind_ok.mp h
  obtain ⟨⟨found, r₁⟩, hadmitEvent, h⟩ := bind_ok.mp h
  obtain ⟨_, hledger, hposition, hexecutor, _⟩ := Runner.admit_ok hadmitEvent
  dsimp only at h
  rw [hposition] at h
  split at h
  · rename_i hflat
    obtain ⟨⟨d', sizing, r₂⟩, henter, h⟩ := bind_ok.mp h
    cases h
    cases hd
    obtain ⟨o, cap, result, rfl, hsized, hshort⟩ := enter_refused henter hreason
    unfold Runner.Overreaches at hshort
    rw [hledger] at hsized hshort
    rw [hexecutor] at hshort
    exact ⟨o, forecast, cap, result, r₁, hflat, hadmitEvent, hsized, hshort⟩
  · rename_i p hp
    obtain ⟨⟨d', r₂⟩, hheld, h⟩ := bind_ok.mp h
    cases h
    cases hd
    obtain ⟨hcontinuation, _⟩ := Runner.held_ok hheld
    unfold Runner.continuation at hcontinuation
    obtain ⟨_, _, hcontinuation⟩ := bind_ok.mp hcontinuation
    obtain ⟨_, _, hdecide⟩ := bind_ok.mp hcontinuation
    have hmem := CarryStrategy.decide_reason (raising_ok.mp hdecide)
    rw [hreason] at hmem
    simp [CarryStrategy.reasons] at hmem

theorem market_decision {b : Backtest K σ} {r r' : Runner K σ} {e : MarketEvent K}
    {record : Record K} {d : Decision K} (h : r.market b e = .ok (record, r'))
    (hd : record.decision = some d) :
    ∃ financed outcome r₁, Deciding r e financed ∧
      Runner.decision b { r with ledger := financed } e = .ok (outcome, r₁) ∧
      outcome.decision = some d := by
  unfold Runner.market at h
  obtain ⟨_, _, h⟩ := bind_ok.mp h
  obtain ⟨financed, hfinance, h⟩ := bind_ok.mp h
  obtain ⟨before, hbefore, h⟩ := bind_ok.mp h
  obtain ⟨_, _, h⟩ := bind_ok.mp h
  obtain ⟨_, _, h⟩ := bind_ok.mp h
  obtain ⟨⟨outcome, r₁⟩, hacts, h⟩ := bind_ok.mp h
  obtain ⟨final, _, h⟩ := bind_ok.mp h
  obtain ⟨_, _, h⟩ := bind_ok.mp h
  unfold Runner.marketRecord at h
  obtain ⟨⟨admitted, r₂⟩, _, h⟩ := bind_ok.mp h
  cases h
  rw [raising_ok] at hfinance hbefore
  have houtcome : outcome.decision = some d := hd
  split at hacts
  · exact ⟨financed, outcome, r₁, ⟨hfinance, before, hbefore⟩, hacts, houtcome⟩
  · cases hacts
    cases houtcome

end Entries

section Runs

variable {b : Backtest K Unit} {r r' : Runner K Unit} {past : List (Event K)}
  {records : List (Record K)} [IsStrictOrderedRing K]

/-- The fills of a size within the cap do not overreach. -/
theorem Funded.covered {e : MarketEvent K} {financed after : Ledger K} {o : Opportunity K}
    {quantity cap : K} (hroot : RootLike b.sqrt) (hexecutor : b.executor = inferredExecutor b.sqrt)
    (h : Funded b r) (hflat : r.position = none) (hd : Deciding r e financed)
    (ho : e.opportunity = some o) (hcap : b.cap e o financed.cashUsdt = .ok cap)
    (hwithin : quantity * e.perpMid.value ≤ cap)
    (hbooked : Booked b () financed e quantity true after) :
    ¬ after.Short e.marks.perp.value b.config.collateralFraction := by
  obtain ⟨hfees, hempty⟩ := h.flat hflat hd
  exact trade_covered hroot hexecutor hfees hempty hd.mark_pos ho hcap hwithin hbooked

variable [FloorRing K]

theorem process_granted {event : Event K} {record : Record K} {d : Decision K}
    (hroot : RootLike b.sqrt) (hexecutor : b.executor = inferredExecutor b.sqrt)
    (h : Funded b r) (hs : r.process b event = .ok (some record, r'))
    (hd : record.decision = some d) : d.reason ≠ "actual_fill_capital_unavailable" := by
  intro hreason
  cases event with
  | funding e =>
    obtain ⟨_, hstep⟩ := Runner.process_funding hs
    by_cases hwarmup : e.timeMs < b.config.startMs
    · cases (hstep.warmup hwarmup).1
    · cases (hstep.scored (not_lt.mp hwarmup)).2.2.2
      cases hd
  | market e =>
    unfold Runner.process at hs
    obtain ⟨r₁, hreceived, hs⟩ := bind_ok.mp hs
    obtain ⟨_, rfl⟩ := Runner.receive_ok hreceived
    obtain ⟨⟨rec, r₂⟩, hmarket, hs⟩ := bind_ok.mp hs
    cases hs
    obtain ⟨financed, outcome, r₃, hdeciding, hdecision, houtcome⟩ := market_decision hmarket hd
    obtain ⟨o, forecast, cap, result, r₄, hflat, hadmitEvent, hsized, after, hbooked, hshort⟩ :=
      decision_refused hdecision houtcome hreason
    obtain ⟨ho, hpass, _⟩ := (Runner.admit_ok hadmitEvent).2.2.2.2 o rfl
    exact h.covered hroot hexecutor hflat ⟨hdeciding.finance, hdeciding.valued⟩ ho hsized.capped
      (hsized.within (admitted_market hpass).price) hbooked hshort

/-- In inferred execution no run refuses an entry for the capital of its fills. In any flat state,
for any opportunity admitted at a market event: whatever size the cap allows leaves its collateral
when its fills are booked, and a size that `enter` finds is one the cap allows, whose trade is not
refused. -/
theorem cap_suffices (hroot : RootLike b.sqrt) (hexecutor : b.executor = inferredExecutor b.sqrt)
    (h : b.Reaches () past r records) :
    (∀ record ∈ records, ∀ d, record.decision = some d →
      d.reason ≠ "actual_fill_capital_unavailable") ∧
    (r.position = none → ∀ e financed o r₁, Deciding r e financed →
      Runner.admitEvent b { r.seen (.market e) with ledger := financed } e = .ok (some o, r₁) →
      (∀ cap quantity after, b.cap e o financed.cashUsdt = .ok cap →
        quantity * e.perpMid.value ≤ cap → Booked b () financed e quantity true after →
        ¬ after.Short e.marks.perp.value b.config.collateralFraction) ∧
      ∀ forecast cap result, SizedEntry b financed e o forecast cap result →
        result.quantityBase * e.perpMid.value ≤ cap ∧
        ∀ booked r₂, r₁.trade b e result.quantityBase true = .ok (booked, r₂) →
          booked = true) := by
  constructor
  · have hgranted := Backtest.reaches_induction
      (fun past r records => Funded b r ∧ Informed b past r ∧ ∀ record ∈ records, ∀ d,
        record.decision = some d → d.reason ≠ "actual_fill_capital_unavailable")
      (fun r hstart => ⟨⟨start_hedged hstart, start_unburdened hstart,
        (start_informed hstart).fees⟩, start_informed hstart, fun _ hmem => nomatch hmem⟩) ?_ h
    · exact hgranted.2.2
    · rintro past r records event record r' ⟨hfunded, hinformed, hgranted⟩ hs
      have hinformed' := process_informed hinformed hs
      refine ⟨⟨process_hedged hfunded.hedged hs, process_unburdened hfunded.unburdened hs,
        hinformed'.fees⟩, hinformed', ?_⟩
      intro found hfound d hd
      rcases List.mem_append.mp hfound with hold | hnew
      · exact hgranted found hold d hd
      · cases record with
        | none => cases hnew
        | some record =>
          cases List.mem_singleton.mp hnew
          exact process_granted hroot hexecutor hfunded hs hd
  · intro hflat e financed o r₁ hd hadmitEvent
    have hfunded := reaches_funded h
    obtain ⟨_, hledger, _, hunit, hadmitted⟩ := Runner.admit_ok hadmitEvent
    obtain ⟨ho, hpass, _⟩ := hadmitted o rfl
    have hcovered : ∀ cap quantity after, b.cap e o financed.cashUsdt = .ok cap →
        quantity * e.perpMid.value ≤ cap → Booked b () financed e quantity true after →
        ¬ after.Short e.marks.perp.value b.config.collateralFraction :=
      fun cap quantity after => hfunded.covered hroot hexecutor hflat hd ho
    refine ⟨hcovered, fun forecast cap result hsized => ?_⟩
    have hwithin := hsized.within (admitted_market hpass).price
    refine ⟨hwithin, fun booked r₂ htrade => ?_⟩
    obtain ⟨_, _, ⟨htrue, _⟩ | ⟨_, _, ⟨after, hbooked, hshort⟩, _⟩⟩ := Runner.trade_ok htrade
    · exact htrue
    · rw [hledger] at hbooked
      exact absurd hshort (hcovered cap _ after hsized.capped hwithin hbooked)

end Runs

/-! ## A run -/

/-- A square root that is exact at the sizes of the run. -/
def stepRoot (x : ℚ) : ℚ := if x < 1 / 100 then 1 / 100 else if x < 1 / 25 then 1 / 10 else 1 / 5

theorem stepRoot_rootLike : RootLike stepRoot where
  nonneg := fun x _ => by
    unfold stepRoot
    split_ifs <;> norm_num
  mono := fun x y _ hle => by
    unfold stepRoot
    split_ifs <;> linarith

def inferredBacktest : Backtest ℚ Unit :=
  { studyBacktest 100 with
    config := { studyConfig with executionMode := .inferred }
    executor := inferredExecutor stepRoot
    sqrt := stepRoot }

/-- The run enters. -/
theorem cap_suffices_study :
    ∃ r records, inferredBacktest.Reaches () (studyWarmup ++ [studyEntry]) r records ∧
      (∃ record ∈ records, record.decision.map (·.action) = some .enter) ∧
      ∀ record ∈ records, ∀ d, record.decision = some d →
        d.reason ≠ "actual_fill_capital_unavailable" := by
  have hrun : (inferredBacktest.replay () (studyWarmup ++ [studyEntry])).toOption.any
      (fun s => s.2.any fun record => record.decision.map (·.action) = some .enter) = true := by
    decide +kernel
  obtain ⟨r, records, hreaches, hfound⟩ := Backtest.reaches_of_replay hrun
  obtain ⟨record, hmem, htest⟩ := List.any_eq_true.mp hfound
  exact ⟨r, records, hreaches, ⟨record, hmem, of_decide_eq_true htest⟩,
    (cap_suffices stepRoot_rootLike rfl hreaches).1⟩

end Strategy
end PerpCarry
