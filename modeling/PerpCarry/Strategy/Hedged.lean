import Mathlib.Data.Rat.Floor
import PerpCarry.Strategy.RunnerSteps
import PerpCarry.Strategy.SettlementChain

/-!
# Strategy.Hedged

The run is hedged: the position record and the two legs of the ledger never disagree.

Position and ledger are changed in different methods. Both legs are booked in one trade or not at
all, so `Hedged` needs to be looked at once for each case of a decision.

* `booked_quantities`: what a trade does to the legs.
* `decided_hedged`, `process_hedged`: a decision, and any event, keep the hedge.
* `run_hedged`: after every event of a run, with what each decision leaves behind.
-/

namespace PerpCarry
namespace Strategy

variable {K σ : Type} [Field K] [LinearOrder K]

structure Ledger.Balanced (l : Ledger K) : Prop where
  legs : l.spot.quantity = -l.perp.quantity
  long : 0 ≤ l.spot.quantity
  short : l.perp.quantity ≤ 0

/-- A long spot leg against an equal short perp leg, and a position when they are not empty. -/
structure Hedged (r : Runner K σ) : Prop where
  balanced : r.ledger.Balanced
  position_iff : r.position = none ↔ r.ledger.perp.quantity = 0

section Trades

variable {b : Backtest K σ} {executor : σ} {before after : Ledger K} {e : MarketEvent K}
  {quantity : K} {opening : Bool}

theorem booked_quantities (h : Booked b executor before e quantity opening after) :
    after.spot.quantity = before.spot.quantity + (if opening then quantity else -quantity) ∧
      after.perp.quantity = before.perp.quantity + (if opening then -quantity else quantity) ∧
      quantity ≠ 0 := by
  obtain ⟨spot, perp, _, between, _, ⟨hspot, hs⟩, ⟨hperp, hp⟩, hfirst, hsecond⟩ := booked_pair h
  have hspot₁ := Ledger.fill_quantity hfirst .spot
  have hspot₂ := Ledger.fill_quantity hsecond .spot
  have hperp₁ := Ledger.fill_quantity hfirst .perp
  have hperp₂ := Ledger.fill_quantity hsecond .perp
  have hne := Ledger.fill_ne_zero hsecond
  simp only [hspot, hperp, hs, hp, Decimal.value, Ledger.leg, reduceCtorEq, if_true, if_false,
    add_zero, Arithmetic.inRun_exact] at hspot₁ hspot₂ hperp₁ hperp₂ hne
  refine ⟨hspot₂.trans hspot₁, ?_, ?_⟩
  · rw [hperp₂, hperp₁]
  · intro hzero
    rw [hzero] at hne
    simp at hne

theorem booked_sides (hb : before.Balanced)
    (h : Booked b executor before e quantity opening after) :
    0 ≤ after.spot.quantity ∧ after.perp.quantity ≤ 0 := by
  obtain ⟨spot, perp, _, between, _, _, _, hfirst, hsecond⟩ := booked_pair h
  obtain ⟨hlong, hshort⟩ := fill_sides hb.long hb.short hfirst
  exact fill_sides hlong hshort hsecond

theorem booked_balanced (hb : before.Balanced)
    (h : Booked b executor before e quantity opening after) : after.Balanced := by
  obtain ⟨hspot, hperp, _⟩ := booked_quantities h
  obtain ⟨hlong, hshort⟩ := booked_sides hb h
  refine ⟨?_, hlong, hshort⟩
  rw [hspot, hperp, hb.legs]
  cases opening with
  | true => simp [add_comm]
  | false => simp [add_comm]

/-- Closing all that is held leaves both legs flat. -/
theorem closed_flat (hb : before.Balanced)
    (h : Booked b executor before e (-before.perp.quantity) false after) :
    after.spot.quantity = 0 ∧ after.perp.quantity = 0 := by
  obtain ⟨hspot, hperp, _⟩ := booked_quantities h
  rw [hspot, hperp, hb.legs]
  simp

theorem opened_ne_zero (hflat : before.perp.quantity = 0)
    (h : Booked b executor before e quantity true after) : after.perp.quantity ≠ 0 := by
  obtain ⟨_, hperp, hne⟩ := booked_quantities h
  rw [hperp, hflat]
  simpa using hne

end Trades

section Steps

variable {b : Backtest K σ} {r r' : Runner K σ}

theorem start_hedged {executor : σ} (h : b.start executor = .ok r) : Hedged r := by
  obtain ⟨hnone, _, _, hledger⟩ := Backtest.start_ok h
  obtain ⟨_, _, _, _, hledger⟩ := Ledger.start_ok.mp hledger
  constructor
  · rw [← hledger]
    exact ⟨by simp [Leg.flat], le_refl _, le_refl _⟩
  · rw [← hledger]
    simp [Leg.flat, hnone]

theorem finance_quantities [Arithmetic K] {l l' : Ledger K} {eventId : String} {timeMs : Int}
    {cost : Decimal K} (h : l.finance eventId timeMs cost = .ok l') : l'.spot = l.spot ∧ l'.perp = l.perp := by
  obtain ⟨_, _, rfl⟩ := Ledger.finance_iff.mp h
  exact ⟨rfl, rfl⟩

theorem finance_cash {eventId : String} {timeMs : Int} {costUsdt : Decimal K}
    {l financed : Ledger K} (h : l.finance eventId timeMs costUsdt = .ok financed) :
    ∃ cost, costUsdt = .finite cost ∧ financed.cashUsdt = l.cashUsdt - cost ∧
      financed.perp = l.perp ∧ financed.fees = l.fees ∧ financed.symbol = l.symbol := by
  obtain ⟨cost, ⟨_, hcost, _, _⟩, rfl⟩ := Ledger.finance_ok.mp h
  exact ⟨cost, hcost, rfl, rfl, rfl, rfl⟩

theorem settle_quantities [Arithmetic K] {l l' : Ledger K} {event : FundingSettlement K}
    (h : l.settle event = .ok l') : l'.spot = l.spot ∧ l'.perp = l.perp := by
  obtain ⟨_, _, _, rfl⟩ := Ledger.settle_iff.mp h
  exact ⟨rfl, rfl⟩

theorem balanced_congr {l l' : Ledger K} (h : l.Balanced)
    (hlegs : l'.spot = l.spot ∧ l'.perp = l.perp) : l'.Balanced := by
  obtain ⟨hspot, hperp⟩ := hlegs
  exact ⟨by rw [hspot, hperp]; exact h.legs, by rw [hspot]; exact h.long, by
    rw [hperp]; exact h.short⟩

variable [FloorRing K]

theorem decided_hedged {e : MarketEvent K} {outcome : Runner.Outcome K} (h : Hedged r)
    (hd : Runner.Decided b r e outcome r'.ledger r'.position) : Hedged r' := by
  generalize hledger : r'.ledger = ledger at hd
  generalize hposition : r'.position = position at hd
  cases hd with
  | waited d flat decision action =>
    refine ⟨by rw [hledger]; exact h.balanced, ?_⟩
    rw [hledger, hposition, ← h.position_iff]
    exact ⟨fun _ => flat, fun _ => rfl⟩
  | entered result after p flat decision forecast entry =>
    refine ⟨by rw [hledger]; exact booked_balanced h.balanced entry.booked, ?_⟩
    rw [hledger, hposition]
    have hne := opened_ne_zero (h.position_iff.mp flat) entry.booked
    exact ⟨nofun, fun hzero => absurd hzero hne⟩
  | held d p position decision action continues remaining =>
    refine ⟨by rw [hledger]; exact h.balanced, ?_⟩
    rw [hledger, hposition, ← h.position_iff, position]
  | exited d p after position decision action continues booked =>
    refine ⟨by rw [hledger]; exact booked_balanced h.balanced booked, ?_⟩
    rw [hledger, hposition]
    exact ⟨fun _ => (closed_flat h.balanced booked).2, fun _ => rfl⟩

theorem process_hedged {event : Event K} {record : Option (Record K)} (h : Hedged r)
    (hs : r.process b event = .ok (record, r')) : Hedged r' := by
  cases event with
  | funding e =>
    obtain ⟨_, hstep⟩ := Runner.process_funding hs
    by_cases hwarmup : e.timeMs < b.config.startMs
    · obtain ⟨_, hledger, hposition⟩ := hstep.warmup hwarmup
      refine ⟨?_, ?_⟩
      · rw [hledger]
        exact h.balanced
      · rw [hledger, hposition]
        exact h.position_iff
    · obtain ⟨hsettled, _, hposition, _⟩ := hstep.scored (not_lt.mp hwarmup)
      have hlegs := settle_quantities hsettled
      refine ⟨balanced_congr h.balanced hlegs, ?_⟩
      rw [hposition, Option.map_eq_none_iff, hlegs.2]
      exact h.position_iff
  | market e =>
    obtain ⟨_, rec, financed, outcome, final, _, hstep⟩ := Runner.process_market hs
    have hlegs := finance_quantities hstep.finance
    have hfinanced : Hedged { r.seen (.market e) with ledger := financed } := by
      refine ⟨balanced_congr h.balanced hlegs, ?_⟩
      show r.position = none ↔ financed.perp.quantity = 0
      rw [hlegs.2]
      exact h.position_iff
    cases hdecide : e.decide with
    | true => exact decided_hedged hfinanced (hstep.decided hdecide)
    | false =>
      obtain ⟨_, hledger, hposition⟩ := hstep.idle hdecide
      refine ⟨?_, ?_⟩
      · rw [hledger]
        exact hfinanced.balanced
      · rw [hledger, hposition]
        exact hfinanced.position_iff

theorem reaches_hedged {executor : σ} {events : List (Event K)} {records : List (Record K)}
    (h : b.Reaches executor events r records) : Hedged r :=
  Backtest.reaches_induction (fun _ r _ => Hedged r) (fun _ => start_hedged)
    (fun _ _ _ _ _ _ => process_hedged) h

/-- After an event: the hedge, what each kind of decision leaves behind, and whole trades. -/
structure HedgedStep (b : Backtest K σ) (r : Runner K σ) (event : Event K)
    (record : Option (Record K)) (r' : Runner K σ) : Prop where
  position_perp : r'.position = none ↔ r'.ledger.perp.quantity = 0
  perp_spot : r'.ledger.perp.quantity = 0 ↔ r'.ledger.spot.quantity = 0
  hedge : r'.ledger.spot.quantity = -r'.ledger.perp.quantity
  long : 0 ≤ r'.ledger.spot.quantity
  entered : ∀ rec d, record = some rec → rec.decision = some d → d.action = .enter →
    ∃ p, r'.position = some p ∧ p.settlementsHeld = 0 ∧
      p.plannedSettlements = b.config.policy.horizonSettlements
  held : ∀ rec d, record = some rec → rec.decision = some d → d.action = .hold →
    r'.ledger.spot.quantity = r.ledger.spot.quantity ∧
      r'.ledger.perp.quantity = r.ledger.perp.quantity
  flat : ∀ rec d, record = some rec → rec.decision = some d →
    d.action = .wait ∨ d.action = .exit →
    r'.ledger.spot.quantity = 0 ∧ r'.ledger.perp.quantity = 0
  whole : ∀ e, event = .market e → ∃ financed,
    r.ledger.finance (e.eventId ++ ":finance") e.timeMs e.financingUsdt = .ok financed ∧
      (r'.ledger = financed ∨ ∃ spot perp between, spot.market = .spot ∧ perp.market = .perp ∧
        financed.fill spot = .ok between ∧ between.fill perp = .ok r'.ledger)
  refused : ∀ e rec d, event = .market e → record = some rec → rec.decision = some d →
    d.action = .wait →
    r.ledger.finance (e.eventId ++ ":finance") e.timeMs e.financingUsdt = .ok r'.ledger

/-- A trade books both legs, a decision without a trade books none. -/
theorem decided_whole {e : MarketEvent K} {outcome : Runner.Outcome K} {ledger : Ledger K}
    {position : Option (Position K)} (hd : Runner.Decided b r e outcome ledger position) :
    ledger = r.ledger ∨ ∃ spot perp between, spot.market = .spot ∧ perp.market = .perp ∧
      r.ledger.fill spot = .ok between ∧ between.fill perp = .ok ledger := by
  cases hd with
  | waited d flat decision action => exact .inl rfl
  | entered result after p flat decision forecast entry =>
    obtain ⟨spot, perp, _, between, _, hspot, hperp, hfirst, hsecond⟩ := booked_pair entry.booked
    exact .inr ⟨spot, perp, between, hspot.1, hperp.1, hfirst, hsecond⟩
  | held d p position decision action continues remaining => exact .inl rfl
  | exited d p after position decision action continues booked =>
    obtain ⟨spot, perp, _, between, _, hspot, hperp, hfirst, hsecond⟩ := booked_pair booked
    exact .inr ⟨spot, perp, between, hspot.1, hperp.1, hfirst, hsecond⟩

theorem decided_action {e : MarketEvent K} {outcome : Runner.Outcome K} {ledger : Ledger K}
    {position : Option (Position K)} {d : Decision K}
    (hd : Runner.Decided b r e outcome ledger position) (ho : outcome.decision = some d) :
    match d.action with
    | .wait => ledger = r.ledger ∧ position = none
    | .enter => ∃ p, position = some p ∧ p.settlementsHeld = 0 ∧
        p.plannedSettlements = b.config.policy.horizonSettlements
    | .hold => ledger = r.ledger
    | .exit => position = none := by
  cases hd with
  | waited d' flat decision action =>
    obtain rfl : d = d' := Option.some.inj (ho.symm.trans decision)
    rw [action]
    exact ⟨rfl, rfl⟩
  | entered result after p flat decision forecast entry =>
    obtain rfl : d = result.decision := Option.some.inj (ho.symm.trans decision)
    rw [entry.enters]
    exact ⟨p, rfl, entry.held, entry.planned⟩
  | held d' p position decision action continues remaining =>
    obtain rfl : d = d' := Option.some.inj (ho.symm.trans decision)
    rw [action]
  | exited d' p after position decision action continues booked =>
    obtain rfl : d = d' := Option.some.inj (ho.symm.trans decision)
    rw [action]

/-- In every reachable state, for every event that is processed. -/
theorem run_hedged {executor : σ} {past : List (Event K)} {records : List (Record K)}
    {event : Event K} {record : Option (Record K)} (h : b.Reaches executor past r records)
    (hs : r.process b event = .ok (record, r')) : HedgedStep b r event record r' := by
  have hafter : Hedged r' := process_hedged (reaches_hedged h) hs
  have hlegs := hafter.balanced.legs
  have hflat : r'.position = none → r'.ledger.spot.quantity = 0 ∧ r'.ledger.perp.quantity = 0 := by
    intro hnone
    have hperp := hafter.position_iff.mp hnone
    exact ⟨by rw [hlegs, hperp, neg_zero], hperp⟩
  constructor
  · exact hafter.position_iff
  · rw [hlegs, neg_eq_zero]
  · exact hlegs
  · exact hafter.balanced.long
  · rintro rec d rfl hd haction
    obtain ⟨e, financed, outcome, _, ho, _, hdecided⟩ := Runner.process_decided hs hd
    have hcase := decided_action hdecided ho
    rw [haction] at hcase
    exact hcase
  · rintro rec d rfl hd haction
    obtain ⟨e, financed, outcome, _, ho, hfinance, hdecided⟩ := Runner.process_decided hs hd
    obtain ⟨hspot, hperp⟩ := finance_quantities hfinance
    have hcase := decided_action hdecided ho
    rw [haction] at hcase
    have hledger : r'.ledger = financed := hcase
    rw [hledger, hspot, hperp]
    exact ⟨rfl, rfl⟩
  · rintro rec d rfl hd haction
    obtain ⟨e, financed, outcome, _, ho, _, hdecided⟩ := Runner.process_decided hs hd
    have hcase := decided_action hdecided ho
    rcases haction with haction | haction
    · rw [haction] at hcase
      exact hflat hcase.2
    · rw [haction] at hcase
      exact hflat hcase
  · rintro e rfl
    obtain ⟨_, rec, financed, outcome, final, _, hstep⟩ := Runner.process_market hs
    refine ⟨financed, hstep.finance, ?_⟩
    cases hdecide : e.decide with
    | true => exact decided_whole (hstep.decided hdecide)
    | false => exact .inl (hstep.idle hdecide).2.1
  · rintro e rec d rfl rfl hd haction
    obtain ⟨e', financed, outcome, heq, ho, hfinance, hdecided⟩ := Runner.process_decided hs hd
    cases heq
    have hcase := decided_action hdecided ho
    rw [haction] at hcase
    have hledger : r'.ledger = financed := hcase.1
    rw [hledger]
    exact hfinance

end Steps

/-! ## A run -/

def studyDigest : String := "0123456789abcdef0123456789abcdef0123456789abcdef0123456789abcdef"

theorem studyDigest_isDigest : isDigest studyDigest = true := by decide +kernel

def studyPrior : Models.Prior ℚ where
  mean := (0, 0)
  precision := ((1, 0), (0, 1))
  shape := 3
  scale := 2
  symmetric := rfl
  definite := by decide +kernel
  shape_pos := by decide +kernel
  scale_pos := by decide +kernel

/-- February 1970, after a day of warm-up. -/
def studyConfig : Config ℚ where
  symbol := "BTCUSDT"
  warmupStartMs := 2592000000
  startMs := 2678400000
  endMs := 5097600000
  initialCapitalUsdt := 10000
  collateralFraction := 1 / 10
  policy := {
    horizonSettlements := 1
    entryProbability := 1 / 2
    continuationProbability := 1 / 4
    horizon_pos := by decide
    continuation_nonneg := by decide +kernel
    continuation_lt_entry := by decide +kernel
    entry_lt_one := by decide +kernel }
  executionMode := .book
  draws := 2
  minSettlements := 3
  prior := studyPrior
  warmup_nonneg := by decide
  seed_nonneg := by decide
  draws_two := by decide
  rolling_pos := by decide
  impact_pos := by decide
  min_three := by decide
  interval_pos := by decide
  capital_pos := by decide +kernel
  collateral_pos := by decide +kernel
  guard_lt_delay := by decide
  symbol_known := .inl rfl
  warmup_lt_start := by decide
  start_lt_end := by decide
  in_calendar := by decide
  start_fold := by decide
  end_fold := by decide
  interval_le := by decide
  interval_divides := by decide
  delay_lt := by decide
  warmup_aligned := by decide
  collateral_le := by decide +kernel

def studyCurve : ImpactCurve ℚ where
  symbol := "BTCUSDT"
  admittedAtMs := 2678400000
  evidenceEndExclusiveMs := 2678400000
  artifactSha256 := studyDigest
  kind := .verifiedCalibration
  sellCoefficientBps := 0
  buyCoefficientBps := 0
  sizeMin := 1 / 10000
  sizeMax := 1 / 25
  symbol_ne := btcusdt_ne
  admitted_nonneg := by decide
  evidence_nonneg := by decide
  digest := studyDigest_isDigest
  sell_nonneg := by decide +kernel
  buy_nonneg := by decide +kernel
  size_pos := by decide +kernel
  size_le := by decide +kernel

def studyMarket : SizingInputs ℚ where
  symbol := "BTCUSDT"
  observedAtMs := 2678400000
  validUntilMs := 5097600000
  priceUsdt := 100
  advBase := 100
  advStartMs := 86400000
  advEndExclusiveMs := 2678400000
  advSha256 := studyDigest
  quantityStep := 1
  minQuantity := 1
  minNotionalUsdt := 0
  maxNotionalUsdt := 100
  maxAdvFraction := 1
  validatedQuantityBase := 10
  metadataValidFromMs := 0
  metadataValidUntilMs := 5097600000
  metadataSha256 := studyDigest
  symbol_ne := btcusdt_ne
  observed_nonneg := by decide
  valid_span := by decide
  adv_nonneg := by decide
  adv_aligned := by decide
  adv_span := by decide
  metadata_nonneg := epoch_nonneg
  metadata_span := by decide
  price_pos := by decide +kernel
  adv_pos := by decide +kernel
  notional_nonneg := by decide +kernel
  max_notional_pos := by decide +kernel
  max_adv_pos := by decide +kernel
  validated_pos := by decide +kernel
  step_pos := by decide +kernel
  min_quantity_nonneg := by decide +kernel
  adv_digest := studyDigest_isDigest
  metadata_digest := studyDigest_isDigest

def studyApproval : FundingApproval where
  symbol := "BTCUSDT"
  horizons := [1]
  intervalHours := 8
  validationEndExclusiveMs := 2678400000
  validUntilMs := 5097600000
  evidenceSha256 := studyDigest
  approved := true
  modelSha256 := studyDigest
  symbol_ne := btcusdt_ne
  horizons_ne := by decide
  horizons_pos := by decide
  horizons_nodup := by decide
  interval := by decide
  validation_nonneg := by decide
  validation_lt := by decide
  evidence_digest := studyDigest_isDigest
  model_digest := studyDigest_isDigest

def studyOpportunity : Opportunity ℚ where
  foldStartMs := 2678400000
  curve := studyCurve
  approval := some studyApproval
  market := studyMarket
  perpHalfSpreadBps := 1
  spotExecutionBps := 1
  financingFraction := 0
  explicit := by decide +kernel

/-- Fills at given prices, one for opening and one for closing. -/
def fillsAt (openPrice closePrice : ℚ) (_ : Unit) (e : MarketEvent ℚ) (quantity : ℚ)
    (opening : Bool) : Except Raised (List (Fill ℚ) × Unit) :=
  let price := if opening then openPrice else closePrice
  let sign : ℚ := if opening then 1 else -1
  .ok ([⟨e.eventId ++ ":spot", "BTCUSDT", e.timeMs, .spot, .finite (sign * quantity),
      .finite 100, e.spotMid⟩,
    ⟨e.eventId ++ ":perp", "BTCUSDT", e.timeMs, .perp, .finite (-(sign * quantity)),
      .finite price, e.perpMid⟩], ())

/-- A perp leg opened at 100 and closed at `closePrice`. -/
def studyBacktest (closePrice : ℚ) : Backtest ℚ Unit where
  config := studyConfig
  fees := {
    periods := [
      { takerPeriod .spot 0 (by decide +kernel) with
        endMs := 5097600000, span := by decide },
      { takerPeriod .perp 0 (by decide +kernel) with
        endMs := 5097600000, span := by decide }]
    allowAssumptions := true
    nonempty := by decide
    disjoint := by decide }
  executor := ⟨.book, fillsAt 100 closePrice⟩
  sqrt := fun x => if x = 1 / 10000 then 1 / 100 else if x = 1 / 25 then 1 / 5 else 1 / 10
  seedOf := fun _ _ _ => 0
  modelDigest := fun _ => studyDigest
  paths := fun _ _ _ _ draws _ => .ok (List.replicate draws.toNat (1 / 100))

def studyFunding (eventId : String) (timeMs : Int) : Event ℚ :=
  .funding ⟨eventId, timeMs, .finite (1 / 1000), 8, some (.finite 100)⟩

def studyDecision (eventId : String) (timeMs : Int) : Event ℚ :=
  .market {
    eventId, timeMs
    spotMid := .finite 100
    perpMid := .finite 100
    marks := ⟨"BTCUSDT", timeMs, .finite 100, .finite 100⟩
    opportunity := some studyOpportunity
    decide := true
    financingUsdt := .finite 0 }

/-- The warm-up, and the first settlement. -/
def studyWarmup : List (Event ℚ) := [
  studyFunding "w0" 2592000000, studyFunding "w1" 2620800000, studyFunding "w2" 2649600000,
  studyFunding "s0" 2678400000]

def studyEntry : Event ℚ := studyDecision "d0" 2678416000

theorem run_hedged_study :
    ∃ r records record r', (studyBacktest 100).Reaches () studyWarmup r records ∧
      r.process (studyBacktest 100) studyEntry = .ok (record, r') ∧ r'.ledger.perp.quantity = -1 ∧
      HedgedStep (studyBacktest 100) r studyEntry record r' := by
  have hrun : ((studyBacktest 100).replay () (studyWarmup ++ [studyEntry])).toOption.any
      (fun s => s.1.ledger.perp.quantity = -1) = true := by
    decide +kernel
  obtain ⟨r', records', hreaches, hquantity⟩ := Backtest.reaches_of_replay hrun
  obtain ⟨r, records, record, hbefore, hstep, _⟩ := Backtest.reaches_snoc_inv hreaches
  exact ⟨r, records, record, r', hbefore, hstep, by simpa using hquantity, run_hedged hbefore hstep⟩

end Strategy
end PerpCarry
