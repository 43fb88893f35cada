import PerpCarry.Strategy.BookedCosts
import PerpCarry.Strategy.BookExecutor

/-!
# Strategy.TradingCosts

What trading costs over a whole run, with the two executors of the repository.

Neither executor fills better than the mid, so the fees, the execution cost and the financing of a
run only ever grow, and the net P&L is the gross P&L less these three.

* `inferred_adverse`, `book_adverse`: no fill of either executor is better than its mid.
* `run_charges`: the three costs and the valuations along every run.
* `run_book_trades`: with the book executor, the legs and the execution cost are sums over trades,
  each walked in full on the checkpoints of its own time.
-/

namespace PerpCarry
namespace Strategy

open Impact (OrderSide weight)

variable {K σ : Type} [Field K] [LinearOrder K]

/-- Bought at the mid or above, sold at the mid or below. -/
def Fill.Adverse (f : Fill K) : Prop :=
  0 ≤ f.quantity.value * (f.price.value - f.referenceMid.value)

/-- No fill that the ledger could take is better than its mid. -/
def Executor.Adverse (x : Executor K σ) : Prop :=
  ∀ s e quantity opening fills s', x.fills s e quantity opening = .ok (fills, s') →
    ∀ f ∈ fills, 0 < f.referenceMid.value → f.Adverse

/-! ## The two executors -/

theorem inferred_adverse [IsStrictOrderedRing K] {sqrt : K → K} (hroot : RootLike sqrt) :
    (inferredExecutor sqrt).Adverse := by
  intro s e quantity opening fills s' h
  cases hfills : inferredFills sqrt e quantity opening with
  | error err =>
    simp only [inferredExecutor, hfills] at h
    cases h
  | ok proposed =>
    simp only [inferredExecutor, hfills] at h
    cases h
    obtain ⟨o, _, hsupported, rfl⟩ := inferredFills_ok hfills
    have hquantity := (supported_quantity hsupported).1
    have hsq : (direction opening : K) * direction opening = 1 := direction_sq opening
    intro f hf hmid
    rcases List.mem_pair.mp hf with rfl | rfl
    · have hspread : 0 ≤ o.spotFraction := by
        have := (explicit_nonneg o).2.1
        unfold Opportunity.spotFraction ofBps
        positivity
      have hcost : direction opening * quantity * (o.spotPrice e opening - e.spotMid.value) =
          quantity * (e.spotMid.value * o.spotFraction) := by
        calc _ = direction opening * direction opening * quantity *
              (e.spotMid.value * o.spotFraction) := by
              unfold Opportunity.spotPrice
              ring
          _ = _ := by rw [hsq, one_mul]
      show 0 ≤ direction opening * quantity * (o.spotPrice e opening - e.spotMid.value)
      rw [hcost]
      exact mul_nonneg hquantity.le (mul_nonneg (le_of_lt hmid) hspread)
    · have himpact := hroot.perpFraction_nonneg hsupported opening
      have hcost : -direction opening * quantity *
          (o.perpPrice sqrt e quantity opening - e.perpMid.value) =
          quantity * (e.perpMid.value * o.perpFraction sqrt quantity opening) := by
        calc _ = direction opening * direction opening * quantity *
              (e.perpMid.value * o.perpFraction sqrt quantity opening) := by
              unfold Opportunity.perpPrice
              ring
          _ = _ := by rw [hsq, one_mul]
      show 0 ≤ -direction opening * quantity *
        (o.perpPrice sqrt e quantity opening - e.perpMid.value)
      rw [hcost]
      exact mul_nonneg hquantity.le (mul_nonneg (le_of_lt hmid) himpact)

/-- A leg worse than its mid costs something, whichever way it goes. -/
theorem adverse_cost {sign quantity price mid : ℚ} (hsign : sign = 1 ∨ sign = -1)
    (hq : 0 < quantity) (h : weight (sideOf sign) mid < weight (sideOf sign) price) :
    0 < sign * quantity * (price - mid) := by
  rcases hsign with rfl | rfl
  · have hlt : mid < price := by simpa [sideOf, weight] using h
    rw [one_mul]
    exact mul_pos hq (sub_pos.mpr hlt)
  · have hside : sideOf (-1) = .sell := if_neg (by norm_num)
    have hlt : price < mid := by simpa [hside, weight] using h
    have := mul_pos hq (sub_pos.mpr hlt)
    linarith

theorem legSign_cases (opening : Bool) (market : Market) :
    legSign opening market = 1 ∨ legSign opening market = -1 := by
  cases opening <;> cases market <;> simp [legSign]

theorem finite_of_value_pos {d : Decimal K} (h : 0 < d.value) : d = .finite d.value := by
  cases d with
  | finite q => rfl
  | infinity negative => exact absurd h (lt_irrefl 0)
  | nan => exact absurd h (lt_irrefl 0)

theorem book_adverse (provider : Provider) : (bookExecutor provider).Adverse := by
  intro s e quantity opening fills s' h
  cases hfills : bookFills provider e quantity opening with
  | error err =>
    simp only [bookExecutor, hfills] at h
    cases h
  | ok proposed =>
    simp only [bookExecutor, hfills] at h
    cases h
    obtain ⟨spot, perp, hspot, hperp, rfl⟩ := bookFills_ok hfills
    have hleg : ∀ market f, bookFill provider e quantity opening market = .ok f →
        0 < f.referenceMid.value → f.Adverse := by
      intro market f hfill hpos
      have hmid := bookFill_mid hfill
      obtain ⟨price, _, hq, hprice, hreference, leg⟩ :=
        bookFill_ok hfill (hmid ▸ finite_of_value_pos hpos)
      unfold Fill.Adverse
      rw [hq, hprice, hreference]
      exact (adverse_cost (legSign_cases opening market) leg.positive leg.adverse).le
    intro f hf
    rcases List.mem_pair.mp hf with rfl | rfl
    · exact hleg .spot f hspot
    · exact hleg .perp f hperp

/-! ## The costs of a run -/

/-- The costs of the ledger only grow. -/
structure Charged (l l' : Ledger K) : Prop where
  fees : l.feesUsdt ≤ l'.feesUsdt
  execution : l.executionCostUsdt ≤ l'.executionCostUsdt
  financing : l.financingUsdt ≤ l'.financingUsdt

/-- Nothing was ever paid back. -/
structure Costly (l : Ledger K) : Prop where
  fees : 0 ≤ l.feesUsdt
  execution : 0 ≤ l.executionCostUsdt
  financing : 0 ≤ l.financingUsdt

namespace Charged

variable {l l' l'' : Ledger K}

theorem refl (l : Ledger K) : Charged l l := ⟨le_refl _, le_refl _, le_refl _⟩

theorem trans (h : Charged l l') (h' : Charged l' l'') : Charged l l'' :=
  ⟨h.fees.trans h'.fees, h.execution.trans h'.execution, h.financing.trans h'.financing⟩

theorem costly (h : Charged l l') (hl : Costly l) : Costly l' :=
  ⟨hl.fees.trans h.fees, hl.execution.trans h.execution, hl.financing.trans h.financing⟩

end Charged

theorem settle_charged {l l' : Ledger K} {e : FundingSettlement K} (h : l.settle e = .ok l') : Charged l l' := by
  obtain ⟨_, _, _, rfl⟩ := Ledger.settle_ok.mp h
  exact ⟨le_refl _, le_refl _, le_refl _⟩

section Steps

variable [IsStrictOrderedRing K] {l l' : Ledger K}

theorem fill_charged {f : Fill K} (h : l.fill f = .ok l')
    (hadverse : 0 < f.referenceMid.value → f.Adverse) : Charged l l' := by
  obtain ⟨quantity, price, mid, rate, hacc, rfl⟩ := Ledger.fill_ok.mp h
  have hcost : 0 ≤ quantity * (price - mid) := by
    have hpos : 0 < f.referenceMid.value := by
      rw [hacc.mid_eq]
      exact hacc.mid_pos
    have := hadverse hpos
    unfold Fill.Adverse at this
    rwa [hacc.quantity_eq, hacc.price_eq, hacc.mid_eq] at this
  have hfee : 0 ≤ |quantity| * price * rate :=
    mul_nonneg (mul_nonneg (abs_nonneg _) hacc.price_pos.le) (quote_nonneg hacc.quoted)
  refine ⟨le_add_of_nonneg_right hfee, le_add_of_nonneg_right hcost, ?_⟩
  show l.financingUsdt ≤ (l.setLeg _ _).financingUsdt
  cases f.market <;> exact le_refl _

theorem finance_charged {eventId : String} {timeMs : Int} {costUsdt : Decimal K}
    (h : l.finance eventId timeMs costUsdt = .ok l') : Charged l l' := by
  obtain ⟨_, ⟨_, _, hcost, _⟩, rfl⟩ := Ledger.finance_ok.mp h
  exact ⟨le_refl _, le_refl _, le_add_of_nonneg_right hcost⟩

variable {b : Backtest K σ} {r r' : Runner K σ} {e : MarketEvent K}

theorem booked_charged (hadverse : b.executor.Adverse) {executor : σ} {quantity : K}
    {opening : Bool} (h : Booked b executor l e quantity opening l') : Charged l l' := by
  obtain ⟨spot, perp, _, between, hfills, _, _, hfirst, hsecond⟩ := booked_pair h
  have hfill := hadverse _ _ _ _ _ _ hfills
  exact (fill_charged hfirst (hfill spot (by simp))).trans
    (fill_charged hsecond (hfill perp (by simp)))

variable [FloorRing K]

theorem decided_charged (hadverse : b.executor.Adverse) {outcome : Runner.Outcome K}
    {ledger : Ledger K} {position : Option (Position K)}
    (h : Runner.Decided b r e outcome ledger position) : Charged r.ledger ledger := by
  cases h with
  | waited d flat decision action => exact Charged.refl _
  | entered result after p flat decision forecast entry =>
    exact booked_charged hadverse entry.booked
  | held d p position decision action continues remaining => exact Charged.refl _
  | exited d p after position decision action continues booked =>
    exact booked_charged hadverse booked

theorem process_charged (hadverse : b.executor.Adverse) {event : Event K}
    {record : Option (Record K)} (h : r.process b event = .ok (record, r')) :
    Charged r.ledger r'.ledger := by
  cases event with
  | funding e =>
    obtain ⟨_, hstep⟩ := Runner.process_funding h
    by_cases hwarmup : e.timeMs < b.config.startMs
    · rw [(hstep.warmup hwarmup).2.1]
      exact Charged.refl _
    · exact settle_charged (hstep.scored (not_lt.mp hwarmup)).1
  | market e =>
    obtain ⟨_, _, financed, outcome, final, _, hstep⟩ := Runner.process_market h
    refine (finance_charged hstep.finance).trans ?_
    cases hdecide : e.decide with
    | true => exact decided_charged hadverse (hstep.decided hdecide)
    | false =>
      rw [(hstep.idle hdecide).2.1]
      exact Charged.refl _

end Steps

/-- What a valuation says of the costs, whatever the fills were. -/
structure CostsNetted (l : Ledger K) (v : Valuation K) : Prop where
  fees : v.feesUsdt = l.feesUsdt
  execution : v.executionCostUsdt = l.executionCostUsdt
  financing : v.financingUsdt = l.financingUsdt
  net : v.netPnlUsdt = v.grossPnlUsdt - (v.executionCostUsdt + v.feesUsdt + v.financingUsdt)

/-- The books of the ledger are those of some history of fills. -/
def Accounted (initial : K) (l : Ledger K) : Prop := ∃ past, Books initial past l

theorem accounted_netted {initial : K} {l : Ledger K} {marks : Marks K} {v : Valuation K}
    (h : Accounted initial l) (hv : l.value marks = .ok v) : CostsNetted l v := by
  obtain ⟨past, hbooks⟩ := h
  obtain ⟨spotMark, perpMark, _, rfl⟩ := Ledger.value_ok.mp hv
  refine ⟨rfl, rfl, rfl, ?_⟩
  have hspot : l.spot.basisUsdt - l.spot.realizedUsdt = paid .spot past := hbooks.basis_eq .spot
  have hcash := hbooks.cash_eq
  rw [← hspot] at hcash
  dsimp only
  rw [hcash, hbooks.initial_eq]
  unfold Leg.unrealized
  ring

section Runs

variable {b : Backtest K σ} {r r' : Runner K σ} {past : List (Event K)}

theorem booked_accounted {initial : K} {executor : σ} {l l' : Ledger K} {e : MarketEvent K}
    {quantity : K} {opening : Bool} (h : Accounted initial l)
    (hs : Booked b executor l e quantity opening l') : Accounted initial l' := by
  obtain ⟨history, hbooks⟩ := h
  obtain ⟨_, _, _, _, _, _, _, hfirst, hsecond⟩ := booked_pair hs
  exact ⟨_, fill_books (fill_books hbooks hfirst) hsecond⟩

variable [FloorRing K]

theorem decided_accounted {initial : K} {e : MarketEvent K} {outcome : Runner.Outcome K}
    {ledger : Ledger K} {position : Option (Position K)} (h : Accounted initial r.ledger)
    (hd : Runner.Decided b r e outcome ledger position) : Accounted initial ledger := by
  cases hd with
  | waited d flat decision action => exact h
  | entered result after p flat decision forecast entry => exact booked_accounted h entry.booked
  | held d p position decision action continues remaining => exact h
  | exited d p after position decision action continues booked => exact booked_accounted h booked

theorem process_accounted {initial : K} {event : Event K} {record : Option (Record K)}
    (h : Accounted initial r.ledger) (hs : r.process b event = .ok (record, r')) :
    Accounted initial r'.ledger := by
  cases event with
  | funding e =>
    obtain ⟨_, hstep⟩ := Runner.process_funding hs
    by_cases hwarmup : e.timeMs < b.config.startMs
    · rw [(hstep.warmup hwarmup).2.1]
      exact h
    · obtain ⟨history, hbooks⟩ := h
      exact ⟨_, settle_books hbooks (hstep.scored (not_lt.mp hwarmup)).1⟩
  | market e =>
    obtain ⟨_, _, financed, outcome, final, _, hstep⟩ := Runner.process_market hs
    have hfinanced : Accounted initial financed := by
      obtain ⟨history, hbooks⟩ := h
      exact ⟨_, finance_books hbooks hstep.finance⟩
    cases hdecide : e.decide with
    | true => exact decided_accounted hfinanced (hstep.decided hdecide)
    | false =>
      rw [(hstep.idle hdecide).2.1]
      exact hfinanced

/-- The costs so far are not negative, and the books are those of a history of fills. -/
theorem reaches_costly [IsStrictOrderedRing K] (hadverse : b.executor.Adverse) {executor : σ}
    {records : List (Record K)} (h : b.Reaches executor past r records) :
    Costly r.ledger ∧ Accounted b.config.initialCapitalUsdt r.ledger := by
  refine Backtest.reaches_induction
    (fun _ r _ => Costly r.ledger ∧ Accounted b.config.initialCapitalUsdt r.ledger) ?_ ?_ h
  · intro r hstart
    obtain ⟨_, _, _, hledger⟩ := Backtest.start_ok hstart
    refine ⟨?_, [], start_books hledger⟩
    obtain ⟨_, _, _, _, hstarted⟩ := Ledger.start_ok.mp hledger
    rw [← hstarted]
    exact ⟨le_refl _, le_refl _, le_refl _⟩
  · intro _ r _ event record r' ⟨hcostly, hbooks⟩ hs
    exact ⟨(process_charged hadverse hs).costly hcostly, process_accounted hbooks hs⟩

end Runs

/-- A run with one of the executors of the repository. -/
inductive Shipped (b : Backtest ℚ Unit) : Prop where
  | inferred (sqrt : ℚ → ℚ) (root : RootLike sqrt) (eq : b.executor = inferredExecutor sqrt)
  | book (provider : Provider) (eq : b.executor = bookExecutor provider)

theorem Shipped.adverse {b : Backtest ℚ Unit} (h : Shipped b) : b.executor.Adverse := by
  cases h with
  | inferred sqrt root eq => exact eq ▸ inferred_adverse root
  | book provider eq => exact eq ▸ book_adverse provider

/-- The costs before and after an event, and what its record says of them. -/
structure CostStep (before after : Ledger ℚ) (record : Option (Record ℚ)) : Prop where
  costly : Costly before
  charged : Charged before after
  valued : ∀ found v, record = some found → found.valuation = some v →
    CostsNetted after v ∧ v.netPnlUsdt ≤ v.grossPnlUsdt

/-- In every run with a shipped executor. -/
theorem run_charges {b : Backtest ℚ Unit} {past : List (Event ℚ)} {r r' : Runner ℚ Unit}
    {records : List (Record ℚ)} {event : Event ℚ} {record : Option (Record ℚ)}
    (hshipped : Shipped b) (h : b.Reaches () past r records)
    (hs : r.process b event = .ok (record, r')) : CostStep r.ledger r'.ledger record := by
  obtain ⟨hcostly, hbooks⟩ := reaches_costly hshipped.adverse h
  have hcharged := process_charged hshipped.adverse hs
  refine ⟨hcostly, hcharged, ?_⟩
  intro found v hfound hv
  have hnetted : CostsNetted r'.ledger v := by
    have hbooks' := process_accounted hbooks hs
    cases event with
    | funding e =>
      -- a settlement is recorded without a valuation
      obtain ⟨_, hstep⟩ := Runner.process_funding hs
      by_cases hwarmup : e.timeMs < b.config.startMs
      · cases hfound.symm.trans (hstep.warmup hwarmup).1
      · obtain ⟨_, _, _, hrecord⟩ := hstep.scored (not_lt.mp hwarmup)
        cases hfound.symm.trans hrecord
        cases hv
    | market e =>
      obtain ⟨_, found', _, _, final, heq, hstep⟩ := Runner.process_market hs
      have hsame : found = found' := Option.some.inj (hfound.symm.trans heq)
      rw [hsame, hstep.recorded.2.2.2.2.1] at hv
      cases hv
      exact accounted_netted hbooks' hstep.valued
  refine ⟨hnetted, ?_⟩
  have hlater := hcharged.costly hcostly
  rw [hnetted.net, hnetted.fees, hnetted.execution, hnetted.financing]
  have := hlater.fees
  have := hlater.execution
  have := hlater.financing
  linarith

/-- The entry of the run, at inferred prices. -/
theorem run_charges_study :
    ∃ r records record r', inferredBacktest.Reaches () studyWarmup r records ∧
      r.process inferredBacktest studyEntry = .ok (record, r') ∧
      r.ledger.executionCostUsdt < r'.ledger.executionCostUsdt ∧
      CostStep r.ledger r'.ledger record := by
  have hrun : (inferredBacktest.replay () (studyWarmup ++ [studyEntry])).toOption.any
      (fun s => 0 < s.1.ledger.executionCostUsdt) = true := by
    decide +kernel
  obtain ⟨r', records', hreaches, hcost⟩ := Backtest.reaches_of_replay hrun
  obtain ⟨r, records, record, hbefore, hstep, _⟩ := Backtest.reaches_snoc_inv hreaches
  have hzero : (inferredBacktest.replay () studyWarmup).toOption.any
      (fun s => s.1.ledger.executionCostUsdt = 0) = true := by
    decide +kernel
  rw [Backtest.reaches_iff_replay.mp hbefore] at hzero
  have hfree : r.ledger.executionCostUsdt = 0 := by simpa [Except.toOption] using hzero
  have hcost : 0 < r'.ledger.executionCostUsdt := by simpa using hcost
  exact ⟨r, records, record, r', hbefore, hstep, hfree ▸ hcost,
    run_charges (.inferred stepRoot stepRoot_rootLike rfl) hbefore hstep⟩

/-! ## Legs walked on a book -/

/-- A trade of the book executor: its event, its size, and the price and mid of each leg. -/
structure BookTrade where
  event : MarketEvent ℚ
  quantity : ℚ
  opening : Bool
  price : Market → ℚ
  mid : Market → ℚ

namespace BookTrade

/-- What a leg adds to its side of the position. -/
def signed (t : BookTrade) (market : Market) : ℚ := legSign t.opening market * t.quantity

/-- What a leg lost against the mid. -/
def cost (t : BookTrade) (market : Market) : ℚ := t.signed market * (t.price market - t.mid market)

/-- Each leg was walked in full on the checkpoint of the event's own time, and cost something. -/
def Walked (provider : Provider) (t : BookTrade) : Prop :=
  t.event.decide = true ∧ ∀ market,
    BookLeg provider t.event market (sideOf (legSign t.opening market)) t.quantity
      (t.price market) (t.mid market) ∧ 0 < t.cost market

end BookTrade

/-- The legs and the execution cost of `l'` are those of `l` and of these trades. -/
structure TradedTo (trades : List BookTrade) (l l' : Ledger ℚ) : Prop where
  legs : ∀ market, (l'.leg market).quantity =
    (l.leg market).quantity + (trades.map fun t => t.signed market).sum
  execution : l'.executionCostUsdt = l.executionCostUsdt +
    (trades.map fun t => t.cost .spot + t.cost .perp).sum

namespace TradedTo

variable {l l' l'' : Ledger ℚ} {trades trades' : List BookTrade}

theorem of_same (hspot : l'.spot = l.spot) (hperp : l'.perp = l.perp)
    (hexecution : l'.executionCostUsdt = l.executionCostUsdt) : TradedTo [] l l' := by
  refine ⟨?_, by simpa using hexecution⟩
  intro market
  cases market with
  | spot => simp [Ledger.leg, hspot]
  | perp => simp [Ledger.leg, hperp]

theorem trans (h : TradedTo trades l l') (h' : TradedTo trades' l' l'') :
    TradedTo (trades ++ trades') l l'' := by
  constructor
  · intro market
    rw [h'.legs, h.legs, List.map_append, List.sum_append, add_assoc]
  · rw [h'.execution, h.execution, List.map_append, List.sum_append, add_assoc]

end TradedTo

section Books

variable {b : Backtest ℚ Unit} {provider : Provider} {l l' : Ledger ℚ} {e : MarketEvent ℚ}
  {quantity : ℚ} {opening : Bool} {r r' : Runner ℚ Unit}

theorem booked_walked (hexecutor : b.executor = bookExecutor provider) (hdecide : e.decide = true)
    (h : Booked b () l e quantity opening l') :
    ∃ t : BookTrade, t.event = e ∧ t.Walked provider ∧ TradedTo [t] l l' := by
  obtain ⟨fills, _, hfills, _, hrun⟩ := h
  rw [hexecutor] at hfills
  cases hbook : bookFills provider e quantity opening with
  | error err =>
    simp only [bookExecutor, hbook] at hfills
    cases hfills
  | ok proposed =>
    simp only [bookExecutor, hbook] at hfills
    cases hfills
    obtain ⟨spot, perp, hspotFill, hperpFill, rfl⟩ := bookFills_ok hbook
    obtain ⟨between, hspot, hrun⟩ := Lib.run_cons_ok.mp hrun
    obtain ⟨last, hperp, hrun⟩ := Lib.run_cons_ok.mp hrun
    cases hrun
    obtain ⟨q, price, mid, spotRate, hacc, rfl⟩ := Ledger.fill_ok.mp hspot
    obtain ⟨q', price', mid', perpRate, hacc', rfl⟩ := Ledger.fill_ok.mp hperp
    obtain ⟨spotPrice, hspotMarket, hspotQuantity, hspotPrice, _, spotLeg⟩ :=
      bookFill_ok hspotFill ((bookFill_mid hspotFill).symm.trans hacc.mid_eq)
    obtain ⟨perpPrice, hperpMarket, hperpQuantity, hperpPrice, _, perpLeg⟩ :=
      bookFill_ok hperpFill ((bookFill_mid hperpFill).symm.trans hacc'.mid_eq)
    cases hacc.quantity_eq.symm.trans hspotQuantity
    cases hacc.price_eq.symm.trans hspotPrice
    cases hacc'.quantity_eq.symm.trans hperpQuantity
    cases hacc'.price_eq.symm.trans hperpPrice
    refine ⟨⟨e, quantity, opening, fun market => if market = .spot then price else price',
      fun market => if market = .spot then mid else mid'⟩, rfl, ⟨hdecide, ?_⟩, ?_, ?_⟩
    · intro market
      cases market with
      | spot =>
        exact ⟨spotLeg, adverse_cost (legSign_cases opening .spot) spotLeg.positive
          spotLeg.adverse⟩
      | perp =>
        exact ⟨perpLeg, adverse_cost (legSign_cases opening .perp) perpLeg.positive
          perpLeg.adverse⟩
    · intro market
      cases market with
      | spot => simp [hspotMarket, hperpMarket, Ledger.setLeg, Ledger.leg, BookTrade.signed]
      | perp => simp [hspotMarket, hperpMarket, Ledger.setLeg, Ledger.leg, BookTrade.signed]
    · simp [BookTrade.cost, BookTrade.signed, add_assoc]

theorem decided_walked {outcome : Runner.Outcome ℚ} {ledger : Ledger ℚ}
    {position : Option (Position ℚ)} (hexecutor : b.executor = bookExecutor provider)
    (hdecide : e.decide = true) (hd : Runner.Decided b r e outcome ledger position) :
    ∃ trades : List BookTrade, (∀ t ∈ trades, t.Walked provider) ∧
      (trades.map fun t => Event.market t.event).Sublist [.market e] ∧
      TradedTo trades r.ledger ledger := by
  have hnone : ∃ trades : List BookTrade, (∀ t ∈ trades, t.Walked provider) ∧
      (trades.map fun t => Event.market t.event).Sublist [.market e] ∧
      TradedTo trades r.ledger r.ledger :=
    ⟨[], by simp, List.nil_sublist _, TradedTo.of_same rfl rfl rfl⟩
  have hone : ∀ {after quantity opening},
      Booked b r.executor r.ledger e quantity opening after →
      ∃ trades : List BookTrade, (∀ t ∈ trades, t.Walked provider) ∧
        (trades.map fun t => Event.market t.event).Sublist [.market e] ∧
        TradedTo trades r.ledger after := by
    intro after quantity opening hbooked
    obtain ⟨t, ht, hwalked, htraded⟩ := booked_walked hexecutor hdecide hbooked
    exact ⟨[t], by simpa using hwalked, by simp [ht], htraded⟩
  cases hd with
  | waited d flat decision action => exact hnone
  | entered result after p flat decision forecast entry => exact hone entry.booked
  | held d p position decision action continues remaining => exact hnone
  | exited d p after position decision action continues booked => exact hone booked

theorem process_walked {event : Event ℚ} {record : Option (Record ℚ)}
    (hexecutor : b.executor = bookExecutor provider)
    (hs : r.process b event = .ok (record, r')) :
    ∃ trades : List BookTrade, (∀ t ∈ trades, t.Walked provider) ∧
      (trades.map fun t => Event.market t.event).Sublist [event] ∧
      TradedTo trades r.ledger r'.ledger := by
  cases event with
  | funding e =>
    refine ⟨[], by simp, List.nil_sublist _, ?_⟩
    obtain ⟨_, hstep⟩ := Runner.process_funding hs
    by_cases hwarmup : e.timeMs < b.config.startMs
    · rw [(hstep.warmup hwarmup).2.1]
      exact TradedTo.of_same rfl rfl rfl
    · obtain ⟨_, _, _, hledger⟩ := Ledger.settle_ok.mp (hstep.scored (not_lt.mp hwarmup)).1
      rw [← hledger]
      exact TradedTo.of_same rfl rfl rfl
  | market e =>
    obtain ⟨_, _, financed, outcome, final, _, hstep⟩ := Runner.process_market hs
    have hfinanced : TradedTo [] r.ledger financed := by
      obtain ⟨_, _, hledger⟩ := Ledger.finance_ok.mp hstep.finance
      rw [← hledger]
      exact TradedTo.of_same rfl rfl rfl
    cases hdecide : e.decide with
    | false =>
      rw [(hstep.idle hdecide).2.1]
      exact ⟨[], by simp, List.nil_sublist _, hfinanced⟩
    | true =>
      obtain ⟨trades, hwalked, hevents, htraded⟩ :=
        decided_walked hexecutor hdecide (hstep.decided hdecide)
      exact ⟨trades, hwalked, hevents, hfinanced.trans htraded⟩

/-- In every run with the book executor the two legs and the execution cost are the sums over
trades, each made by a decision of the run and walked in full at its time. -/
theorem run_book_trades {past : List (Event ℚ)} {records : List (Record ℚ)}
    (hexecutor : b.executor = bookExecutor provider) (h : b.Reaches () past r records) :
    ∃ trades : List BookTrade, (∀ t ∈ trades, t.Walked provider) ∧
      (trades.map fun t => Event.market t.event).Sublist past ∧
      (∀ market, (r.ledger.leg market).quantity = (trades.map fun t => t.signed market).sum) ∧
      r.ledger.executionCostUsdt = (trades.map fun t => t.cost .spot + t.cost .perp).sum := by
  refine Backtest.reaches_induction (fun past r _ =>
    ∃ trades : List BookTrade, (∀ t ∈ trades, t.Walked provider) ∧
      (trades.map fun t => Event.market t.event).Sublist past ∧
      (∀ market, (r.ledger.leg market).quantity = (trades.map fun t => t.signed market).sum) ∧
      r.ledger.executionCostUsdt = (trades.map fun t => t.cost .spot + t.cost .perp).sum)
    ?_ ?_ h
  · intro r hstart
    obtain ⟨_, _, _, hledger⟩ := Backtest.start_ok hstart
    obtain ⟨_, _, _, _, hstarted⟩ := Ledger.start_ok.mp hledger
    rw [← hstarted]
    refine ⟨[], by simp, List.nil_sublist _, ?_, rfl⟩
    intro market
    cases market <;> rfl
  · intro past r _ event record r' hpast hs
    obtain ⟨trades, hwalked, hevents, hlegs, hcost⟩ := hpast
    obtain ⟨trades', hwalked', hevents', htraded⟩ := process_walked hexecutor hs
    refine ⟨trades ++ trades', ?_, ?_, ?_, ?_⟩
    · intro t ht
      exact (List.mem_append.mp ht).elim (hwalked t) (hwalked' t)
    · rw [List.map_append]
      exact hevents.append hevents'
    · intro market
      rw [htraded.legs, hlegs, List.map_append, List.sum_append]
    · rw [htraded.execution, hcost, List.map_append, List.sum_append]

end Books

/-- The study against a book quoted at 99 and 101. -/
def bookBacktest : Backtest ℚ Unit :=
  { studyBacktest 100 with
    executor := bookExecutor fun timeMs _ =>
      .ok ⟨"BTCUSDT", timeMs, Impact.smallBook, Impact.smallBook_wellFormed⟩ }

/-- The entry of the run pays one on each leg. -/
theorem run_book_trades_study :
    ∃ r records, bookBacktest.Reaches () (studyWarmup ++ [studyEntry]) r records ∧
      r.ledger.perp.quantity = -1 ∧ ∃ trades : List BookTrade,
        (trades.map fun t => Event.market t.event).Sublist (studyWarmup ++ [studyEntry]) ∧
        (∀ market, (r.ledger.leg market).quantity = (trades.map fun t => t.signed market).sum) ∧
        r.ledger.executionCostUsdt = (trades.map fun t => t.cost .spot + t.cost .perp).sum := by
  have hrun : (bookBacktest.replay () (studyWarmup ++ [studyEntry])).toOption.any
      (fun s => s.1.ledger.perp.quantity = -1) = true := by
    decide +kernel
  obtain ⟨r, records, hreaches, hquantity⟩ := Backtest.reaches_of_replay hrun
  obtain ⟨trades, _, hevents, hlegs, hcost⟩ := run_book_trades rfl hreaches
  exact ⟨r, records, hreaches, by simpa using hquantity, trades, hevents, hlegs, hcost⟩

end Strategy
end PerpCarry
