import PerpCarry.Strategy.Hedged

/-!
# Strategy.Evidence

What an entry rests on was known when it was made.

The gates of an entry are spread over `admit`, `size_position`, `from_curve`, `decide` and `quote`.
`Informed` is what every state keeps of the past: where the rows of the funding model come from,
the fee schedule of the ledger, and the curve of each month.

* `process_informed`: one event keeps it.
* `entered_evidence`: an entry has passed every gate at its own time.
* `run_evidence`: in every run, with the one curve of a month.
-/

namespace PerpCarry
namespace Strategy

open Arithmetic (toFloat)
open Models (DAY_MS RollingFundingModel Observation)

variable {K σ : Type} [Field K] [LinearOrder K] [Arithmetic K]

/-! ## What was available -/

structure CurveAvailable (b : Backtest K σ) (timeMs : Int) (curve : ImpactCurve K) : Prop where
  evidence : curve.evidenceEndExclusiveMs ≤ foldStart timeMs
  fold : foldStart timeMs ≤ timeMs
  admitted : curve.admittedAtMs ≤ timeMs
  symbol : curve.symbol = b.config.symbol
  synthetic : curve.kind = .synthetic → b.config.policy.allowSyntheticCosts = true

structure MarketAvailable (timeMs : Int) (perpMid : K) (market : SizingInputs K) : Prop where
  observed : market.observedAtMs ≤ timeMs
  unexpired : timeMs < market.validUntilMs
  adv : market.advEndExclusiveMs = timeMs / DAY_MS * DAY_MS
  price : market.priceUsdt = toFloat perpMid

structure ApprovalAvailable (b : Backtest K σ) (timeMs : Int) (modelSha256 : String)
    (approval : FundingApproval) : Prop where
  approved : approval.approved = true
  symbol : approval.symbol = b.config.symbol
  validated : approval.validationEndExclusiveMs ≤ timeMs
  unexpired : timeMs < approval.validUntilMs
  model : approval.modelSha256 = modelSha256
  horizon : b.config.policy.horizonSettlements ∈ approval.horizons
  cadence : approval.intervalHours = b.config.intervalHours

/-- The period that quotes the fee of this market at this time. -/
structure FeeAvailable (b : Backtest K σ) (timeMs : Int) (market : Market) (period : FeePeriod K) :
    Prop where
  listed : period ∈ b.fees.periods
  scope : period.symbol = b.config.symbol ∧ period.market = market
  covers : period.startMs ≤ timeMs ∧ timeMs < period.endMs
  observed : period.kind = .verified → period.observedAtMs ≤ timeMs
  assumed : period.kind = .assumption → b.fees.allowAssumptions = true
  quoted : b.fees.quote b.config.symbol market timeMs = .ok period.takerFraction

/-- A row of the funding model is one of the funding events so far. -/
def ObservedBy (events : List (Event K)) (intervalHours timeMs : Int) (row : Observation K) :
    Prop :=
  row.intervalHours = intervalHours ∧ row.timeMs ≤ timeMs ∧
    ∃ e rate, .funding e ∈ events ∧ e.timeMs = row.timeMs ∧ e.rate = .finite rate ∧
      row.rate = toFloat rate

/-! ## What a state keeps of the past -/

structure Informed (b : Backtest K σ) (events : List (Event K)) (r : Runner K σ) : Prop where
  rows : ∀ row ∈ r.model.history, ObservedBy events b.config.intervalHours r.lastTime row
  fees : r.ledger.fees = b.fees ∧ r.ledger.symbol = b.config.symbol
  sealed : ∀ e o, .market e ∈ events → e.opportunity = some o → ¬ b.Unadmitted e o →
    r.foldCurves.lookup o.foldStartMs = some o.curve.artifactSha256

section Steps

variable {b : Backtest K σ} {r r' : Runner K σ} {past : List (Event K)}

theorem start_informed {executor : σ} (h : b.start executor = .ok r) : Informed b [] r := by
  obtain ⟨_, hmodel, _, hledger⟩ := Backtest.start_ok h
  obtain ⟨_, _, _, _, hledger⟩ := Ledger.start_ok.mp hledger
  constructor
  · intro row hrow
    rw [hmodel] at hrow
    cases hrow
  · rw [← hledger]
    exact ⟨rfl, rfl⟩
  · intro _ _ he
    cases he

theorem booked_fees {executor : σ} {before after : Ledger K} {e : MarketEvent K} {quantity : K}
    {opening : Bool} (h : Booked b executor before e quantity opening after) :
    after.fees = before.fees ∧ after.symbol = before.symbol := by
  obtain ⟨_, _, _, between, _, _, _, hfirst, hsecond⟩ := booked_pair h
  obtain ⟨hfees, hsymbol⟩ := Ledger.fill_scope hfirst
  obtain ⟨hfees', hsymbol'⟩ := Ledger.fill_scope hsecond
  exact ⟨hfees'.trans hfees, hsymbol'.trans hsymbol⟩

theorem observed_later {intervalHours before after : Int} {row : Observation K} {event : Event K}
    (h : ObservedBy past intervalHours before row) (hle : before ≤ after) :
    ObservedBy (past ++ [event]) intervalHours after row := by
  obtain ⟨hinterval, htime, e, rate, he, hsame⟩ := h
  exact ⟨hinterval, htime.trans hle, e, rate, List.mem_append_left _ he, hsame⟩

variable [FloorRing K]

theorem decided_fees {e : MarketEvent K} {outcome : Runner.Outcome K} {ledger : Ledger K}
    {position : Option (Position K)} (hd : Runner.Decided b r e outcome ledger position) :
    ledger.fees = r.ledger.fees ∧ ledger.symbol = r.ledger.symbol := by
  cases hd with
  | waited d flat decision action => exact ⟨rfl, rfl⟩
  | entered result after p flat decision forecast entry => exact booked_fees entry.booked
  | held d p position decision action continues remaining => exact ⟨rfl, rfl⟩
  | exited d p after position decision action continues booked => exact booked_fees booked

theorem funding_informed {e : FundingEvent K} {record : Option (Record K)}
    (h : Informed b past r) (hs : r.process b (.funding e) = .ok (record, r')) :
    Informed b (past ++ [.funding e]) r' := by
  obtain ⟨_, hstep⟩ := Runner.process_funding hs
  have hforwards := Runner.process_forwards hs
  constructor
  · intro row hrow
    obtain ⟨rate, hrate, hupdate⟩ := hstep.updated
    rcases RollingFundingModel.update_rows hupdate row hrow with hold | rfl
    · exact observed_later (h.rows row hold) hforwards
    · refine ⟨hstep.interval, ?_, e, rate, by simp, rfl, hrate, rfl⟩
      rw [hstep.lastTime]
      exact le_refl _
  · by_cases hwarmup : e.timeMs < b.config.startMs
    · rw [(hstep.warmup hwarmup).2.1]
      exact h.fees
    · obtain ⟨_, _, _, hledger⟩ := Ledger.settle_iff.mp (hstep.scored (not_lt.mp hwarmup)).1
      rw [← hledger]
      exact h.fees
  · intro e' o he
    have hold : .market e' ∈ past := by simpa using he
    rw [hstep.curves]
    exact h.sealed e' o hold

theorem market_informed {e : MarketEvent K} {record : Option (Record K)}
    (h : Informed b past r) (hs : r.process b (.market e) = .ok (record, r')) :
    Informed b (past ++ [.market e]) r' := by
  obtain ⟨_, _, financed, outcome, final, _, hstep⟩ := Runner.process_market hs
  have hforwards := Runner.process_forwards hs
  have hfinanced : financed.fees = b.fees ∧ financed.symbol = b.config.symbol := by
    obtain ⟨_, _, hledger⟩ := Ledger.finance_iff.mp hstep.finance
    rw [← hledger]
    exact h.fees
  constructor
  · intro row hrow
    rw [hstep.model] at hrow
    exact observed_later (h.rows row hrow) hforwards
  · cases hdecide : e.decide with
    | true =>
      obtain ⟨hfees, hsymbol⟩ := decided_fees (hstep.decided hdecide)
      exact ⟨hfees.trans hfinanced.1, hsymbol.trans hfinanced.2⟩
    | false =>
      rw [(hstep.idle hdecide).2.1]
      exact hfinanced
  · intro e' o he ho hpass
    rcases List.mem_append.mp he with hold | hnew
    · exact hstep.curves _ _ (h.sealed e' o hold ho hpass)
    · cases List.mem_singleton.mp hnew
      exact hstep.sealed o ho hpass

theorem process_informed {event : Event K} {record : Option (Record K)} (h : Informed b past r)
    (hs : r.process b event = .ok (record, r')) : Informed b (past ++ [event]) r' := by
  cases event with
  | funding e => exact funding_informed h hs
  | market e => exact market_informed h hs

theorem reaches_informed {executor : σ} {records : List (Record K)}
    (h : b.Reaches executor past r records) : Informed b past r :=
  Backtest.reaches_induction (fun past r _ => Informed b past r) (fun _ => start_informed)
    (fun _ _ _ _ _ _ => process_informed) h

end Steps

/-! ## Entries -/

/-- The entry of this record rests on `o`, `approval` and `forecast`. -/
structure EntryEvidence (b : Backtest K σ) (past : List (Event K)) (r : Runner K σ)
    (e : MarketEvent K) (record : Record K) (o : Opportunity K) (approval : FundingApproval)
    (forecast : FundingForecast K) : Prop where
  time : record.timeMs = e.timeMs
  opportunity : e.opportunity = some o
  approved : o.approval = some approval
  forecasts : record.forecast = some forecast
  impact : record.impactSha256 = some o.curve.artifactSha256
  curve : CurveAvailable b e.timeMs o.curve
  market : MarketAvailable e.timeMs e.perpMid.value o.market
  funding : ApprovalAvailable b e.timeMs (b.modelDigest r.model) approval
  fees : ∀ market, ∃ period, FeeAvailable b e.timeMs market period ∧
    r.ledger.fees.quote r.ledger.symbol market e.timeMs = .ok period.takerFraction
  observed : ∃ rows : List (Observation K), ∃ seed,
    (∀ row ∈ rows, ObservedBy past b.config.intervalHours e.timeMs row) ∧
      b.paths (rows.map (·.rate)) b.config.intervalHours r.model.prior
        b.config.policy.horizonSettlements b.config.draws seed = .ok forecast.prediction.samples

/-- The entries, and one curve a month: the opportunities admitted so far agree, and one admitted
now has the curve of those before it in the same month. -/
structure Evidence (b : Backtest K σ) [FloorRing K] (past : List (Event K)) (r : Runner K σ) :
    Prop where
  entries : ∀ event record r' d, r.process b event = .ok (some record, r') →
    record.decision = some d → d.action = .enter →
    ∃ e o approval forecast, event = .market e ∧ EntryEvidence b past r e record o approval forecast
  agree : ∀ e o e' o', .market e ∈ past → e.opportunity = some o → ¬ b.Unadmitted e o →
    .market e' ∈ past → e'.opportunity = some o' → ¬ b.Unadmitted e' o' →
    o'.foldStartMs = o.foldStartMs → o'.curve.artifactSha256 = o.curve.artifactSha256
  sealed : ∀ e o e' o' r', .market e ∈ past → e.opportunity = some o → ¬ b.Unadmitted e o →
    r.admitEvent b e' = .ok (some o', r') → o'.foldStartMs = o.foldStartMs →
    o'.curve.artifactSha256 = o.curve.artifactSha256

section Entries

variable {b : Backtest K σ} {r r' : Runner K σ} {past : List (Event K)} {e : MarketEvent K}
  {o : Opportunity K}

theorem admitted_curve (h : ¬ b.Unadmitted e o) : CurveAvailable b e.timeMs o.curve := by
  unfold Backtest.Unadmitted at h
  simp only [not_or, not_not, not_lt, not_and] at h
  obtain ⟨hfold, hevidence, hadmitted, hsymbol, hsynthetic, _⟩ := h
  refine ⟨?_, foldStart_le _, hadmitted, hsymbol, ?_⟩
  · rw [← hfold]
    exact hevidence
  · intro hkind
    simpa using hsynthetic hkind

theorem admitted_market (h : ¬ b.Unadmitted e o) :
    MarketAvailable e.timeMs e.perpMid.value o.market := by
  unfold Backtest.Unadmitted at h
  simp only [not_or, not_not, not_lt, not_le] at h
  obtain ⟨_, _, _, _, _, _, hobserved, hunexpired, hadv, _, hprice⟩ := h
  exact ⟨hobserved, hunexpired, hadv, hprice⟩

omit [Arithmetic K] in
/-- Both fees of the charges were quoted at the time of the event. -/
theorem charges_fees {charges : ExecutionCharges K} (h : b.charges e o = .ok charges)
    (market : Market) : ∃ period, FeeAvailable b e.timeMs market period := by
  unfold Backtest.charges at h
  obtain ⟨perpFee, hperp, h⟩ := bind_ok.mp h
  obtain ⟨spotFee, hspot, h⟩ := bind_ok.mp h
  rw [raising_ok] at hperp hspot
  have hquoted : ∃ rate, b.fees.quote b.config.symbol market e.timeMs = .ok rate := by
    cases market with
    | spot => exact ⟨spotFee, hspot⟩
    | perp => exact ⟨perpFee, hperp⟩
  obtain ⟨rate, hrate⟩ := hquoted
  obtain ⟨period, hlisted, hscope, hcovers, hobserved, hassumed, rfl⟩ :=
    FeeSchedule.quote_ok hrate
  exact ⟨period, hlisted, hscope, hcovers, hobserved, hassumed, hrate⟩

omit [Arithmetic K] in
theorem forecast_ok {timeMs : Int} {forecast : FundingForecast K} (hflat : r.position = none)
    (h : r.forecast b timeMs = .ok (some forecast)) :
    forecast.modelSha256 = b.modelDigest r.model ∧
      ∃ (rows : List (Observation K)) (last : Observation K),
        (∀ row ∈ rows, row ∈ r.model.history) ∧ last ∈ rows ∧
        forecast.prediction.intervalHours = last.intervalHours ∧
        b.paths (rows.map (·.rate)) last.intervalHours r.model.prior
          b.config.policy.horizonSettlements b.config.draws
          (b.seedOf b.config.seed b.config.symbol timeMs) = .ok forecast.prediction.samples := by
  unfold Runner.forecast at h
  split at h
  · rw [catching_some] at h
    unfold Runner.fromModel at h
    obtain ⟨prediction, hprediction, h⟩ := bind_ok.mp h
    have hremaining : r.remaining b = b.config.policy.horizonSettlements := by
      rw [Runner.remaining, hflat]
    rw [hremaining] at hprediction
    obtain ⟨rows, first, last, hrows, _, hlast, hsamples, heq⟩ :=
      RollingFundingModel.predict_ok hprediction
    unfold FundingForecast.make at h
    simp only [raising_ok, bind_ok, pure_ok] at h
    obtain ⟨_, _, _, _, rfl⟩ := h
    refine ⟨rfl, rows, last, hrows, hlast, ?_, hsamples⟩
    show prediction.intervalHours = _
    rw [heq]
  · cases h

variable [FloorRing K]

theorem entered_evidence {record : Record K} {financed : Ledger K} {outcome : Runner.Outcome K}
    {final : Valuation K} {result : SizingResult K} {after : Ledger K} {p : Position K}
    (hinformed : Informed b past r) (hclock : Runner.Received b r (.market e))
    (hstep : Runner.MarketStep b (r.seen (.market e)) e financed outcome final record r')
    (hflat : r.position = none)
    (hforecast : Runner.forecast b { r.seen (.market e) with ledger := financed } e.timeMs =
      .ok outcome.forecast)
    (entry : Runner.Entered b { r.seen (.market e) with ledger := financed } e outcome.forecast
      result after p) :
    ∃ o approval forecast, EntryEvidence b past r e record o approval forecast := by
  obtain ⟨o, r₁, charges, market, hadmitEvent, hcharges, hsized⟩ := entry.evidence
  obtain ⟨_, _, _, _, hfound⟩ := Runner.admit_ok hadmitEvent
  obtain ⟨ho, hpass, _⟩ := hfound o rfl
  obtain hwait | ⟨_, _, lots, q, _, _, hquote, _, hdecision⟩ := sizePosition_ok hsized
  · cases hwait.symm.trans entry.enters
  -- the quote that was booked went through the gates of the strategy
  obtain hwait | ⟨_, forecast, _, approval, hf, _, happroval, hadmitted⟩ :=
    CarryStrategy.decide_flat (quote_ok hquote).2.2
  · rw [← hdecision] at hwait
    cases hwait.symm.trans entry.enters
  have hf : outcome.forecast = some forecast := hf
  have happroval : o.approval = some approval := happroval
  rw [hf] at hforecast
  obtain ⟨hmodel, rows, last, hrows, hlast, hinterval, hsamples⟩ := forecast_ok hflat hforecast
  have hobserved : ∀ row ∈ rows, ObservedBy past b.config.intervalHours e.timeMs row := by
    intro row hrow
    obtain ⟨hsame, htime, hevent⟩ := hinformed.rows row (hrows row hrow)
    exact ⟨hsame, htime.trans hclock.forwards, hevent⟩
  have hcadence : last.intervalHours = b.config.intervalHours := (hobserved last hlast).1
  obtain ⟨_, _, hgates, _⟩ := hadmitted
  unfold FundingApproval.Refuses at hgates
  simp only [not_or, not_not, not_lt, not_le] at hgates
  obtain ⟨happroved, hsymbol, hdigest, hhorizon, hhours, hvalidated, hvalid⟩ := hgates
  obtain ⟨htime, _, _, _, _, hrecorded, _, _, _, himpact⟩ := hstep.recorded
  refine ⟨o, approval, forecast, ?_⟩
  constructor
  · exact htime
  · exact ho
  · exact happroval
  · exact hrecorded.trans hf
  · rw [himpact, ho]
    rfl
  · exact admitted_curve hpass
  · exact admitted_market hpass
  · refine ⟨by simpa using happroved, hsymbol, hvalidated, hvalid, ?_, hhorizon, ?_⟩
    · exact hdigest.trans hmodel
    · rw [hhours, hinterval, hcadence]
  · intro market
    obtain ⟨period, hperiod⟩ := charges_fees hcharges market
    refine ⟨period, hperiod, ?_⟩
    rw [hinformed.fees.1, hinformed.fees.2]
    exact hperiod.quoted
  · rw [hcadence] at hsamples
    exact ⟨rows, _, hobserved, hsamples⟩

theorem run_evidence {executor : σ} {records : List (Record K)}
    (h : b.Reaches executor past r records) : Evidence b past r := by
  have hinformed := reaches_informed h
  constructor
  · intro event record r' d hs hd haction
    cases event with
    | funding e =>
      obtain ⟨_, _, _, heq, _⟩ := Runner.process_decided hs hd
      cases heq
    | market e =>
      obtain ⟨hclock, _, financed, outcome, final, heq, hstep⟩ := Runner.process_market hs
      cases heq
      rw [hstep.recorded.2.2.2.1] at hd
      have hdecide : e.decide = true := by
        by_contra hidle
        rw [(hstep.idle (by simpa using hidle)).1] at hd
        cases hd
      have hdecided := hstep.decided hdecide
      generalize r'.ledger = ledger, r'.position = position at hdecided
      cases hdecided with
      | waited d' flat decision action =>
        cases hd.symm.trans decision
        cases action.symm.trans haction
      | entered result after p flat decision forecast entry =>
        obtain ⟨o, approval, f, hevidence⟩ :=
          entered_evidence hinformed hclock hstep flat forecast entry
        exact ⟨e, o, approval, f, rfl, hevidence⟩
      | held d' p position decision action continues remaining =>
        cases hd.symm.trans decision
        cases action.symm.trans haction
      | exited d' p after position decision action continues booked =>
        cases hd.symm.trans decision
        cases action.symm.trans haction
  · intro e o e' o' he ho hpass he' ho' hpass' hfold
    have hfirst := hinformed.sealed e o he ho hpass
    have hsecond := hinformed.sealed e' o' he' ho' hpass'
    rw [hfold, hfirst] at hsecond
    exact (Option.some.inj hsecond).symm
  · intro e o e' o' r' he ho hpass hadmitEvent hfold
    have hbefore := hinformed.sealed e o he ho hpass
    obtain ⟨hframe, _, _, _, hfound⟩ := Runner.admit_ok hadmitEvent
    obtain ⟨_, _, hnow⟩ := hfound o' rfl
    rw [hfold, hframe.curves _ _ hbefore] at hnow
    exact (Option.some.inj hnow).symm

end Entries

theorem run_evidence_study :
    letI := Arithmetic.python
    ∃ r records record r', (studyBacktest 100).Reaches () studyWarmup r records ∧
      r.process (studyBacktest 100) studyEntry = .ok (some record, r') ∧
      record.decision.map (·.action) = some .enter ∧
      Evidence (studyBacktest 100) studyWarmup r := by
  let := Arithmetic.python
  have hrun : ((studyBacktest 100).replay () (studyWarmup ++ [studyEntry])).toOption.any
      (fun s => s.2.getLast?.any fun record =>
        record.decision.map (·.action) = some .enter) = true := by
    decide +kernel
  obtain ⟨r', records', hreaches, henter⟩ := Backtest.reaches_of_replay hrun
  obtain ⟨r, records, record, hbefore, hstep, rfl⟩ := Backtest.reaches_snoc_inv hreaches
  obtain ⟨_, found, _, _, _, rfl, _⟩ := Runner.process_market hstep
  refine ⟨r, records, found, r', hbefore, hstep, ?_, run_evidence hbefore⟩
  simpa using henter

end Strategy
end PerpCarry
