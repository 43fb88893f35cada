import PerpCarry.Models.FundingWindow
import PerpCarry.Strategy.Cadence

/-!
# Strategy.TrainingRows

What a decision of a run is trained on.

The runner feeds its funding model event by event, the model forgets what is too old, and a decision
asks it for a window. Between them stands the clock: a funding event is refused unless it is the next
nominal settlement, and a market event unless the ledger is settled up to it. So the window of a
decision is known from its time alone.

* `process_observed`: one event keeps the history a window of the funding events so far.
* `market_settled`: a market event comes after every nominal settlement up to its time.
* `run_training`: the rows behind the forecast of any decision of any run.
-/

namespace PerpCarry
namespace Strategy

open Models (DAY_MS Observation RollingFundingModel evict_filter increasing_concat)
open Arithmetic (toFloat)

variable {K σ : Type} [Field K] [LinearOrder K]

/-! ## Settlements -/

/-- The `k`-th settlement, counted from the start of the warm-up. -/
def Backtest.nominal (b : Backtest K σ) (k : Nat) : Int :=
  b.config.warmupStartMs + k * b.config.intervalMs

namespace Backtest

variable {b : Backtest K σ}

theorem interval_ms_pos : 0 < b.config.intervalMs := by
  have := b.config.interval_pos
  unfold Config.intervalMs HOUR_MS
  omega

theorem nominal_lt {j k : Nat} : b.nominal j < b.nominal k ↔ j < k := by
  have hpos := b.interval_ms_pos
  unfold nominal
  constructor
  · intro h
    have hmul : (j : Int) * b.config.intervalMs < k * b.config.intervalMs := by linarith
    exact_mod_cast lt_of_mul_lt_mul_right hmul hpos.le
  · intro h
    have hmul : (j : Int) * b.config.intervalMs < k * b.config.intervalMs :=
      mul_lt_mul_of_pos_right (by exact_mod_cast h) hpos
    linarith

theorem nominal_succ (k : Nat) : b.nominal (k + 1) = b.nominal k + b.config.intervalMs := by
  unfold nominal
  push_cast
  ring

/-- The study starts on a nominal settlement: both are whole days or parts of a day. -/
theorem start_nominal : ∃ k, b.config.startMs = b.nominal k := by
  have hpos := b.interval_ms_pos
  have hday : b.config.intervalMs ∣ DAY_MS := by
    have h24 : b.config.intervalHours ∣ 24 := Int.dvd_of_emod_eq_zero b.config.interval_divides
    exact mul_dvd_mul_right h24 HOUR_MS
  have hstart : b.config.intervalMs ∣ b.config.startMs := by
    refine hday.trans (Int.dvd_of_emod_eq_zero ?_)
    rw [b.config.start_fold]
    exact foldStart_aligned _
  have hwarmup : b.config.intervalMs ∣ b.config.warmupStartMs :=
    Int.dvd_of_emod_eq_zero b.config.warmup_aligned
  obtain ⟨n, hn⟩ := dvd_sub hstart hwarmup
  have hlt := b.config.warmup_lt_start
  have hn_pos : 0 ≤ n := by
    by_contra hneg
    have := mul_neg_of_pos_of_neg hpos (not_le.mp hneg)
    omega
  refine ⟨n.toNat, ?_⟩
  rw [nominal, Int.toNat_of_nonneg hn_pos]
  linarith

end Backtest

/-! ## Observations -/

variable [Arithmetic K]

/-- The row of a funding event: the model is given its rate as a float. -/
def Event.observation : Event K → Option (Observation K)
  | .funding e => some ⟨e.timeMs, toFloat e.rate.value, e.intervalHours⟩
  | .market _ => none

def observations (events : List (Event K)) : List (Observation K) :=
  events.filterMap Event.observation

/-- The rows a decision at this time may use. -/
def trailing (b : Backtest K σ) (timeMs : Int) (events : List (Event K)) : List (Observation K) :=
  (observations events).filter fun row => timeMs - b.config.rollingDays * DAY_MS ≤ row.timeMs

theorem observations_funding {past : List (Event K)} {e : FundingEvent K} :
    observations (past ++ [.funding e]) =
      observations past ++ [⟨e.timeMs, toFloat e.rate.value, e.intervalHours⟩] := by
  simp [observations, Event.observation]

theorem observations_market {past : List (Event K)} {e : MarketEvent K} :
    observations (past ++ [.market e]) = observations past := by
  simp [observations, Event.observation]

/-- The history of the model beside the funding events so far, and where the clock stands. -/
structure Observed (b : Backtest K σ) (past : List (Event K)) (r : Runner K σ) : Prop where
  times : (observations past).map (·.timeMs) =
    (List.range (observations past).length).map b.nominal
  hours : ∀ row ∈ observations past, row.intervalHours = b.config.intervalHours
  next : r.nextObservationMs = b.nominal (observations past).length
  seen : ∀ row ∈ observations past, row.timeMs ≤ r.lastTime
  history : r.model.history = (observations past).filter fun row =>
    r.nextObservationMs - b.config.intervalMs - b.config.rollingDays * DAY_MS ≤ row.timeMs
  model : r.model.rollingDays = b.config.rollingDays ∧
    r.model.minSettlements = b.config.minSettlements ∧ r.model.prior = b.config.prior
  boundary : r.ledger.nextFundingMs = max b.config.startMs r.nextObservationMs

/-! ## One event -/

section Steps

variable {b : Backtest K σ} {r r' : Runner K σ} {past : List (Event K)}

theorem start_observed {executor : σ} (h : b.start executor = .ok r) : Observed b [] r := by
  unfold Backtest.start at h
  obtain ⟨_, _, h⟩ := bind_ok.mp h
  obtain ⟨ledger, hledger, h⟩ := bind_ok.mp h
  obtain ⟨_, _, _, _, hledger⟩ := Ledger.start_ok.mp (raising_ok.mp hledger)
  cases h
  constructor
  · rfl
  · intro row hrow
    cases hrow
  · simp [Backtest.nominal, observations]
  · intro row hrow
    cases hrow
  · rfl
  · exact ⟨rfl, rfl, rfl⟩
  · rw [max_eq_left b.config.warmup_lt_start.le, ← hledger]

namespace Observed

theorem increasing (h : Observed b past r) :
    (observations past).Pairwise fun x y => x.timeMs < y.timeMs := by
  have htimes : ((observations past).map (·.timeMs)).Pairwise (· < ·) := by
    rw [h.times, List.pairwise_map]
    exact List.pairwise_lt_range.imp fun hlt => Backtest.nominal_lt.mpr hlt
  exact List.pairwise_map.mp htimes

theorem before_next (h : Observed b past r) {row : Observation K} (hrow : row ∈ observations past) :
    row.timeMs < r.nextObservationMs := by
  have hmem : row.timeMs ∈ (observations past).map (·.timeMs) := List.mem_map_of_mem hrow
  rw [h.times] at hmem
  obtain ⟨k, hk, htime⟩ := List.mem_map.mp hmem
  rw [h.next]
  show row.timeMs < _
  rw [← htime]
  exact Backtest.nominal_lt.mpr (List.mem_range.mp hk)

/-- The next row of the model: nothing is reset, and what is evicted is what is too old. -/
theorem update_history (h : Observed b past r) {rate : K} {m : RollingFundingModel K}
    (hm : r.model.update r.nextObservationMs rate b.config.intervalHours = .ok m) :
    (m.history = (observations past ++
          [(⟨r.nextObservationMs, rate, b.config.intervalHours⟩ : Observation K)]).filter
        fun row => r.nextObservationMs - b.config.rollingDays * DAY_MS ≤ row.timeMs) ∧
      m.rollingDays = r.model.rollingDays ∧ m.minSettlements = r.model.minSettlements ∧
      m.prior = r.model.prior := by
  have hpos := b.interval_ms_pos
  unfold RollingFundingModel.update at hm
  simp only [bind_ok, pure_ok] at hm
  obtain ⟨_, _, _, _, _, _, _, _, rfl⟩ := hm
  refine ⟨?_, rfl, rfl, rfl⟩
  have hkept : r.model.resets b.config.intervalHours = false := by
    unfold RollingFundingModel.resets
    split
    · rfl
    · rename_i previous hprevious
      have hmem := List.mem_of_getLast? hprevious
      rw [h.history] at hmem
      simpa using (h.hours previous (List.mem_filter.mp hmem).1).symm
  have hincreasing : (r.model.history ++
      [(⟨r.nextObservationMs, rate, b.config.intervalHours⟩ : Observation K)]).Pairwise
        fun x y => x.timeMs < y.timeMs := by
    rw [h.history]
    refine increasing_concat (h.increasing.filter _) fun newest hnewest => ?_
    exact h.before_next (List.mem_filter.mp (List.mem_of_getLast? hnewest)).1
  rw [hkept]
  dsimp only
  rw [h.model.1, if_neg Bool.false_ne_true, evict_filter hincreasing, h.history, List.filter_append,
    List.filter_append]
  congr 1
  refine Lib.filter_both fun row => ?_
  simp only [decide_eq_true_eq]
  constructor
  · exact fun hboth => hboth.1
  · exact fun hnew => ⟨hnew, by omega⟩

end Observed

/-- The clock of the observations moves on by the interval of the event. -/
theorem funding_next {e : FundingEvent K} {record : Option (Record K)}
    (h : r.funding b e = .ok (record, r')) :
    r'.nextObservationMs = r.nextObservationMs + e.intervalHours * HOUR_MS := by
  unfold Runner.funding at h
  obtain ⟨_, _, h⟩ := bind_ok.mp h
  obtain ⟨_, _, h⟩ := bind_ok.mp h
  obtain ⟨r₁, hsettled, h⟩ := bind_ok.mp h
  obtain ⟨_, _, h⟩ := bind_ok.mp h
  have hsame : r₁.nextObservationMs = r.nextObservationMs := by
    split at hsettled
    · rw [(Runner.settle_ok hsettled).2.2]
    · cases hsettled
      rfl
  split at h
  · cases h
    rw [← hsame]
  · cases h
    rw [← hsame]

omit [Arithmetic K] in
theorem selection_ok {m : RollingFundingModel K} {asOf : Int}
    {rows : { rows : List (Observation K) // rows ≠ [] }} (h : m.selection asOf = .ok rows) :
    (rows.val = m.history.filter fun row => asOf - m.rollingDays * DAY_MS ≤ row.timeMs) ∧
      m.minSettlements ≤ rows.val.length := by
  unfold RollingFundingModel.selection at h
  split at h
  · cases h
  · simp only [bind_ok] at h
    obtain ⟨_, _, _, _, _, _, h⟩ := h
    split at h
    · cases h
    · rename_i henough
      cases h
      exact ⟨rfl, not_lt.mp henough⟩

variable [FloorRing K]

theorem funding_observed {e : FundingEvent K} {record : Option (Record K)}
    (h : Observed b past r) (hs : r.process b (.funding e) = .ok (record, r')) :
    Observed b (past ++ [.funding e]) r' := by
  obtain ⟨hclock, hstep⟩ := Runner.process_funding hs
  obtain ⟨rate, hrate, hupdate⟩ := hstep.updated
  have htime : e.timeMs = r.nextObservationMs := hstep.observed
  have hhours : e.intervalHours = b.config.intervalHours := hstep.interval
  have hnext : r'.nextObservationMs = r.nextObservationMs + b.config.intervalMs := by
    unfold Runner.process at hs
    obtain ⟨r₁, hreceived, hfunding⟩ := bind_ok.mp hs
    obtain ⟨_, rfl⟩ := Runner.receive_ok hreceived
    rw [funding_next hfunding, hhours]
    rfl
  rw [htime, hhours] at hupdate
  obtain ⟨hhistory, hrolling, hmin, hprior⟩ := h.update_history hupdate
  obtain ⟨hrolling', hmin', hprior'⟩ := h.model
  have hrow : observations (past ++ [.funding e]) =
      observations past ++ [⟨r.nextObservationMs, toFloat rate, b.config.intervalHours⟩] := by
    rw [observations_funding, htime, hhours, hrate]
    rfl
  constructor
  · rw [hrow, List.map_append, List.length_append, List.length_singleton, List.range_succ,
      List.map_append, h.times, h.next]
    rfl
  · rw [hrow]
    intro row hmem
    rcases List.mem_append.mp hmem with hold | hnew
    · exact h.hours row hold
    · rw [List.mem_singleton.mp hnew]
  · rw [hrow, hnext, h.next, List.length_append, List.length_singleton, b.nominal_succ]
  · rw [hrow, Runner.process_lastTime hs]
    intro row hmem
    rcases List.mem_append.mp hmem with hold | hnew
    · exact (h.seen row hold).trans hclock.forwards
    · rw [List.mem_singleton.mp hnew]
      exact htime.ge
  · rw [hrow, hnext, hhistory]
    congr 1
    funext row
    congr 2
    ring
  · exact ⟨hrolling.trans hrolling', hmin.trans hmin', hprior.trans hprior'⟩
  · have hboundary := h.boundary
    have hpos := b.interval_ms_pos
    rw [hnext]
    by_cases hscored : b.config.startMs ≤ e.timeMs
    · obtain ⟨_, _, ⟨_, _, _, hdue, _⟩, hledger⟩ := Ledger.settle_iff.mp (hstep.scored hscored).1
      have hdue : e.timeMs = r.ledger.nextFundingMs := hdue
      have hmoved : r'.ledger.nextFundingMs = e.timeMs + b.config.intervalMs := by
        rw [← hledger, Config.intervalMs, ← hhours]
      rw [hmoved, htime, max_eq_right]
      omega
    · have hsame : r'.ledger.nextFundingMs = r.ledger.nextFundingMs := by
        rw [(hstep.warmup (not_le.mp hscored)).2.1]
        rfl
      -- a settlement before the study is followed by one that is not after its start
      obtain ⟨k, hk⟩ := b.start_nominal
      have hbefore : b.nominal (observations past).length < b.nominal k := by
        rw [← h.next, ← hk, ← htime]
        exact not_le.mp hscored
      have hle : b.nominal ((observations past).length + 1) ≤ b.nominal k := by
        rw [← not_lt, b.nominal_lt]
        have := b.nominal_lt.mp hbefore
        omega
      rw [b.nominal_succ, ← h.next, ← hk] at hle
      rw [hsame, hboundary, max_eq_left hle, max_eq_left]
      omega

theorem market_observed {e : MarketEvent K} {record : Option (Record K)}
    (h : Observed b past r) (hs : r.process b (.market e) = .ok (record, r')) :
    Observed b (past ++ [.market e]) r' := by
  obtain ⟨_, _, _, _, _, _, hstep⟩ := Runner.process_market hs
  have hmodel : r'.model = r.model := hstep.model
  have hnext : r'.nextObservationMs = r.nextObservationMs := hstep.nextObservation
  constructor
  · rw [observations_market]
    exact h.times
  · rw [observations_market]
    exact h.hours
  · rw [observations_market, hnext]
    exact h.next
  · rw [observations_market]
    exact fun row hrow => (h.seen row hrow).trans (Runner.process_forwards hs)
  · rw [observations_market, hnext, hmodel]
    exact h.history
  · rw [hmodel]
    exact h.model
  · rw [hnext, (market_boundary hstep).1]
    exact h.boundary

theorem process_observed {event : Event K} {record : Option (Record K)} (h : Observed b past r)
    (hs : r.process b event = .ok (record, r')) : Observed b (past ++ [event]) r' := by
  cases event with
  | funding e => exact funding_observed h hs
  | market e => exact market_observed h hs

theorem reaches_observed {executor : σ} {records : List (Record K)}
    (h : b.Reaches executor past r records) : Observed b past r :=
  Backtest.reaches_induction (fun past r _ => Observed b past r) (fun _ => start_observed)
    (fun _ _ _ _ _ _ => process_observed) h

/-! ## Decisions -/

/-- A market event comes after all the nominal settlements up to its time, and no other. -/
theorem market_settled {e : MarketEvent K} {record : Option (Record K)} (h : Observed b past r)
    (hs : r.process b (.market e) = .ok (record, r')) (k : Nat) :
    b.nominal k ≤ e.timeMs ↔ k < (observations past).length := by
  obtain ⟨hclock, _, _, _, _, _, hstep⟩ := Runner.process_market hs
  constructor
  · intro hle
    have hscored := scope_scored hstep.scope
    have hearly := (market_boundary hstep).2
    rw [h.boundary] at hearly
    have hnext : e.timeMs < b.nominal (observations past).length := by
      rw [← h.next]
      exact (lt_max_iff.mp hearly).resolve_left (not_lt.mpr hscored)
    exact b.nominal_lt.mp (hle.trans_lt hnext)
  · intro hlt
    have hmem : b.nominal k ∈ (observations past).map (·.timeMs) := by
      rw [h.times]
      exact List.mem_map_of_mem (List.mem_range.mpr hlt)
    obtain ⟨row, hrow, htime⟩ := List.mem_map.mp hmem
    rw [← htime]
    exact (h.seen row hrow).trans hclock.forwards

/-- The forecast of a record is the one that its decision asked for. -/
theorem market_forecast {e : MarketEvent K} {record : Record K} {f : FundingForecast K}
    (h : r.market b e = .ok (record, r')) (hf : record.forecast = some f) :
    r.forecast b e.timeMs = .ok (some f) := by
  unfold Runner.market at h
  obtain ⟨_, _, h⟩ := bind_ok.mp h
  obtain ⟨financed, _, h⟩ := bind_ok.mp h
  obtain ⟨_, _, h⟩ := bind_ok.mp h
  obtain ⟨_, _, h⟩ := bind_ok.mp h
  obtain ⟨_, _, h⟩ := bind_ok.mp h
  obtain ⟨⟨outcome, r₁⟩, hacts, h⟩ := bind_ok.mp h
  obtain ⟨_, _, h⟩ := bind_ok.mp h
  obtain ⟨_, _, h⟩ := bind_ok.mp h
  unfold Runner.marketRecord at h
  obtain ⟨⟨_, _⟩, _, h⟩ := bind_ok.mp h
  cases h
  have hf : outcome.forecast = some f := hf
  split at hacts
  · unfold Runner.decision at hacts
    obtain ⟨forecast, hforecast, hacts⟩ := bind_ok.mp hacts
    obtain ⟨⟨_, r₂⟩, _, hacts⟩ := bind_ok.mp hacts
    have hsame : forecast = outcome.forecast := by
      dsimp only at hacts
      split at hacts
      · obtain ⟨⟨_, _, _⟩, _, hacts⟩ := bind_ok.mp hacts
        cases hacts
        rfl
      · obtain ⟨⟨_, _⟩, _, hacts⟩ := bind_ok.mp hacts
        cases hacts
        rfl
    rw [← hf, ← hsame]
    exact hforecast
  · cases hacts
    cases hf

end Steps

/-! ## The rows behind a forecast -/

/-- The forecast `f` of a decision at `timeMs`, about `remaining` settlements, is trained on the
nominal settlements of the trailing window, each once, and on nothing else. -/
structure Trained (b : Backtest K σ) (past : List (Event K)) (timeMs remaining : Int)
    (f : FundingForecast K) : Prop where
  complete : (observations past).map (·.timeMs) =
    (List.range (observations past).length).map b.nominal
  current : ∀ k : Nat, b.nominal k ≤ timeMs ↔ k < (observations past).length
  enough : b.config.minSettlements ≤ (trailing b timeMs past).length
  settlements : f.prediction.trainingSettlements = (trailing b timeMs past).length
  first : (trailing b timeMs past).head?.map (·.timeMs) = some f.prediction.trainingFirstTime
  last : (trailing b timeMs past).getLast?.map (·.timeMs) = some f.prediction.lastObservationTime
  asked : f.prediction.asOf = timeMs ∧ f.prediction.horizonSettlements = remaining ∧ 0 < remaining ∧
    f.prediction.intervalHours = b.config.intervalHours
  samples : b.paths ((trailing b timeMs past).map (·.rate)) b.config.intervalHours b.config.prior
    remaining b.config.draws (b.seedOf b.config.seed b.config.symbol timeMs) =
      .ok f.prediction.samples

section Runs

variable {b : Backtest K σ} {r r' : Runner K σ} {past : List (Event K)} {e : MarketEvent K}

/-- On a runner that stands where its events have put it, the model's window is the trailing one. -/
theorem window_trailing (h : Observed b past r)
    (hsettled : ∀ k : Nat, b.nominal k ≤ e.timeMs ↔ k < (observations past).length) :
    (r.model.history.filter fun row => e.timeMs - r.model.rollingDays * DAY_MS ≤ row.timeMs) =
      trailing b e.timeMs past := by
  unfold trailing
  rw [h.history, h.model.1]
  cases hlength : (observations past).length with
  | zero => simp [List.length_eq_zero_iff.mp hlength]
  | succ n =>
    have hlast : b.nominal n ≤ e.timeMs := (hsettled n).mpr (by omega)
    have hnext := h.next
    rw [hlength, b.nominal_succ] at hnext
    refine Lib.filter_both fun row => ?_
    simp only [decide_eq_true_eq]
    constructor
    · exact fun hboth => hboth.1
    · exact fun hnew => ⟨hnew, by omega⟩

theorem forecast_trained {f : FundingForecast K} (h : Observed b past r)
    (hsettled : ∀ k : Nat, b.nominal k ≤ e.timeMs ↔ k < (observations past).length)
    (hf : r.forecast b e.timeMs = .ok (some f)) :
    Trained b past e.timeMs (r.remaining b) f := by
  unfold Runner.forecast at hf
  split at hf
  · rename_i hpos
    rw [catching_some] at hf
    unfold Runner.fromModel at hf
    obtain ⟨prediction, hprediction, hf⟩ := bind_ok.mp hf
    unfold FundingForecast.make at hf
    simp only [raising_ok, bind_ok, pure_ok] at hf
    obtain ⟨_, _, _, _, rfl⟩ := hf
    unfold RollingFundingModel.predictCumulativeFunding at hprediction
    simp only [bind_ok, pure_ok] at hprediction
    obtain ⟨_, _, _, _, _, _, rows, hrows, samples, hsamples, rfl⟩ := hprediction
    obtain ⟨hselected, henough⟩ := selection_ok hrows
    rw [window_trailing h hsettled] at hselected
    rw [h.model.2.1] at henough
    have hlast : (rows.val.getLast rows.property).intervalHours = b.config.intervalHours := by
      have hmem := List.getLast_mem rows.property
      have hobserved : ∀ row ∈ rows.val, row ∈ observations past := by
        intro row hrow
        rw [hselected] at hrow
        exact (List.mem_filter.mp hrow).1
      exact h.hours _ (hobserved _ hmem)
    rw [hlast, h.model.2.2] at hsamples
    constructor
    · exact h.times
    · exact hsettled
    · rw [← hselected]
      exact henough
    · rw [← hselected]
    · rw [← hselected, List.head?_eq_some_head rows.property]
      rfl
    · rw [← hselected, List.getLast?_eq_some_getLast rows.property]
      rfl
    · exact ⟨rfl, rfl, hpos, hlast⟩
    · rw [← hselected]
      exact hsamples
  · cases hf

variable [FloorRing K]

theorem run_training {executor : σ} {records : List (Record K)} {record : Record K}
    {f : FundingForecast K} (h : b.Reaches executor past r records)
    (hs : r.process b (.market e) = .ok (some record, r')) (hf : record.forecast = some f) :
    Trained b past e.timeMs (r.remaining b) f := by
  have hobserved := reaches_observed h
  have hasked : r.forecast b e.timeMs = .ok (some f) := by
    unfold Runner.process at hs
    obtain ⟨r₁, hreceived, hmarket⟩ := bind_ok.mp hs
    obtain ⟨_, rfl⟩ := Runner.receive_ok hreceived
    obtain ⟨⟨found, r₂⟩, hmarket, heq⟩ := bind_ok.mp hmarket
    cases heq
    have hseen := market_forecast hmarket hf
    exact hseen
  exact forecast_trained hobserved (market_settled hobserved hs) hasked

end Runs

theorem run_training_study :
    letI := Arithmetic.python
    ∃ r records record r' f, (studyBacktest 100).Reaches () studyWarmup r records ∧
      r.process (studyBacktest 100) studyEntry = .ok (some record, r') ∧
      record.forecast = some f ∧ f.prediction.trainingSettlements = 4 ∧
      Trained (studyBacktest 100) studyWarmup 2678416000 (r.remaining (studyBacktest 100)) f := by
  let := Arithmetic.python
  have hrun : ((studyBacktest 100).replay () (studyWarmup ++ [studyEntry])).toOption.any
      (fun s => s.2.getLast?.any fun record =>
        record.forecast.any (·.prediction.trainingSettlements = 4)) = true := by
    decide +kernel
  obtain ⟨r', records', hreaches, hforecast⟩ := Backtest.reaches_of_replay hrun
  obtain ⟨r, records, record, hbefore, hstep, rfl⟩ := Backtest.reaches_snoc_inv hreaches
  obtain ⟨_, found, _, _, _, rfl, _⟩ := Runner.process_market hstep
  rw [Option.toList_some, List.getLast?_concat] at hforecast
  cases hf : found.forecast with
  | none =>
    rw [Option.any_some, hf] at hforecast
    cases hforecast
  | some f =>
    rw [Option.any_some, hf] at hforecast
    exact ⟨r, records, found, r', f, hbefore, hstep, hf, by simpa using hforecast,
      run_training hbefore hstep hf⟩

end Strategy
end PerpCarry
