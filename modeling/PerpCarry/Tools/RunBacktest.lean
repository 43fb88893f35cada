import PerpCarry.Strategy.Cadence

/-!
# Tools.RunBacktest

The footer of a run: the record loop of `main` in `python/perpcarry/tools/run_backtest.py`.

`main` looks at two timestamps only, the last settlement and the last market event. The rows are
those of the event file, each decoded or refused where it is reached; every refusal modelled is one
that `main` catches. `WindowCovered` says what a complete run contains.

* `RecordStep`, `process_record`: the record of an event is the event's tick.
* `Reported`: what the records of a run say of its clocks.
* `mem_schedule`, `count_schedule`: where a tick stands in the schedule.
* `footer_complete_iff`: the status is complete if and only if the window is covered.
-/

namespace PerpCarry
namespace RunBacktest

open Strategy

/-- What the loop over the records keeps. -/
structure Written (K : Type) where
  lastFunding : Option Int := none
  lastMarket : Option Int := none
  lastRecord : Option (Record K) := none
  count : Nat := 0

/-- The body of the loop. -/
def Written.write {K : Type} (self : Written K) (record : Record K) : Written K where
  lastFunding := if record.eventType = .funding then some record.timeMs else self.lastFunding
  lastMarket := if record.eventType = .funding then self.lastMarket else some record.timeMs
  lastRecord := some record
  count := self.count + 1

theorem write_funding {K : Type} {written : Written K} {record : Record K}
    (h : record.eventType = .funding) :
    (written.write record).lastFunding = some record.timeMs ∧
      (written.write record).lastMarket = written.lastMarket := by
  simp [Written.write, h]

theorem write_market {K : Type} {written : Written K} {record : Record K}
    (h : record.eventType = .market) :
    (written.write record).lastFunding = written.lastFunding ∧
      (written.write record).lastMarket = some record.timeMs := by
  simp [Written.write, h]

variable {K σ : Type} [Field K] [LinearOrder K]

inductive Status where
  | complete
  | incompleteCoverage
  | error
  deriving DecidableEq

/-- The footer; after an error only `records` and `reason` are written with the status. -/
structure Footer (K : Type) where
  status : Status
  records : Nat
  reason : Option String := none
  windowComplete : Bool := false
  openQuantityBase : Option K := none
  terminalValuationTimeMs : Option Int := none
  lastFundingTimeMs : Option Int := none

/-- The two timestamps stand where the window ends. -/
def windowComplete (config : Config K) (written : Written K) : Bool :=
  written.lastFunding = some (config.endMs - config.intervalMs) ∧
    written.lastMarket = some (config.endMs - 1)

/-- The footer of a run over the rows of an event file. -/
def footer [FloorRing K] (b : Backtest K σ) (executor : σ)
    (rows : List (Except Raised (Event K))) : Footer K :=
  let (records, error) := b.iterBacktest executor rows
  let written : Written K := records.foldl Written.write {}
  match error with
  | some e =>
    { status := .error, records := written.count, reason := some e.message }
  | none =>
    let complete := windowComplete b.config written
    { status := if complete then .complete else .incompleteCoverage
      records := written.count
      windowComplete := complete
      openQuantityBase := some ((written.lastRecord.map (·.quantityBase)).getD 0)
      terminalValuationTimeMs := written.lastMarket
      lastFundingTimeMs := written.lastFunding }

/-- Every nominal settlement and every scheduled decision of the window has one record, and the
book is valued at the end. -/
structure WindowCovered (config : Config K) (records : List (Record K)) : Prop where
  settlements : ∀ k : Nat, config.startMs + k * config.intervalMs < config.endMs →
    (records.countP fun record =>
      record.eventType = .funding ∧ record.timeMs = config.startMs + k * config.intervalMs) = 1
  decisions : ∀ k : Nat,
    config.startMs + k * config.intervalMs + config.decisionDelayMs < config.endMs →
    (records.countP fun record => record.decision.isSome ∧
      record.timeMs = config.startMs + k * config.intervalMs + config.decisionDelayMs) = 1
  terminal : ∃ record ∈ records, record.eventType = .market ∧
    record.timeMs = config.endMs - 1 ∧ record.valuation.isSome

/-! ## Records -/

/-- The tick a record reports. -/
def recordTick (record : Record K) : Option (Tick × Int) :=
  match record.eventType with
  | .funding => some (.settlement, record.timeMs)
  | .market => if record.decision.isSome then some (.decision, record.timeMs) else none

section Records

variable {b : Backtest K σ} {r r' : Runner K σ}

/-- An event and its record. -/
structure RecordStep (b : Backtest K σ) (r : Runner K σ) (event : Event K)
    (record : Option (Record K)) (r' : Runner K σ) : Prop where
  forwards : r.lastTime ≤ r'.lastTime
  next : r.nextDecisionMs ≤ r'.nextDecisionMs
  tick : record.toList.filterMap recordTick = (b.tick event).toList
  time : ∀ found, record = some found → found.timeMs = r'.lastTime ∧ found.timeMs < b.config.endMs
  funding : ∀ found, record = some found → found.eventType = .funding →
    found.decision = none ∧ r'.ledger.nextFundingMs = found.timeMs + b.config.intervalMs
  market : ∀ found, record = some found → found.eventType = .market →
    found.valuation.isSome ∧ found.timeMs ≤ r'.nextDecisionMs ∧
      r'.ledger.nextFundingMs = r.ledger.nextFundingMs
  silent : record = none → r'.ledger.nextFundingMs = r.ledger.nextFundingMs

/-- What the records of a run say of its clocks. -/
structure Reported (b : Backtest K σ) (events : List (Event K)) (r : Runner K σ)
    (records : List (Record K)) (written : Written K) : Prop where
  ticks : records.filterMap recordTick = b.ticks events
  silent : ∀ record ∈ records, record.eventType = .funding → record.decision = none
  earlier : ∀ record ∈ records, record.timeMs ≤ r.lastTime ∧ record.timeMs < b.config.endMs
  market : ∀ record ∈ records, record.eventType = .market →
    record.valuation.isSome ∧ record.timeMs ≤ r.nextDecisionMs ∧
      ∃ t, written.lastMarket = some t ∧ record.timeMs ≤ t
  lastMarket : ∀ t, written.lastMarket = some t →
    ∃ record ∈ records, record.eventType = .market ∧ record.timeMs = t
  lastFunding : ∀ t, written.lastFunding = some t →
    r.ledger.nextFundingMs = t + b.config.intervalMs
  unfunded : written.lastFunding = none → r.ledger.nextFundingMs = b.config.startMs

variable {past : List (Event K)} {records : List (Record K)} {written : Written K}

theorem start_reported {executor : σ} (h : b.start executor = .ok r) :
    Reported b [] r [] {} := by
  have hfunding := (start_clocks h).1.funding
  refine ⟨rfl, (fun _ h => nomatch h), (fun _ h => nomatch h), (fun _ h => nomatch h),
    (fun _ h => nomatch h), (fun _ h => nomatch h), ?_⟩
  intro _
  rw [hfunding]
  simp

/-- An event without a record only moves the clocks forward. -/
theorem silent_reported {event : Event K} (h : Reported b past r records written)
    (hstep : RecordStep b r event none r') :
    Reported b (past ++ [event]) r' records written := by
  have hledger := hstep.silent rfl
  constructor
  · rw [Backtest.ticks_snoc, ← hstep.tick, h.ticks]
    simp
  · exact h.silent
  · intro record hmem
    exact ⟨(h.earlier record hmem).1.trans hstep.forwards, (h.earlier record hmem).2⟩
  · intro record hmem hmarket
    obtain ⟨hvalued, hdue, hlast⟩ := h.market record hmem hmarket
    exact ⟨hvalued, hdue.trans hstep.next, hlast⟩
  · exact h.lastMarket
  · intro t ht
    rw [hledger]
    exact h.lastFunding t ht
  · intro hnone
    rw [hledger]
    exact h.unfunded hnone

theorem record_reported {event : Event K} {found : Record K}
    (h : Reported b past r records written) (hstep : RecordStep b r event (some found) r') :
    Reported b (past ++ [event]) r' (records ++ [found]) (written.write found) := by
  obtain ⟨htime, hwindow⟩ := hstep.time found rfl
  have hlater : ∀ record ∈ records, record.timeMs ≤ found.timeMs := by
    intro record hmem
    rw [htime]
    exact (h.earlier record hmem).1.trans hstep.forwards
  constructor
  · rw [Backtest.ticks_snoc, ← hstep.tick, List.filterMap_append, h.ticks]
    rfl
  · intro record hmem hfunding
    rcases List.mem_append.mp hmem with hold | hnew
    · exact h.silent record hold hfunding
    · cases List.mem_singleton.mp hnew
      exact (hstep.funding found rfl hfunding).1
  · intro record hmem
    rcases List.mem_append.mp hmem with hold | hnew
    · exact ⟨(h.earlier record hold).1.trans hstep.forwards, (h.earlier record hold).2⟩
    · cases List.mem_singleton.mp hnew
      exact ⟨le_of_eq htime, hwindow⟩
  · intro record hmem hmarket
    rcases List.mem_append.mp hmem with hold | hnew
    · obtain ⟨hvalued, hdue, t, hlast, hle⟩ := h.market record hold hmarket
      refine ⟨hvalued, hdue.trans hstep.next, ?_⟩
      cases htype : found.eventType with
      | funding => exact ⟨t, (write_funding htype).2.trans hlast, hle⟩
      | market => exact ⟨found.timeMs, (write_market htype).2, hlater record hold⟩
    · cases List.mem_singleton.mp hnew
      obtain ⟨hvalued, hdue, _⟩ := hstep.market found rfl hmarket
      exact ⟨hvalued, hdue, found.timeMs, (write_market hmarket).2, le_refl _⟩
  · intro t ht
    cases htype : found.eventType with
    | funding =>
      rw [(write_funding htype).2] at ht
      obtain ⟨record, hmem, hmarket⟩ := h.lastMarket t ht
      exact ⟨record, List.mem_append_left _ hmem, hmarket⟩
    | market =>
      rw [(write_market htype).2] at ht
      cases ht
      exact ⟨found, by simp, htype, rfl⟩
  · intro t ht
    cases htype : found.eventType with
    | funding =>
      rw [(write_funding htype).1] at ht
      cases ht
      exact (hstep.funding found rfl htype).2
    | market =>
      rw [(write_market htype).1] at ht
      rw [(hstep.market found rfl htype).2.2]
      exact h.lastFunding t ht
  · intro hnone
    cases htype : found.eventType with
    | funding =>
      rw [(write_funding htype).1] at hnone
      cases hnone
    | market =>
      rw [(write_market htype).1] at hnone
      rw [(hstep.market found rfl htype).2.2]
      exact h.unfunded hnone

variable [FloorRing K]

theorem funding_record {e : FundingEvent K} {record : Option (Record K)}
    (hs : r.process b (.funding e) = .ok (record, r')) :
    RecordStep b r (.funding e) record r' := by
  obtain ⟨hclock, hstep⟩ := Runner.process_funding hs
  have hlast : r'.lastTime = e.timeMs := hstep.lastTime
  have hforwards := Runner.process_forwards hs
  have hnext : r.nextDecisionMs ≤ r'.nextDecisionMs := le_of_eq hstep.nextDecision.symm
  by_cases hscored : b.config.startMs ≤ e.timeMs
  · obtain ⟨hsettled, _, _, hrecord⟩ := hstep.scored hscored
    obtain ⟨_, _, _, hledger⟩ := Ledger.settle_ok.mp hsettled
    have htick : b.tick (.funding e) = some (.settlement, e.timeMs) := if_pos hscored
    subst hrecord
    refine ⟨hforwards, hnext, ?_, ?_, ?_, ?_, ?_⟩
    · rw [htick]
      rfl
    · intro found h
      cases h
      exact ⟨hlast.symm, hclock.window.2⟩
    · intro found h _
      cases h
      refine ⟨rfl, ?_⟩
      rw [← hledger, Config.intervalMs, ← hstep.interval]
      rfl
    · intro found h hmarket
      cases h
      cases hmarket
    · intro h
      cases h
  · obtain ⟨hrecord, hledger, _⟩ := hstep.warmup (not_le.mp hscored)
    have htick : b.tick (.funding e) = none := if_neg hscored
    subst hrecord
    refine ⟨hforwards, hnext, ?_, ?_, ?_, ?_, ?_⟩
    · rw [htick]
      rfl
    · intro found h
      cases h
    · intro found h
      cases h
    · intro found h
      cases h
    · intro _
      rw [hledger]
      rfl

theorem market_record {e : MarketEvent K} {record : Option (Record K)}
    (hs : r.process b (.market e) = .ok (record, r')) : RecordStep b r (.market e) record r' := by
  obtain ⟨hclock, found, financed, outcome, final, hrecord, hstep⟩ := Runner.process_market hs
  obtain ⟨htime, htype, _, hdecision, hvaluation, _⟩ := hstep.recorded
  have hlast : r'.lastTime = e.timeMs := hstep.lastTime
  have hforwards := Runner.process_forwards hs
  have hinterval := b.delay_pos.trans b.delay_lt_interval
  have hnext : r.nextDecisionMs ≤ r'.nextDecisionMs := by
    rw [hstep.nextDecision]
    show r.nextDecisionMs ≤ r.nextDecisionMs + _
    split
    · linarith
    · simp
  have hscored : b.config.startMs ≤ e.timeMs := scope_scored hstep.scope
  subst hrecord
  refine ⟨hforwards, hnext, ?_, ?_, ?_, ?_, fun h => nomatch h⟩
  · show [found].filterMap recordTick = _
    cases hdecide : e.decide with
    | true =>
      have htick : b.tick (.market e) = some (.decision, e.timeMs) := by
        rw [Backtest.tick, if_pos hdecide]
      have hsome : found.decision.isSome = true := by
        rw [hdecision]
        exact decided_some (hstep.decided hdecide)
      rw [htick]
      simp [recordTick, htype, hsome, htime]
    | false =>
      have htick : b.tick (.market e) = none := by
        rw [Backtest.tick, hdecide]
        rfl
      rw [htick]
      simp [recordTick, htype, hdecision, (hstep.idle hdecide).1]
  · rintro _ ⟨⟩
    rw [htime, hlast]
    exact ⟨rfl, hclock.window.2⟩
  · rintro _ ⟨⟩ hfunding
    cases htype.symm.trans hfunding
  · rintro _ ⟨⟩ _
    refine ⟨?_, ?_, (market_boundary hstep).1⟩
    · rw [hvaluation]
      rfl
    · rw [htime]
      exact (hclock.due hscored).trans hnext

theorem process_record {event : Event K} {record : Option (Record K)}
    (hs : r.process b event = .ok (record, r')) : RecordStep b r event record r' := by
  cases event with
  | funding e => exact funding_record hs
  | market e => exact market_record hs

theorem reaches_reported {executor : σ} {events : List (Event K)}
    (h : b.Reaches executor events r records) :
    Reported b events r records (records.foldl Written.write {}) := by
  refine Backtest.reaches_induction
    (fun events r records => Reported b events r records (records.foldl Written.write {})) ?_ ?_ h
  · intro r hstart
    exact start_reported hstart
  · intro past r records event record r' hpast hs
    have hstep := process_record hs
    cases record with
    | none =>
      rw [Option.toList_none, List.append_nil]
      exact silent_reported hpast hstep
    | some found =>
      rw [Option.toList_some, List.foldl_append]
      exact record_reported hpast hstep

end Records

/-! ## The schedule of the window -/

section Schedule

variable {b : Backtest K σ} {n k : Nat}

theorem interval_pos (config : Config K) : 0 < config.intervalMs := by
  have := config.interval_pos
  unfold Config.intervalMs HOUR_MS
  omega

/-- The window is a whole number of intervals. -/
theorem window_intervals (config : Config K) :
    ∃ N : Nat, 0 < N ∧ config.endMs = config.startMs + N * config.intervalMs := by
  have hday : config.intervalMs ∣ Models.DAY_MS := by
    obtain ⟨c, hc⟩ := Int.dvd_of_emod_eq_zero config.interval_divides
    refine ⟨c, ?_⟩
    unfold Config.intervalMs Models.DAY_MS HOUR_MS
    calc (86400000 : Int) = 24 * 3600000 := by norm_num
      _ = config.intervalHours * c * 3600000 := by rw [← hc]
      _ = config.intervalHours * 3600000 * c := by ring
  have hstart : Models.DAY_MS ∣ config.startMs := by
    rw [config.start_fold]
    exact Int.dvd_of_emod_eq_zero (foldStart_aligned _)
  have hend : Models.DAY_MS ∣ config.endMs := by
    rw [config.end_fold]
    exact Int.dvd_of_emod_eq_zero (foldStart_aligned _)
  obtain ⟨c, hc⟩ := (hday.trans hend).sub (hday.trans hstart)
  have hlt := config.start_lt_end
  have hpos : 0 < c := by
    by_contra hneg
    have := mul_nonpos_of_nonneg_of_nonpos (interval_pos config).le (not_lt.mp hneg)
    omega
  refine ⟨c.toNat, by omega, ?_⟩
  rw [Int.toNat_of_nonneg hpos.le, mul_comm c]
  omega

theorem intervals_inj {config : Config K} {i j : Nat}
    (h : (i : Int) * config.intervalMs = j * config.intervalMs) : i = j := by
  have := Int.eq_of_mul_eq_mul_right (interval_pos config).ne' h
  omega

theorem schedule_inj {i j : Nat} (h : b.schedule i = b.schedule j) : i = j := by
  unfold Backtest.schedule at h
  dsimp only at h
  split at h
  · split at h
    · have := intervals_inj (add_left_cancel (congrArg Prod.snd h))
      omega
    · cases congrArg Prod.fst h
  · split at h
    · cases congrArg Prod.fst h
    · have := intervals_inj (add_left_cancel (add_right_cancel (congrArg Prod.snd h)))
      omega

theorem schedule_even (k : Nat) :
    b.schedule (2 * k) = (.settlement, b.config.startMs + k * b.config.intervalMs) := by
  have hhalf : 2 * k / 2 = k := by omega
  rw [Backtest.schedule, if_pos (by omega), hhalf]

theorem schedule_odd (k : Nat) : b.schedule (2 * k + 1) =
    (.decision, b.config.startMs + k * b.config.intervalMs + b.config.decisionDelayMs) := by
  have hhalf : (2 * k + 1) / 2 = k := by omega
  rw [Backtest.schedule, if_neg (by omega), hhalf]

theorem mem_schedule {i : Nat} : b.schedule i ∈ (List.range n).map b.schedule ↔ i < n := by
  constructor
  · intro h
    obtain ⟨j, hj, heq⟩ := List.mem_map.mp h
    rw [← schedule_inj heq]
    exact List.mem_range.mp hj
  · intro h
    exact List.mem_map.mpr ⟨i, List.mem_range.mpr h, rfl⟩

theorem count_schedule {i : Nat} :
    ((List.range n).map b.schedule).count (b.schedule i) = 1 ↔ i < n := by
  have hnodup : ((List.range n).map b.schedule).Nodup :=
    List.nodup_range.map fun _ _ => schedule_inj
  rw [hnodup.count]
  by_cases h : i < n
  · simp [mem_schedule.mpr h, h]
  · simp [mt mem_schedule.mp h, h]

end Schedule

section Window

variable {b : Backtest K σ} {events : List (Event K)} {r : Runner K σ} {records : List (Record K)}
  {written : Written K}

theorem settlement_count (h : Reported b events r records written) (time : Int) :
    (records.countP fun record => record.eventType = .funding ∧ record.timeMs = time) =
      (b.ticks events).count (.settlement, time) := by
  rw [← h.ticks, List.count_filterMap]
  refine List.countP_congr ?_
  intro record _
  unfold recordTick
  cases record.eventType with
  | funding => simp
  | market => simp

theorem decision_count (h : Reported b events r records written) (time : Int) :
    (records.countP fun record => record.decision.isSome ∧ record.timeMs = time) =
      (b.ticks events).count (.decision, time) := by
  rw [← h.ticks, List.count_filterMap]
  refine List.countP_congr ?_
  intro record hmem
  have hsilent := h.silent record hmem
  unfold recordTick
  cases htype : record.eventType with
  | funding => simp [hsilent htype]
  | market => simp

variable {n N : Nat}

/-- All ticks of a window of `N` intervals, or what is missing. -/
theorem window_covered_iff (h : Reported b events r records written)
    (hticks : b.ticks events = (List.range n).map b.schedule) (hN : 0 < N)
    (hend : b.config.endMs = b.config.startMs + N * b.config.intervalMs) (hle : n ≤ 2 * N) :
    WindowCovered b.config records ↔ n = 2 * N ∧ ∃ record ∈ records,
      record.eventType = .market ∧ record.timeMs = b.config.endMs - 1 ∧
        record.valuation.isSome := by
  have hI := interval_pos b.config
  have hdelay := b.delay_lt_interval
  have hpos := b.delay_pos
  have hsettled : ∀ k : Nat, (records.countP fun record => record.eventType = .funding ∧
      record.timeMs = b.config.startMs + k * b.config.intervalMs) = 1 ↔ 2 * k < n := by
    intro k
    rw [settlement_count h, hticks, ← schedule_even]
    exact count_schedule
  have hdecided : ∀ k : Nat, (records.countP fun record => record.decision.isSome ∧
      record.timeMs = b.config.startMs + k * b.config.intervalMs + b.config.decisionDelayMs) = 1 ↔
        2 * k + 1 < n := by
    intro k
    rw [decision_count h, hticks, ← schedule_odd]
    exact count_schedule
  constructor
  · rintro ⟨_, hdecisions, hterminal⟩
    refine ⟨?_, hterminal⟩
    -- the last decision of the window
    have hlast : ((N - 1 : Nat) : Int) * b.config.intervalMs =
        N * b.config.intervalMs - b.config.intervalMs := by
      rw [Nat.cast_sub hN]
      push_cast
      ring
    have := (hdecided (N - 1)).mp (hdecisions (N - 1) (by rw [hend, hlast]; linarith))
    omega
  · rintro ⟨rfl, hterminal⟩
    have hbefore : ∀ k : Nat, b.config.startMs + k * b.config.intervalMs < b.config.endMs →
        k < N := by
      intro k hk
      rw [hend] at hk
      have := lt_of_mul_lt_mul_right (lt_of_add_lt_add_left hk) hI.le
      exact_mod_cast this
    refine ⟨?_, ?_, hterminal⟩
    · intro k hk
      have := hbefore k hk
      exact (hsettled k).mpr (by omega)
    · intro k hk
      have := hbefore k (by linarith)
      exact (hdecided k).mpr (by omega)

/-- The two timestamps of the footer decide whether all ticks are there. -/
theorem window_complete_iff (h : Reported b events r records written) (hclocks : Clocks b n r)
    (hend : b.config.endMs = b.config.startMs + N * b.config.intervalMs)
    (hle : n ≤ 2 * N) :
    windowComplete b.config written = true ↔ n = 2 * N ∧ ∃ record ∈ records,
      record.eventType = .market ∧ record.timeMs = b.config.endMs - 1 ∧
        record.valuation.isSome := by
  have hI := interval_pos b.config
  have hdelay := b.delay_lt_interval
  have hfunding := hclocks.funding
  have hdecision := hclocks.decision
  unfold windowComplete
  rw [decide_eq_true_eq]
  constructor
  · rintro ⟨hlastFunding, hlastMarket⟩
    obtain ⟨record, hmem, htype, htime⟩ := h.lastMarket _ hlastMarket
    obtain ⟨hvalued, hdue, _⟩ := h.market record hmem htype
    refine ⟨?_, record, hmem, htype, htime, hvalued⟩
    have hnext := h.lastFunding _ hlastFunding
    have hsettled : (n + 1) / 2 = N := by
      rw [hfunding, sub_add_cancel, hend] at hnext
      exact intervals_inj (add_left_cancel hnext)
    -- were the last decision missing, it would be due before the end
    have hdecided : ¬ n / 2 < N := by
      intro hmissing
      have hless : ((n / 2 : Nat) : Int) * b.config.intervalMs ≤
          N * b.config.intervalMs - b.config.intervalMs := by
        have : ((n / 2 : Nat) : Int) ≤ N - 1 := by omega
        calc ((n / 2 : Nat) : Int) * b.config.intervalMs
            ≤ ((N : Int) - 1) * b.config.intervalMs := mul_le_mul_of_nonneg_right this hI.le
          _ = N * b.config.intervalMs - b.config.intervalMs := by ring
      rw [htime, hdecision, hend] at hdue
      have hguard := b.config.delay_lt
      unfold SETTLEMENT_GUARD_MS at hguard
      have hsame : b.config.intervalHours * HOUR_MS = b.config.intervalMs := rfl
      omega
    omega
  · rintro ⟨rfl, record, hmem, htype, htime, _⟩
    have hnext : r.ledger.nextFundingMs = b.config.endMs := by
      have hall : (2 * N + 1) / 2 = N := by omega
      rw [hfunding, hall, hend]
    refine ⟨?_, ?_⟩
    · cases hlast : written.lastFunding with
      | none =>
        have := h.unfunded hlast
        have hlt := b.config.start_lt_end
        omega
      | some t =>
        have := h.lastFunding t hlast
        congr 1
        omega
    · obtain ⟨_, _, t, hlast, hle'⟩ := h.market record hmem htype
      obtain ⟨last, hmem', _, htime'⟩ := h.lastMarket t hlast
      have := (h.earlier last hmem').2
      rw [hlast]
      congr 1
      omega

variable [FloorRing K]

theorem ticks_le {executor : σ} (h : b.Reaches executor events r records)
    (hend : b.config.endMs = b.config.startMs + N * b.config.intervalMs) :
    (b.ticks events).length ≤ 2 * N := by
  have hreported := reaches_reported h
  have halternate := (reaches_kept h).alternate
  by_contra hmore
  have hmem : b.schedule (2 * N) ∈ b.ticks events := by
    rw [halternate]
    exact mem_schedule.mpr (by omega)
  rw [schedule_even, ← hreported.ticks] at hmem
  obtain ⟨record, hrecord, htick⟩ := List.mem_filterMap.mp hmem
  have hearly := (hreported.earlier record hrecord).2
  unfold recordTick at htick
  split at htick
  · have htime : record.timeMs = b.config.startMs + N * b.config.intervalMs :=
      congrArg Prod.snd (Option.some.inj htick)
    omega
  · split at htick
    · cases congrArg Prod.fst (Option.some.inj htick)
    · cases htick

/-- The footer says complete if and only if the stream ended without an error and its records
cover the window. -/
theorem footer_complete_iff (b : Backtest K σ) (executor : σ)
    (rows : List (Except Raised (Event K))) :
    (footer b executor rows).status = .complete ↔
      (b.iterBacktest executor rows).2 = none ∧
        WindowCovered b.config (b.iterBacktest executor rows).1 := by
  unfold footer
  cases herror : (b.iterBacktest executor rows).2 with
  | some err => simp [herror]
  | none =>
    obtain ⟨events, r, _, hreaches⟩ := Backtest.iterBacktest_ok herror
    obtain ⟨N, hN, hend⟩ := window_intervals b.config
    have hkept := reaches_kept hreaches
    have hreported := reaches_reported hreaches
    have hle := ticks_le hreaches hend
    rw [window_covered_iff hreported hkept.alternate hN hend hle,
      ← window_complete_iff hreported hkept.clocks hend hle]
    simp only [herror, true_and]
    split
    · rename_i hcomplete
      simp [hcomplete]
    · rename_i hincomplete
      simp [hincomplete]

end Window

end RunBacktest
end PerpCarry
