import PerpCarry.Strategy.Hedged

/-!
# Strategy.Cadence

The clock of a run: settlements and decisions take turns, and a position is closed in time.

`next_observation_ms`, `next_decision_ms`, the ledger's `next_funding_ms` and the event time are
advanced in different places. `Clocks` says where the ledger's boundary and the next decision stand
after `n` ticks; the delay of a decision lies between zero and the interval, so that only the tick
whose turn it is can be processed.

* `process_clocks`: one event is the next tick of the schedule, or no tick.
* `process_horizon`: a position is within its horizon.
* `process_opened`: the settlements since the entry are those the position has counted.
* `run_cadence`: all of it, in every reachable state.
-/

namespace PerpCarry
namespace Strategy

variable {K σ : Type} [Field K] [LinearOrder K]

inductive Tick where
  | settlement
  | decision
  deriving DecidableEq

namespace Backtest

variable (b : Backtest K σ)

/-- A scored settlement or a scheduled decision, and its time. -/
def tick : Event K → Option (Tick × Int)
  | .funding e => if b.config.startMs ≤ e.timeMs then some (.settlement, e.timeMs) else none
  | .market e => if e.decide then some (.decision, e.timeMs) else none

def ticks (events : List (Event K)) : List (Tick × Int) := events.filterMap b.tick

/-- Settlements and decisions in turn, the `k`-th of each `k` intervals after the first. -/
def schedule (n : Nat) : Tick × Int :=
  let start := b.config.startMs + (n / 2 : Nat) * b.config.intervalMs
  if n % 2 = 0 then (.settlement, start) else (.decision, start + b.config.decisionDelayMs)

/-- The scored settlements among the events. -/
def settled (events : List (Event K)) : Nat :=
  (events.filter fun event => (b.tick event).map (·.1) = some .settlement).length

variable {b} {past : List (Event K)} {event : Event K}

theorem ticks_snoc : b.ticks (past ++ [event]) = b.ticks past ++ (b.tick event).toList := by
  unfold ticks
  rw [List.filterMap_append]
  cases h : b.tick event with
  | none => simp [h]
  | some t => simp [h]

theorem settled_snoc : b.settled (past ++ [event]) =
    b.settled past + if (b.tick event).map (·.1) = some .settlement then 1 else 0 := by
  unfold settled
  rw [List.filter_append, List.length_append]
  split
  · rename_i h
    simp [h]
  · rename_i h
    simp [h]

theorem delay_pos : 0 < b.config.decisionDelayMs := by
  have := b.config.guard_lt_delay
  unfold SETTLEMENT_GUARD_MS at this
  omega

theorem delay_lt_interval : b.config.decisionDelayMs < b.config.intervalMs := by
  have := b.config.delay_lt
  unfold SETTLEMENT_GUARD_MS at this
  unfold Config.intervalMs
  omega

end Backtest

/-- Where the ledger's boundary and the next decision stand after `n` ticks. -/
structure Clocks (b : Backtest K σ) (n : Nat) (r : Runner K σ) : Prop where
  funding : r.ledger.nextFundingMs =
    b.config.startMs + ((n + 1) / 2 : Nat) * b.config.intervalMs
  decision : r.nextDecisionMs =
    b.config.startMs + (n / 2 : Nat) * b.config.intervalMs + b.config.decisionDelayMs

namespace Clocks

variable {b : Backtest K σ} {r r' : Runner K σ} {n : Nat}

/-- It is a settlement's turn when none of the decisions due comes before it. -/
theorem turn (h : Clocks b n r) : n % 2 = 0 ↔ r.ledger.nextFundingMs ≤ r.nextDecisionMs := by
  have hpos := b.delay_pos
  have hlt := b.delay_lt_interval
  rw [h.funding, h.decision]
  constructor
  · intro heven
    have hhalf : (n + 1) / 2 = n / 2 := by omega
    rw [hhalf]
    linarith
  · intro hle
    by_contra hodd
    have hhalf : (n + 1) / 2 = n / 2 + 1 := by omega
    rw [hhalf] at hle
    push_cast at hle
    linarith

theorem schedule_settlement (h : Clocks b n r) (heven : n % 2 = 0) :
    b.schedule n = (.settlement, r.ledger.nextFundingMs) := by
  have hhalf : (n + 1) / 2 = n / 2 := by omega
  rw [Backtest.schedule, if_pos heven, h.funding, hhalf]

theorem schedule_decision (h : Clocks b n r) (hodd : ¬ n % 2 = 0) :
    b.schedule n = (.decision, r.nextDecisionMs) := by
  rw [Backtest.schedule, if_neg hodd, h.decision]

theorem settlement (h : Clocks b n r) (heven : n % 2 = 0)
    (hfunding : r'.ledger.nextFundingMs = r.ledger.nextFundingMs + b.config.intervalMs)
    (hdecision : r'.nextDecisionMs = r.nextDecisionMs) : Clocks b (n + 1) r' := by
  have hhalf : (n + 1) / 2 = n / 2 := by omega
  have hnext : (n + 1 + 1) / 2 = n / 2 + 1 := by omega
  constructor
  · rw [hfunding, h.funding, hhalf, hnext]
    push_cast
    ring
  · rw [hdecision, h.decision, hhalf]

theorem decided (h : Clocks b n r) (hodd : ¬ n % 2 = 0)
    (hfunding : r'.ledger.nextFundingMs = r.ledger.nextFundingMs)
    (hdecision : r'.nextDecisionMs = r.nextDecisionMs + b.config.intervalMs) :
    Clocks b (n + 1) r' := by
  have hhalf : (n + 1) / 2 = n / 2 + 1 := by omega
  have hsame : (n + 1 + 1) / 2 = (n + 1) / 2 := by omega
  constructor
  · rw [hfunding, h.funding, hsame]
  · rw [hdecision, h.decision, hhalf]
    push_cast
    ring

theorem kept (h : Clocks b n r) (hfunding : r'.ledger.nextFundingMs = r.ledger.nextFundingMs)
    (hdecision : r'.nextDecisionMs = r.nextDecisionMs) : Clocks b n r' :=
  ⟨hfunding.trans h.funding, hdecision.trans h.decision⟩

end Clocks

/-- A position is planned for the horizon, and a decision leaves it open only before the end. -/
structure InHorizon (b : Backtest K σ) (n : Nat) (p : Position K) : Prop where
  planned : p.plannedSettlements = b.config.policy.horizonSettlements
  held : p.settlementsHeld ≤ p.plannedSettlements
  before : n % 2 = 0 → p.settlementsHeld < p.plannedSettlements

section Steps

variable {b : Backtest K σ} {r r' : Runner K σ} {n : Nat}

theorem start_clocks {executor : σ} (h : b.start executor = .ok r) :
    Clocks b 0 r ∧ r.position = none := by
  obtain ⟨hnone, _, hdecision, hledger⟩ := Backtest.start_ok h
  obtain ⟨_, _, _, _, hledger⟩ := Ledger.start_ok.mp hledger
  exact ⟨⟨by simp [← hledger], by simp [hdecision]⟩, hnone⟩

theorem booked_boundary [Arithmetic K] {executor : σ} {before after : Ledger K} {e : MarketEvent K}
    {quantity : K} {opening : Bool} (h : Booked b executor before e quantity opening after) :
    after.nextFundingMs = before.nextFundingMs := by
  obtain ⟨_, _, _, between, _, _, _, hfirst, hsecond⟩ := booked_pair h
  exact (fill_frame hsecond).1.trans (fill_frame hfirst).1

theorem scope_scored {e : MarketEvent K} (h : r.scope b e = .ok ()) :
    b.config.startMs ≤ e.timeMs := by
  unfold Runner.scope at h
  simp only [bind_ok, raiseWhen_ok] at h
  obtain ⟨_, hscored, _⟩ := h
  exact not_lt.mp hscored

/-- A decision is taken at the time it is scheduled for. -/
theorem scope_scheduled {e : MarketEvent K} (h : r.scope b e = .ok ()) (hdecide : e.decide = true) :
    e.timeMs = r.nextDecisionMs := by
  unfold Runner.scope at h
  simp only [bind_ok, raiseWhen_ok, hdecide, true_and, not_or] at h
  obtain ⟨_, _, _, _, _, _, _, _, _, _, _, _, hscheduled⟩ := h
  exact not_not.mp hscheduled.1

variable [FloorRing K]

theorem decided_boundary [Arithmetic K] {e : MarketEvent K} {outcome : Runner.Outcome K}
    {ledger : Ledger K} {position : Option (Position K)}
    (hd : Runner.Decided b r e outcome ledger position) :
    ledger.nextFundingMs = r.ledger.nextFundingMs := by
  cases hd with
  | waited d flat decision action => rfl
  | entered result after p flat decision forecast entry => exact booked_boundary entry.booked
  | held d p position decision action continues remaining => rfl
  | exited d p after position decision action continues booked => exact booked_boundary booked

theorem decided_some {e : MarketEvent K} {outcome : Runner.Outcome K} {ledger : Ledger K}
    {position : Option (Position K)} (hd : Runner.Decided b r e outcome ledger position) :
    outcome.decision.isSome = true := by
  cases hd with
  | waited d flat decision action => rw [decision]; rfl
  | entered result after p flat decision forecast entry => rw [decision]; rfl
  | held d p position decision action continues remaining => rw [decision]; rfl
  | exited d p after position decision action continues booked => rw [decision]; rfl

theorem market_boundary [Arithmetic K] {e : MarketEvent K} {financed : Ledger K}
    {outcome : Runner.Outcome K} {final : Valuation K} {record : Record K} {event : Event K}
    (hstep : Runner.MarketStep b (r.seen event) e financed outcome final record r') :
    r'.ledger.nextFundingMs = r.ledger.nextFundingMs ∧ e.timeMs < r.ledger.nextFundingMs := by
  obtain ⟨_, ⟨_, _, _, hearly⟩, hfinanced⟩ := Ledger.finance_iff.mp hstep.finance
  have hsame : financed.nextFundingMs = r.ledger.nextFundingMs := by
    rw [← hfinanced]
    rfl
  refine ⟨?_, hearly⟩
  cases hdecide : e.decide with
  | true => exact (decided_boundary (hstep.decided hdecide)).trans hsame
  | false =>
    rw [(hstep.idle hdecide).2.1]
    exact hsame

/-- An event is the next tick of the schedule, or none. -/
theorem process_clocks {event : Event K} {record : Option (Record K)} (h : Clocks b n r)
    (hs : r.process b event = .ok (record, r')) :
    Clocks b (n + (b.tick event).toList.length) r' ∧
      ∀ t, b.tick event = some t → t = b.schedule n := by
  cases event with
  | funding e =>
    obtain ⟨hclock, hstep⟩ := Runner.process_funding hs
    have hkept : r'.nextDecisionMs = r.nextDecisionMs := hstep.nextDecision
    by_cases hscored : b.config.startMs ≤ e.timeMs
    · obtain ⟨_, _, ⟨_, _, _, htime, _⟩, hledger⟩ := Ledger.settle_ok.mp (hstep.scored hscored).1
      have hdue : e.timeMs ≤ r.nextDecisionMs := hclock.due hscored
      have htime : e.timeMs = r.ledger.nextFundingMs := htime
      have hnext : r'.ledger.nextFundingMs = r.ledger.nextFundingMs + b.config.intervalMs := by
        rw [← hledger, Config.intervalMs, ← hstep.interval, ← htime]
      have htick : b.tick (.funding e) = some (.settlement, e.timeMs) := if_pos hscored
      rw [htime] at hdue
      rw [htick, htime]
      refine ⟨h.settlement (h.turn.mpr hdue) hnext hkept, ?_⟩
      rintro _ ⟨⟩
      exact (h.schedule_settlement (h.turn.mpr hdue)).symm
    · have hsame := hstep.warmup (not_le.mp hscored)
      have htick : b.tick (.funding e) = none := if_neg hscored
      rw [htick]
      refine ⟨h.kept ?_ hkept, nofun⟩
      rw [hsame.2.1]
      rfl
  | market e =>
    obtain ⟨_, _, financed, outcome, final, _, hstep⟩ := Runner.process_market hs
    obtain ⟨hboundary, hearly⟩ := market_boundary hstep
    have hnext := hstep.nextDecision
    cases hdecide : e.decide with
    | true =>
      have htime : e.timeMs = r.nextDecisionMs := scope_scheduled hstep.scope hdecide
      have htick : b.tick (.market e) = some (.decision, e.timeMs) := by
        rw [Backtest.tick, if_pos hdecide]
      rw [hdecide, if_pos rfl] at hnext
      rw [htime] at hearly
      have hodd : ¬ n % 2 = 0 := mt h.turn.mp (not_le.mpr hearly)
      rw [htick, htime]
      refine ⟨h.decided hodd hboundary hnext, ?_⟩
      rintro _ ⟨⟩
      exact (h.schedule_decision hodd).symm
    | false =>
      have htick : b.tick (.market e) = none := by
        rw [Backtest.tick, hdecide]
        rfl
      rw [hdecide] at hnext
      rw [htick]
      exact ⟨h.kept hboundary (hnext.trans (add_zero _)), nofun⟩

end Steps

/-! ## Positions -/

section Positions

variable {b : Backtest K σ} {r r' : Runner K σ} {n : Nat} [FloorRing K]

/-- What an event does to the position. -/
inductive PositionStep (b : Backtest K σ) (r : Runner K σ) (record : Option (Record K))
    (r' : Runner K σ) : Event K → Prop where
  | idle (event : Event K) (tick : b.tick event = none) (same : r'.position = r.position) :
      PositionStep b r record r' event
  | settled (e : FundingEvent K) (tick : b.tick (.funding e) = some (.settlement, e.timeMs))
      (counted : r'.position = r.position.map (·.settled)) :
      PositionStep b r record r' (.funding e)
  | flat (e : MarketEvent K) (found : Record K) (d : Decision K)
      (tick : b.tick (.market e) = some (.decision, e.timeMs)) (recorded : record = some found)
      (decision : found.decision = some d) (exit : r.position = none ∨ d.action = .exit)
      (none : r'.position = none) : PositionStep b r record r' (.market e)
  | kept (e : MarketEvent K) (p : Position K)
      (tick : b.tick (.market e) = some (.decision, e.timeMs)) (held : r.position = some p)
      (same : r'.position = some p) (remaining : 0 < p.remaining) :
      PositionStep b r record r' (.market e)
  | opened (e : MarketEvent K) (found : Record K) (p : Position K)
      (tick : b.tick (.market e) = some (.decision, e.timeMs)) (none : r.position = none)
      (recorded : record = some found)
      (action : found.decision.map (·.action) = some .enter) (position : r'.position = some p)
      (held : p.settlementsHeld = 0)
      (planned : p.plannedSettlements = b.config.policy.horizonSettlements)
      (opened : p.openedAtMs = e.timeMs) : PositionStep b r record r' (.market e)

theorem process_position {event : Event K} {record : Option (Record K)}
    (hs : r.process b event = .ok (record, r')) : PositionStep b r record r' event := by
  cases event with
  | funding e =>
    obtain ⟨_, hstep⟩ := Runner.process_funding hs
    by_cases hscored : b.config.startMs ≤ e.timeMs
    · exact .settled e (if_pos hscored) (hstep.scored hscored).2.2.1
    · exact .idle _ (if_neg hscored) (hstep.warmup (not_le.mp hscored)).2.2
  | market e =>
    obtain ⟨_, found, financed, outcome, final, hrecord, hstep⟩ := Runner.process_market hs
    have hdecision := hstep.recorded.2.2.2.1
    cases hdecide : e.decide with
    | false =>
      refine .idle _ ?_ (hstep.idle hdecide).2.2
      rw [Backtest.tick, hdecide]
      rfl
    | true =>
      have htick : b.tick (.market e) = some (.decision, e.timeMs) := by
        rw [Backtest.tick, if_pos hdecide]
      have hd := hstep.decided hdecide
      generalize hledger : r'.ledger = ledger at hd
      generalize hposition : r'.position = position at hd
      cases hd with
      | waited d flat decision action =>
        exact .flat e found d htick hrecord (hdecision.trans decision) (.inl flat) hposition
      | entered result after p flat decision forecast entry =>
        refine .opened e found p htick flat hrecord ?_ hposition entry.held entry.planned
          entry.opened
        rw [hdecision, decision]
        exact congrArg some entry.enters
      | held d p position decision action continues remaining =>
        exact .kept e p htick position hposition remaining
      | exited d p after position decision action continues booked =>
        exact .flat e found d htick hrecord (hdecision.trans decision) (.inr action) hposition

theorem process_horizon {event : Event K} {record : Option (Record K)} (hclocks : Clocks b n r)
    (h : ∀ p, r.position = some p → InHorizon b n p)
    (hs : r.process b event = .ok (record, r')) :
    ∀ p, r'.position = some p → InHorizon b (n + (b.tick event).toList.length) p := by
  intro p hp
  have hnext := (process_clocks hclocks hs).2
  cases process_position hs with
  | idle _ tick same =>
    rw [tick]
    exact h p (same.symm.trans hp)
  | settled e tick counted =>
    obtain ⟨q, hq, rfl⟩ := Option.map_eq_some_iff.mp (counted.symm.trans hp)
    obtain ⟨hplanned, hheld, hbefore⟩ := h q hq
    rw [tick]
    -- the settlement whose turn it is comes before the end of the horizon
    have heven : n % 2 = 0 := by
      by_contra hodd
      have := hnext _ tick
      rw [Backtest.schedule, if_neg hodd] at this
      cases this
    refine ⟨hplanned, ?_, ?_⟩
    · exact hbefore heven
    · intro hodd
      have : (n + 1) % 2 = 0 := hodd
      omega
  | flat e found d tick recorded decision exit none =>
    cases none.symm.trans hp
  | kept e q tick held same remaining =>
    cases same.symm.trans hp
    obtain ⟨hplanned, hheld, _⟩ := h p held
    refine ⟨hplanned, hheld, ?_⟩
    intro _
    unfold Position.remaining at remaining
    omega
  | opened e found q tick none recorded action position held planned opened =>
    cases position.symm.trans hp
    have := b.config.policy.horizon_pos
    refine ⟨planned, ?_, ?_⟩
    · rw [held, planned]
      omega
    · intro _
      rw [held, planned]
      omega

/-- `p` was opened by an entry among the events, and has counted the settlements since. -/
def OpenedBy (b : Backtest K σ) (executor : σ) (events : List (Event K)) (p : Position K) : Prop :=
  ∃ past opening later before records record after,
    events = past ++ .market opening :: later ∧ b.Reaches executor past before records ∧
      before.process b (.market opening) = .ok (some record, after) ∧
      record.decision.map (·.action) = some .enter ∧ p.openedAtMs = opening.timeMs ∧
      p.settlementsHeld = b.settled later

theorem process_opened {executor : σ} {past : List (Event K)} {records : List (Record K)}
    {event : Event K} {record : Option (Record K)} (hreaches : b.Reaches executor past r records)
    (h : ∀ p, r.position = some p → OpenedBy b executor past p)
    (hs : r.process b event = .ok (record, r')) :
    ∀ p, r'.position = some p → OpenedBy b executor (past ++ [event]) p := by
  have later : ∀ {q p : Position K}, OpenedBy b executor past q → p.openedAtMs = q.openedAtMs →
      p.settlementsHeld = q.settlementsHeld +
        (if (b.tick event).map (·.1) = some .settlement then 1 else 0) →
      OpenedBy b executor (past ++ [event]) p := by
    rintro q p ⟨first, opening, rest, before, recs, rec, after, rfl, hbefore, hopening, henter,
      hopened, hheld⟩ hsame hcount
    refine ⟨first, opening, rest ++ [event], before, recs, rec, after, ?_, hbefore, hopening,
      henter, hsame.trans hopened, ?_⟩
    · rw [List.append_assoc]
      rfl
    · rw [hcount, hheld, Backtest.settled_snoc]
      push_cast
      rfl
  intro p hp
  cases process_position hs with
  | idle _ tick same =>
    refine later (h p (same.symm.trans hp)) rfl ?_
    rw [tick]
    simp
  | settled e tick counted =>
    obtain ⟨q, hq, rfl⟩ := Option.map_eq_some_iff.mp (counted.symm.trans hp)
    refine later (h q hq) rfl ?_
    rw [tick]
    simp [Position.settled]
  | flat e found d tick recorded decision exit none =>
    cases none.symm.trans hp
  | kept e q tick held same remaining =>
    cases same.symm.trans hp
    refine later (h p held) rfl ?_
    rw [tick]
    simp
  | opened e found q tick none recorded action position held planned opened =>
    cases position.symm.trans hp
    subst recorded
    exact ⟨past, e, [], r, records, found, r', rfl, hreaches, hs, action, opened, held⟩

/-- After the events of a run, in the state `r`. -/
structure Cadence (b : Backtest K σ) (executor : σ) (events : List (Event K)) (r : Runner K σ) :
    Prop where
  alternate : b.ticks events = (List.range (b.ticks events).length).map b.schedule
  opened : ∀ p, r.position = some p → OpenedBy b executor events p
  horizon : ∀ p, r.position = some p →
    p.plannedSettlements = b.config.policy.horizonSettlements ∧
      p.settlementsHeld ≤ p.plannedSettlements
  paid : ∀ e record r', r.process b (.funding e) = .ok (record, r') → r.position = none →
    r'.ledger.fundingUsdt = r.ledger.fundingUsdt
  matured : ∀ p, r.position = some p → p.settlementsHeld = p.plannedSettlements →
    ∀ event record r', r.process b event = .ok (record, r') →
      (b.tick event).map (·.1) ≠ some .settlement ∧
        ((b.tick event).map (·.1) = some .decision → r'.position = none ∧
          ∃ found d, record = some found ∧ found.decision = some d ∧ d.action = .exit)

/-- The invariant of a run: its ticks so far, and where they leave clocks and position. -/
structure Kept (b : Backtest K σ) (executor : σ) (events : List (Event K)) (r : Runner K σ) :
    Prop where
  alternate : b.ticks events = (List.range (b.ticks events).length).map b.schedule
  clocks : Clocks b (b.ticks events).length r
  horizon : ∀ p, r.position = some p → InHorizon b (b.ticks events).length p
  opened : ∀ p, r.position = some p → OpenedBy b executor events p

theorem process_kept {executor : σ} {past : List (Event K)} {records : List (Record K)}
    {event : Event K} {record : Option (Record K)} (hreaches : b.Reaches executor past r records)
    (h : Kept b executor past r) (hs : r.process b event = .ok (record, r')) :
    Kept b executor (past ++ [event]) r' := by
  obtain ⟨hclocks, hnext⟩ := process_clocks h.clocks hs
  have hlength : (b.ticks (past ++ [event])).length =
      (b.ticks past).length + (b.tick event).toList.length := by
    rw [Backtest.ticks_snoc, List.length_append]
  constructor
  · rw [hlength, Backtest.ticks_snoc, h.alternate]
    cases htick : b.tick event with
    | none => simp
    | some t =>
      rw [hnext t htick]
      simp [List.range_succ]
  · rw [hlength]
    exact hclocks
  · rw [hlength]
    exact process_horizon h.clocks h.horizon hs
  · exact process_opened hreaches h.opened hs

theorem reaches_kept {executor : σ} {events : List (Event K)} {records : List (Record K)}
    (h : b.Reaches executor events r records) : Kept b executor events r := by
  refine (Backtest.reaches_induction
    (fun events r records => b.Reaches executor events r records ∧ Kept b executor events r)
    ?_ ?_ h).2
  · intro r hstart
    obtain ⟨hclocks, hnone⟩ := start_clocks hstart
    refine ⟨⟨r, hstart, rfl⟩, rfl, hclocks, ?_, ?_⟩
    · rintro p hp
      cases hnone.symm.trans hp
    · rintro p hp
      cases hnone.symm.trans hp
  · rintro past r records event record r' ⟨hreaches, hkept⟩ hs
    exact ⟨Backtest.reaches_snoc hreaches hs, process_kept hreaches hkept hs⟩

/-- Without a position a settlement pays nothing. -/
theorem flat_unpaid {e : FundingEvent K} {record : Option (Record K)} (h : Hedged r)
    (hs : r.process b (.funding e) = .ok (record, r')) (hflat : r.position = none) :
    r'.ledger.fundingUsdt = r.ledger.fundingUsdt := by
  obtain ⟨_, hstep⟩ := Runner.process_funding hs
  by_cases hscored : b.config.startMs ≤ e.timeMs
  · obtain ⟨_, _, _, hledger⟩ := Ledger.settle_ok.mp (hstep.scored hscored).1
    have hzero : r.ledger.perp.quantity = 0 := h.position_iff.mp hflat
    rw [← hledger]
    show r.ledger.fundingUsdt + -r.ledger.perp.quantity * _ * _ = _
    rw [hzero]
    ring
  · rw [(hstep.warmup (not_le.mp hscored)).2.1]
    rfl

theorem run_cadence {executor : σ} {events : List (Event K)} {records : List (Record K)}
    (h : b.Reaches executor events r records) : Cadence b executor events r := by
  have hkept := reaches_kept h
  constructor
  · exact hkept.alternate
  · exact hkept.opened
  · intro p hp
    exact ⟨(hkept.horizon p hp).planned, (hkept.horizon p hp).held⟩
  · intro e record r' hs hflat
    exact flat_unpaid (reaches_hedged h) hs hflat
  · intro p hp hmature event record r' hs
    have hnext := (process_clocks hkept.clocks hs).2
    have hodd : (b.ticks events).length % 2 ≠ 0 := by
      intro heven
      have := (hkept.horizon p hp).before heven
      omega
    refine ⟨?_, ?_⟩
    · intro hsettlement
      obtain ⟨t, ht, hkind⟩ := Option.map_eq_some_iff.mp hsettlement
      rw [hnext t ht, Backtest.schedule, if_neg hodd] at hkind
      cases hkind
    · intro hdecision
      cases process_position hs with
      | idle _ tick same =>
        rw [tick] at hdecision
        cases hdecision
      | settled e tick counted =>
        rw [tick] at hdecision
        cases hdecision
      | flat e found d tick recorded decision exit none =>
        rcases exit with hnone | hexit
        · cases hnone.symm.trans hp
        · exact ⟨none, found, d, recorded, decision, hexit⟩
      | kept e q tick held same remaining =>
        cases held.symm.trans hp
        unfold Position.remaining at remaining
        omega
      | opened e found q tick none recorded action position held planned opened =>
        cases none.symm.trans hp

end Positions

theorem run_cadence_study :
    ∃ r records, (studyBacktest 100).Reaches () (studyWarmup ++ [studyEntry]) r records ∧
      r.position.map (·.settlementsHeld) = some 0 ∧
      Cadence (studyBacktest 100) () (studyWarmup ++ [studyEntry]) r := by
  have hrun : ((studyBacktest 100).replay () (studyWarmup ++ [studyEntry])).toOption.any
      (fun s => s.1.position.map (·.settlementsHeld) = some 0) = true := by
    decide +kernel
  obtain ⟨r, records, hreaches, hheld⟩ := Backtest.reaches_of_replay hrun
  exact ⟨r, records, hreaches, of_decide_eq_true hheld, run_cadence hreaches⟩

end Strategy
end PerpCarry
