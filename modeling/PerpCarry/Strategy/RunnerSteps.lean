import PerpCarry.Strategy.WalkForward

/-!
# Strategy.RunnerSteps

What one event can do to a runner.

The lemmas here invert the functions of `WalkForward`, once: a later module takes an accepted event
apart with `process_funding`, `process_market` and the cases of `Decided`, and does not unfold
`process`.

* `admit_ok`, `trade_ok`: the evidence of an admitted opportunity, the fills of a booked trade.
* `decision_decided`: a decision waits, enters, holds or exits.
* `market_step`, `funding_step`: the two kinds of event.
-/

namespace PerpCarry
namespace Strategy

open Arithmetic (inRun toFloat)

variable {K σ : Type} [Field K] [LinearOrder K] [Arithmetic K]

/-- `after` is `before` with the two fills of a trade, as the executor proposed them. -/
def Booked (b : Backtest K σ) (executor : σ) (before : Ledger K) (event : MarketEvent K)
    (quantity : K) (opening : Bool) (after : Ledger K) : Prop :=
  ∃ fills executor', b.executor.fills executor event quantity opening = .ok (fills, executor') ∧
    b.Paired event quantity opening fills ∧ Lib.run Ledger.fill before fills = .ok after

/-- The two fills, and the ledger between them. -/
theorem booked_pair {b : Backtest K σ} {executor : σ} {before after : Ledger K}
    {event : MarketEvent K} {quantity : K} {opening : Bool}
    (h : Booked b executor before event quantity opening after) :
    ∃ spot perp executor' between,
      b.executor.fills executor event quantity opening = .ok ([spot, perp], executor') ∧
      (spot.market = .spot ∧
        spot.quantity = .finite (if opening then quantity else inRun (-quantity))) ∧
      (perp.market = .perp ∧
        perp.quantity = .finite (if opening then inRun (-quantity) else quantity)) ∧
      before.fill spot = .ok between ∧ between.fill perp = .ok after := by
  obtain ⟨fills, executor', hfills, hpaired, hrun⟩ := h
  obtain ⟨spot, rest, rfl, hspot, hrest⟩ := List.map_eq_cons_iff.mp hpaired
  obtain ⟨perp, rest', rfl, hperp, hnil⟩ := List.map_eq_cons_iff.mp hrest
  obtain rfl := List.map_eq_nil_iff.mp hnil
  simp only [Prod.mk.injEq] at hspot hperp
  obtain ⟨between, hfirst, hrun⟩ := Lib.run_cons_ok.mp hrun
  obtain ⟨after', hsecond, hrun⟩ := Lib.run_cons_ok.mp hrun
  cases hrun
  exact ⟨spot, perp, executor', between, hfills, ⟨hspot.1, hspot.2.1⟩, ⟨hperp.1, hperp.2.1⟩,
    hfirst, hsecond⟩

namespace Runner

variable {b : Backtest K σ} {r r' r'' : Runner K σ} {e : MarketEvent K}

/-- The clocks and the model stand still, and the curves of the months stay. -/
structure Frame (r r' : Runner K σ) : Prop where
  model : r'.model = r.model
  lastTime : r'.lastTime = r.lastTime
  nextObservation : r'.nextObservationMs = r.nextObservationMs
  ids : r'.ids = r.ids
  nextDecision : r'.nextDecisionMs = r.nextDecisionMs
  curves : ∀ fold digest, r.foldCurves.lookup fold = some digest →
    r'.foldCurves.lookup fold = some digest

omit [Arithmetic K] in
theorem Frame.refl (r : Runner K σ) : Frame r r := ⟨rfl, rfl, rfl, rfl, rfl, fun _ _ h => h⟩

omit [Arithmetic K] in
theorem Frame.trans (h : Frame r r') (h' : Frame r' r'') : Frame r r'' where
  model := h'.model.trans h.model
  lastTime := h'.lastTime.trans h.lastTime
  nextObservation := h'.nextObservation.trans h.nextObservation
  ids := h'.ids.trans h.ids
  nextDecision := h'.nextDecision.trans h.nextDecision
  curves := fun fold digest hd => h'.curves fold digest (h.curves fold digest hd)

theorem admit_ok {found : Option (Opportunity K)} (h : r.admitEvent b e = .ok (found, r')) :
    Frame r r' ∧ r'.ledger = r.ledger ∧ r'.position = r.position ∧ r'.executor = r.executor ∧
      ∀ o, found = some o → e.opportunity = some o ∧ ¬ b.Unadmitted e o ∧
        r'.foldCurves.lookup o.foldStartMs = some o.curve.artifactSha256 := by
  unfold admitEvent at h
  split at h
  · cases h
    exact ⟨Frame.refl r, rfl, rfl, rfl, fun _ => nofun⟩
  · rename_i o ho
    split at h
    · cases h
      exact ⟨Frame.refl r, rfl, rfl, rfl, fun _ => nofun⟩
    · rename_i hadmitted
      split at h
      · rename_i hnew
        cases h
        refine ⟨⟨rfl, rfl, rfl, rfl, rfl, ?_⟩, rfl, rfl, rfl, ?_⟩
        · intro fold digest hd
          show List.lookup fold (_ :: _) = _
          rw [List.lookup_cons]
          split
          · rename_i heq
            rw [beq_iff_eq.mp heq, hnew] at hd
            cases hd
          · exact hd
        · rintro _ ⟨⟩
          exact ⟨ho, hadmitted, List.lookup_cons_self⟩
      · rename_i previous hprevious
        split at h
        · cases h
        · rename_i hsame
          cases h
          refine ⟨Frame.refl r, rfl, rfl, rfl, ?_⟩
          rintro _ ⟨⟩
          exact ⟨ho, hadmitted, hprevious.trans (congrArg some (not_not.mp hsame))⟩

/-- What passes the tests is admitted, if anything is returned. -/
theorem admit_passes {found : Option (Opportunity K)} {o : Opportunity K}
    (h : r.admitEvent b e = .ok (found, r')) (ho : e.opportunity = some o)
    (hpass : ¬ b.Unadmitted e o) : found = some o := by
  unfold admitEvent at h
  rw [ho] at h
  dsimp only at h
  rw [if_neg hpass] at h
  split at h
  · cases h
    rfl
  · split at h
    · cases h
    · cases h
      rfl

/-- The fills of an opening trade would leave the reserve short. -/
def Overreaches (b : Backtest K σ) (r : Runner K σ) (e : MarketEvent K) (quantity : K) : Prop :=
  ∃ proposed, Booked b r.executor r.ledger e quantity true proposed ∧
    proposed.Short e.marks.perp.value b.config.collateralFraction

theorem trade_ok {quantity : K} {opening booked : Bool}
    (h : r.trade b e quantity opening = .ok (booked, r')) :
    Frame r r' ∧ r'.position = r.position ∧
      (booked = true ∧ Booked b r.executor r.ledger e quantity opening r'.ledger ∧
          (opening = true → ¬ r'.ledger.Short e.marks.perp.value b.config.collateralFraction) ∨
        booked = false ∧ opening = true ∧ Overreaches b r e quantity ∧ r'.ledger = r.ledger) := by
  unfold trade at h
  obtain ⟨⟨admitted, r₁⟩, hadmitEvent, h⟩ := bind_ok.mp h
  have hsame : Frame r r₁ ∧ r₁.ledger = r.ledger ∧ r₁.position = r.position ∧
      r₁.executor = r.executor := by
    split at hadmitEvent
    · obtain ⟨hframe, hledger, hposition, hexecutor, _⟩ := admit_ok hadmitEvent
      exact ⟨hframe, hledger, hposition, hexecutor⟩
    · cases hadmitEvent
      exact ⟨Frame.refl r, rfl, rfl, rfl⟩
  obtain ⟨hframe, hledger, hposition, hexecutor⟩ := hsame
  dsimp only at h
  obtain ⟨_, _, h⟩ := bind_ok.mp h
  obtain ⟨⟨fills, executor⟩, hfills, h⟩ := bind_ok.mp h
  dsimp only at h
  obtain ⟨_, hpaired, h⟩ := bind_ok.mp h
  obtain ⟨proposed, hproposed, h⟩ := bind_ok.mp h
  rw [raiseWhen_ok, not_not] at hpaired
  rw [raising_ok, hledger] at hproposed
  rw [hexecutor] at hfills
  have hframe' : Frame r₁ { r₁ with executor } := ⟨rfl, rfl, rfl, rfl, rfl, fun _ _ h => h⟩
  split at h
  · rename_i hrefused
    obtain ⟨hopening, hshort⟩ := hrefused
    cases h
    subst hopening
    exact ⟨hframe.trans hframe', hposition,
      .inr ⟨rfl, rfl, ⟨proposed, ⟨fills, executor, hfills, hpaired, hproposed⟩, hshort⟩, hledger⟩⟩
  · rename_i haccepted
    cases h
    refine ⟨hframe.trans ⟨rfl, rfl, rfl, rfl, rfl, fun _ _ h => h⟩, hposition, .inl ⟨rfl, ?_, ?_⟩⟩
    · exact ⟨fills, executor, hfills, hpaired, hproposed⟩
    · intro hopening hshort
      exact haccepted ⟨hopening, hshort⟩

/-! ## Decisions -/

/-- `enter` takes a position of the size of `result`. -/
def Enters (b : Backtest K σ) (r : Runner K σ) (e : MarketEvent K) [FloorRing K]
    (result : SizingResult K) : Prop :=
  r.position = none ∧ ∃ forecast opportunity r₁ r₂, r.forecast b e.timeMs = .ok forecast ∧
    r.admitEvent b e = .ok (opportunity, r₁) ∧
    r₁.enter b e opportunity forecast = .ok (result.decision, some result, r₂) ∧
    result.decision.action = .enter

/-- An entry: the opportunity was admitted, a size was found, and both legs are booked. -/
structure Entered (b : Backtest K σ) (r : Runner K σ) (e : MarketEvent K) [FloorRing K]
    (forecast : Option (FundingForecast K)) (result : SizingResult K) (after : Ledger K)
    (position : Position K) : Prop where
  evidence : ∃ o r₁ charges market, r.admitEvent b e = .ok (some o, r₁) ∧
    b.charges e o = .ok charges ∧
    sizePosition b.sqrt b.strategy
      { nowMs := e.timeMs, forecast, approval := o.approval, market, curve := o.curve, charges } =
        .ok result
  chosen : Enters b r e result
  enters : result.decision.action = .enter
  booked : Booked b r.executor r.ledger e (inRun result.quantityBase) true after
  reserved : ¬ after.Short e.marks.perp.value b.config.collateralFraction
  held : position.settlementsHeld = 0
  planned : position.plannedSettlements = b.config.policy.horizonSettlements
  opened : position.openedAtMs = e.timeMs

/-- `held` decides `d` for the position `p`. -/
def Continues (b : Backtest K σ) (r : Runner K σ) (e : MarketEvent K) (p : Position K)
    (d : Decision K) : Prop :=
  ∃ opportunity r₁ forecast, r.forecast b e.timeMs = .ok forecast ∧
    r.admitEvent b e = .ok (opportunity, r₁) ∧
    r.continuation b e opportunity forecast p = .ok d

/-- What a scheduled decision does: the ledger and the position after it. -/
inductive Decided (b : Backtest K σ) (r : Runner K σ) (e : MarketEvent K) [FloorRing K]
    (outcome : Outcome K) : Ledger K → Option (Position K) → Prop where
  | waited (d : Decision K) (flat : r.position = none) (decision : outcome.decision = some d)
      (action : d.action = .wait) : Decided b r e outcome r.ledger none
  | entered (result : SizingResult K) (after : Ledger K) (position : Position K)
      (flat : r.position = none) (decision : outcome.decision = some result.decision)
      (forecast : r.forecast b e.timeMs = .ok outcome.forecast)
      (entry : Entered b r e outcome.forecast result after position) :
      Decided b r e outcome after (some position)
  | held (d : Decision K) (p : Position K) (position : r.position = some p)
      (decision : outcome.decision = some d) (action : d.action = .hold)
      (continues : Continues b r e p d) (remaining : 0 < p.remaining) :
      Decided b r e outcome r.ledger (some p)
  | exited (d : Decision K) (p : Position K) (after : Ledger K) (position : r.position = some p)
      (decision : outcome.decision = some d) (action : d.action = .exit)
      (continues : Continues b r e p d)
      (booked : Booked b r.executor r.ledger e (inRun (-r.ledger.perp.quantity)) false after) :
      Decided b r e outcome after none

/-- Both legs are booked within the reserve, and the position starts its plan now. -/
structure Taken (b : Backtest K σ) (r : Runner K σ) (e : MarketEvent K) (quantity : K)
    (r' : Runner K σ) : Prop where
  booked : Booked b r.executor r.ledger e quantity true r'.ledger
  reserved : ¬ r'.ledger.Short e.marks.perp.value b.config.collateralFraction
  position : ∃ p, r'.position = some p ∧ p.settlementsHeld = 0 ∧
    p.plannedSettlements = b.config.policy.horizonSettlements ∧ p.openedAtMs = e.timeMs

theorem takePosition_ok {result : SizingResult K} {decision : Decision K}
    (h : r.takePosition b e result = .ok (decision, r')) :
    Frame r r' ∧
      (decision.action = .wait ∧ Overreaches b r e (inRun result.quantityBase) ∧
          r'.position = r.position ∧ r'.ledger = r.ledger ∨
        decision = result.decision ∧ Taken b r e (inRun result.quantityBase) r') := by
  unfold takePosition at h
  obtain ⟨⟨booked, r₁⟩, htrade, h⟩ := bind_ok.mp h
  obtain ⟨hframe, hposition, hbooked⟩ := trade_ok htrade
  dsimp only at h
  split at h
  · rename_i htrue
    obtain ⟨p, hp, h⟩ := bind_ok.mp h
    cases h
    rw [raising_ok] at hp
    obtain ⟨_, _, hopened, hplanned, hheld, _⟩ := Position.make_ok hp
    rcases hbooked with ⟨_, hbooked, hreserved⟩ | ⟨hfalse, _⟩
    · exact ⟨hframe.trans ⟨rfl, rfl, rfl, rfl, rfl, fun _ _ h => h⟩,
        .inr ⟨rfl, hbooked, hreserved rfl, p, rfl, hheld, hplanned, hopened⟩⟩
    · rw [htrue] at hfalse
      cases hfalse
  · rename_i hfalse
    cases h
    rcases hbooked with ⟨htrue, _⟩ | ⟨_, _, hshort, hledger⟩
    · exact absurd htrue hfalse
    · exact ⟨hframe, .inl ⟨rfl, hshort, hposition, hledger⟩⟩

section

variable [FloorRing K] {forecast : Option (FundingForecast K)} {o : Opportunity K}
  {decision : Decision K} {sizing : Option (SizingResult K)}

theorem enter_none (h : r.enter b e none forecast = .ok (decision, sizing, r')) :
    decision.action = .wait ∧ r' = r := by
  cases h
  exact ⟨rfl, rfl⟩

theorem enter_ok (h : r.enter b e (some o) forecast = .ok (decision, sizing, r')) :
    Frame r r' ∧
      (decision.action = .wait ∧ r'.position = r.position ∧ r'.ledger = r.ledger ∨
        ∃ result charges market, b.charges e o = .ok charges ∧
          sizePosition b.sqrt b.strategy
            { nowMs := e.timeMs, forecast, approval := o.approval, market, curve := o.curve,
              charges } = .ok result ∧
          result.decision.action = .enter ∧ decision = result.decision ∧ sizing = some result ∧
          Taken b r e (inRun result.quantityBase) r') := by
  unfold enter at h
  obtain ⟨charges, hcharges, h⟩ := bind_ok.mp h
  obtain ⟨cap, _, h⟩ := bind_ok.mp h
  split at h
  · cases h
    exact ⟨Frame.refl r, .inl ⟨rfl, rfl, rfl⟩⟩
  · obtain ⟨market, _, h⟩ := bind_ok.mp h
    obtain ⟨result, hresult, h⟩ := bind_ok.mp h
    split at h
    · rename_i henter
      obtain ⟨⟨d, r₁⟩, htake, h⟩ := bind_ok.mp h
      cases h
      obtain ⟨hframe, ⟨hwait, _, hkept⟩ | ⟨hdecision, htaken⟩⟩ := takePosition_ok htake
      · exact ⟨hframe, .inl ⟨hwait, hkept⟩⟩
      · exact ⟨hframe,
          .inr ⟨result, charges, market, hcharges, hresult, henter, hdecision, rfl, htaken⟩⟩
    · rename_i hstop
      cases h
      refine ⟨Frame.refl r, .inl ⟨?_, rfl, rfl⟩⟩
      rcases sizePosition_ok hresult with hwait | ⟨henter, _⟩
      · exact hwait
      · exact absurd henter hstop

end

theorem continuation_ok {opportunity : Option (Opportunity K)}
    {forecast : Option (FundingForecast K)} {p : Position K} {decision : Decision K}
    (h : r.continuation b e opportunity forecast p = .ok decision) :
    decision.action = .exit ∨ decision.action = .hold ∧ 0 < p.remaining := by
  unfold continuation at h
  obtain ⟨position, hposition, h⟩ := bind_ok.mp h
  obtain ⟨estimate, _, h⟩ := bind_ok.mp h
  rw [raising_ok] at hposition h
  obtain ⟨_, _, _, hplanned, hheld, _⟩ := Position.make_ok hposition
  have hremaining : position.remaining = p.remaining := by
    rw [Position.remaining, hplanned, hheld]
    rfl
  rcases CarryStrategy.decide_open h with hexit | ⟨hhold, hpos⟩
  · exact .inl hexit
  · exact .inr ⟨hhold, hremaining ▸ hpos⟩

/-- `held` decides from the perp leg alone. -/
theorem continuation_perp (h : r'.ledger.perp = r.ledger.perp)
    (opportunity : Option (Opportunity K)) (forecast : Option (FundingForecast K))
    (p : Position K) :
    r'.continuation b e opportunity forecast p = r.continuation b e opportunity forecast p := by
  unfold continuation
  rw [h]

theorem held_ok {opportunity : Option (Opportunity K)} {forecast : Option (FundingForecast K)}
    {p : Position K} {decision : Decision K}
    (h : r.held b e opportunity forecast p = .ok (decision, r')) :
    r.continuation b e opportunity forecast p = .ok decision ∧ Frame r r' ∧
      (decision.action = .hold ∧ 0 < p.remaining ∧ r' = r ∨
        decision.action = .exit ∧ r'.position = none ∧
          Booked b r.executor r.ledger e (inRun (-r.ledger.perp.quantity)) false r'.ledger) := by
  unfold held at h
  obtain ⟨d, hd, h⟩ := bind_ok.mp h
  split at h
  · rename_i hexit
    obtain ⟨⟨booked, r₁⟩, htrade, h⟩ := bind_ok.mp h
    cases h
    obtain ⟨hframe, _, ⟨_, hbooked, _⟩ | ⟨_, hopening, _⟩⟩ := trade_ok htrade
    · exact ⟨hd, hframe.trans ⟨rfl, rfl, rfl, rfl, rfl, fun _ _ h => h⟩,
        .inr ⟨hexit, rfl, hbooked⟩⟩
    · cases hopening
  · rename_i hstay
    cases h
    rcases continuation_ok hd with hexit | ⟨hhold, hpos⟩
    · exact absurd hexit hstay
    · exact ⟨hd, Frame.refl r, .inl ⟨hhold, hpos, rfl⟩⟩

theorem decision_decided [FloorRing K] {outcome : Outcome K}
    (h : r.decision b e = .ok (outcome, r')) :
    Frame r r' ∧ Decided b r e outcome r'.ledger r'.position := by
  unfold decision at h
  obtain ⟨forecast, hforecast, h⟩ := bind_ok.mp h
  obtain ⟨⟨found, r₁⟩, hadmitEvent, h⟩ := bind_ok.mp h
  obtain ⟨hframe, hledger, hposition, hexecutor, _⟩ := admit_ok hadmitEvent
  dsimp only at h
  rw [hposition] at h
  split at h
  · rename_i hflat
    obtain ⟨⟨d, sizing, r₂⟩, henter, h⟩ := bind_ok.mp h
    cases h
    cases found with
    | none =>
      obtain ⟨hwait, rfl⟩ := enter_none henter
      refine ⟨hframe, ?_⟩
      rw [hledger, hposition, hflat]
      exact .waited d hflat rfl hwait
    | some o =>
      obtain ⟨hframe', hcase⟩ := enter_ok henter
      refine ⟨hframe.trans hframe', ?_⟩
      rcases hcase with ⟨hwait, hkept, hsame⟩ |
        ⟨result, charges, market, hcharges, hsized, henters, rfl, rfl, htaken⟩
      · rw [hsame, hkept, hledger, hposition, hflat]
        exact .waited d hflat rfl hwait
      · obtain ⟨hbooked, hreserved, p, hp, hheld, hplanned, hopened⟩ := htaken
        rw [hledger, hexecutor] at hbooked
        rw [hp]
        refine .entered result _ p hflat rfl hforecast ?_
        have hchosen : Enters b r e result :=
          ⟨hflat, forecast, some o, r₁, _, hforecast, hadmitEvent, henter, henters⟩
        exact ⟨⟨o, r₁, charges, market, hadmitEvent, hcharges, hsized⟩, hchosen, henters, hbooked,
          hreserved, hheld, hplanned, hopened⟩
  · rename_i p hp
    obtain ⟨⟨d, r₂⟩, hheld, h⟩ := bind_ok.mp h
    cases h
    obtain ⟨hd, hframe', hcase⟩ := held_ok hheld
    rw [continuation_perp (congrArg (·.perp) hledger)] at hd
    have hcontinues : Continues b r e p d := ⟨found, r₁, forecast, hforecast, hadmitEvent, hd⟩
    refine ⟨hframe.trans hframe', ?_⟩
    rcases hcase with ⟨hhold, hpos, rfl⟩ | ⟨hexit, hnone, hbooked⟩
    · rw [hledger, hposition, hp]
      exact .held d p hp rfl hhold hcontinues hpos
    · rw [hledger, hexecutor] at hbooked
      rw [hnone]
      exact .exited d p _ hp rfl hexit hcontinues hbooked

/-- An entry that `enter` would take is the one that is decided. -/
theorem decision_enters [FloorRing K] {outcome : Outcome K} {result : SizingResult K}
    (h : r.decision b e = .ok (outcome, r')) (henters : Enters b r e result) :
    outcome.decision = some result.decision ∧ outcome.result = some result := by
  obtain ⟨hflat, forecast, opportunity, r₁, r₂, hforecast, hadmitEvent, henter, _⟩ := henters
  unfold decision at h
  obtain ⟨forecast', hforecast', h⟩ := bind_ok.mp h
  obtain ⟨⟨opportunity', r₁'⟩, hadmitEvent', h⟩ := bind_ok.mp h
  rw [hforecast] at hforecast'
  rw [hadmitEvent] at hadmitEvent'
  cases hforecast'
  cases hadmitEvent'
  obtain ⟨_, _, hposition, _⟩ := admit_ok hadmitEvent
  dsimp only at h
  rw [hposition, hflat] at h
  obtain ⟨⟨decision, sizing, r₃⟩, henter', h⟩ := bind_ok.mp h
  rw [henter] at henter'
  cases henter'
  cases h
  exact ⟨rfl, rfl⟩

/-! ## Events -/

/-- What the head of `process` has tested. -/
structure Received (b : Backtest K σ) (r : Runner K σ) (event : Event K) : Prop where
  nonneg : 0 ≤ event.timeMs
  fresh : event.eventId ∉ r.ids
  forwards : r.lastTime ≤ event.timeMs
  window : b.config.warmupStartMs ≤ event.timeMs ∧ event.timeMs < b.config.endMs
  due : b.config.startMs ≤ event.timeMs → event.timeMs ≤ r.nextDecisionMs

omit [Arithmetic K] in
theorem receive_ok {event : Event K} (h : r.receive b event = .ok r') :
    Received b r event ∧ r' = r.seen event := by
  unfold receive at h
  simp only [bind_ok, pure_ok, raising_ok, integer_ok, raiseWhen_ok, not_or, not_lt] at h
  obtain ⟨_, hnonneg, _, ⟨_, hfresh, hforwards⟩, _, hwindow, _, hdue, rfl⟩ := h
  refine ⟨⟨hnonneg, hfresh, hforwards, not_not.mp hwindow, ?_⟩, rfl⟩
  intro hscored
  exact not_lt.mp fun hlate => hdue ⟨hscored, hlate⟩

/-- A funding event: a row for the model, and inside the study window a settlement. -/
structure FundingStep (b : Backtest K σ) (r : Runner K σ) (e : FundingEvent K)
    (record : Option (Record K)) (r' : Runner K σ) : Prop where
  interval : e.intervalHours = b.config.intervalHours
  observed : e.timeMs = r.nextObservationMs
  updated : ∃ rate, e.rate = .finite rate ∧
    r.model.update e.timeMs (toFloat rate) e.intervalHours = .ok r'.model
  lastTime : r'.lastTime = r.lastTime
  ids : r'.ids = r.ids
  nextDecision : r'.nextDecisionMs = r.nextDecisionMs
  curves : r'.foldCurves = r.foldCurves
  warmup : e.timeMs < b.config.startMs →
    record = none ∧ r'.ledger = r.ledger ∧ r'.position = r.position
  scored : b.config.startMs ≤ e.timeMs →
    r.ledger.settle ⟨e.eventId, b.config.symbol, e.timeMs, e.intervalHours, e.rate,
        e.markPrice.getD .nan⟩ = .ok r'.ledger ∧
      ¬ r'.ledger.Short (e.markPrice.getD .nan).value b.config.collateralFraction ∧
      r'.position = r.position.map (·.settled) ∧
      record = some (r'.baseRecord b e.eventId e.timeMs .funding)

theorem settle_ok {event : FundingEvent K} (h : r.settle b event = .ok r') :
    r.ledger.settle ⟨event.eventId, b.config.symbol, event.timeMs, event.intervalHours, event.rate,
        event.markPrice.getD .nan⟩ = .ok r'.ledger ∧
      ¬ r'.ledger.Short (event.markPrice.getD .nan).value b.config.collateralFraction ∧
      r' = { r with ledger := r'.ledger, position := r.position.map (·.settled) } := by
  unfold settle reserve at h
  simp only [bind_ok, pure_ok, raising_ok, raiseWhen_ok] at h
  obtain ⟨ledger, hledger, _, hreserved, rfl⟩ := h
  exact ⟨hledger, hreserved, rfl⟩

theorem funding_step {event : FundingEvent K} {record : Option (Record K)}
    (h : r.funding b event = .ok (record, r')) : FundingStep b r event record r' := by
  unfold funding at h
  obtain ⟨rate, hrate, h⟩ := bind_ok.mp h
  obtain ⟨_, haligned, h⟩ := bind_ok.mp h
  obtain ⟨r₁, hsettled, h⟩ := bind_ok.mp h
  obtain ⟨model, hmodel, h⟩ := bind_ok.mp h
  rw [raising_ok, decimal_ok] at hrate
  rw [raiseWhen_ok, not_or, not_not, not_not] at haligned
  dsimp only at h
  by_cases hwarmup : event.timeMs < b.config.startMs
  · rw [if_neg (not_le.mpr hwarmup)] at hsettled
    rw [if_pos hwarmup] at h
    cases hsettled
    cases h
    exact ⟨haligned.1, haligned.2, ⟨rate, hrate, hmodel⟩, rfl, rfl, rfl, rfl,
      fun _ => ⟨rfl, rfl, rfl⟩, fun hscored => absurd hwarmup (not_lt.mpr hscored)⟩
  · rw [if_pos (not_lt.mp hwarmup)] at hsettled
    rw [if_neg hwarmup] at h
    obtain ⟨hledger, hreserved, heq⟩ := settle_ok hsettled
    rw [heq] at hmodel h
    cases h
    exact ⟨haligned.1, haligned.2, ⟨rate, hrate, hmodel⟩, rfl, rfl, rfl, rfl,
      fun hbefore => absurd hbefore hwarmup, fun _ => ⟨hledger, hreserved, rfl, rfl⟩⟩

/-- A market event: financed, decided upon if it is scheduled, valued and recorded. -/
structure MarketStep [FloorRing K] (b : Backtest K σ) (r : Runner K σ) (e : MarketEvent K)
    (financed : Ledger K) (outcome : Outcome K) (final : Valuation K) (record : Record K)
    (r' : Runner K σ) : Prop where
  scope : r.scope b e = .ok ()
  finance : r.ledger.finance (e.eventId ++ ":finance") e.timeMs e.financingUsdt = .ok financed
  solvent : ∃ before, financed.value e.marks = .ok before ∧ 0 < before.netEquityUsdt
  decided : e.decide = true →
    Decided b { r with ledger := financed } e outcome r'.ledger r'.position
  enters : e.decide = true → ∀ result, Enters b { r with ledger := financed } e result →
    outcome.decision = some result.decision ∧ outcome.result = some result
  idle : e.decide = false → outcome = {} ∧ r'.ledger = financed ∧ r'.position = r.position
  valued : r'.ledger.value e.marks = .ok final
  reserved : ¬ r'.ledger.Short e.marks.perp.value b.config.collateralFraction
  model : r'.model = r.model
  lastTime : r'.lastTime = r.lastTime
  ids : r'.ids = r.ids
  nextObservation : r'.nextObservationMs = r.nextObservationMs
  nextDecision : r'.nextDecisionMs =
    r.nextDecisionMs + if e.decide then b.config.intervalMs else 0
  curves : ∀ fold digest, r.foldCurves.lookup fold = some digest →
    r'.foldCurves.lookup fold = some digest
  recorded : record.timeMs = e.timeMs ∧ record.eventType = .market ∧
    record.foldStartMs = foldStart e.timeMs ∧ record.decision = outcome.decision ∧
    record.valuation = some final ∧ record.forecast = outcome.forecast ∧
    record.plannedSettlements = r'.position.map (·.plannedSettlements) ∧
    record.settlementsHeld = (r'.position.map (·.settlementsHeld)).getD 0 ∧
    record.quantityBase = inRun (-r'.ledger.perp.quantity) ∧
    record.impactSha256 = e.opportunity.map (·.curve.artifactSha256)
  sealed : ∀ o, e.opportunity = some o → ¬ b.Unadmitted e o →
    r'.foldCurves.lookup o.foldStartMs = some o.curve.artifactSha256

theorem market_step [FloorRing K] {record : Record K} (h : r.market b e = .ok (record, r')) :
    ∃ financed outcome final, MarketStep b r e financed outcome final record r' := by
  unfold market reserve at h
  obtain ⟨_, hscope, h⟩ := bind_ok.mp h
  obtain ⟨financed, hfinance, h⟩ := bind_ok.mp h
  obtain ⟨before, hbefore, h⟩ := bind_ok.mp h
  obtain ⟨_, _, h⟩ := bind_ok.mp h
  obtain ⟨_, hsolvent, h⟩ := bind_ok.mp h
  obtain ⟨⟨outcome, r₁⟩, hacts, h⟩ := bind_ok.mp h
  obtain ⟨final, hfinal, h⟩ := bind_ok.mp h
  obtain ⟨_, hreserved, h⟩ := bind_ok.mp h
  rw [raising_ok] at hfinance hbefore hfinal
  rw [raiseWhen_ok] at hsolvent hreserved
  have hframe : Frame r r₁ ∧
      (e.decide = true → Decided b { r with ledger := financed } e outcome r₁.ledger r₁.position) ∧
      (e.decide = true → ∀ result, Enters b { r with ledger := financed } e result →
        outcome.decision = some result.decision ∧ outcome.result = some result) ∧
      (e.decide = false → outcome = {} ∧ r₁.ledger = financed ∧ r₁.position = r.position) := by
    cases hdecide : e.decide with
    | true =>
      rw [hdecide, if_pos rfl] at hacts
      obtain ⟨hframe, hdecided⟩ := decision_decided hacts
      exact ⟨⟨hframe.model, hframe.lastTime, hframe.nextObservation, hframe.ids,
        hframe.nextDecision, hframe.curves⟩, fun _ => hdecided,
        fun _ _ henters => decision_enters hacts henters, nofun⟩
    | false =>
      rw [hdecide, if_neg (by decide)] at hacts
      cases hacts
      exact ⟨⟨rfl, rfl, rfl, rfl, rfl, fun _ _ h => h⟩, nofun, nofun, fun _ => ⟨rfl, rfl, rfl⟩⟩
  obtain ⟨hframe, hdecided, henters, hidle⟩ := hframe
  unfold marketRecord at h
  obtain ⟨⟨admitted, r₂⟩, hadmitEvent, h⟩ := bind_ok.mp h
  obtain ⟨hkept, hledger, hposition, _, hevidence⟩ := admit_ok hadmitEvent
  cases h
  refine ⟨financed, outcome, final, ?_⟩
  have hledger : r'.ledger = r₁.ledger := hledger
  have hposition : r'.position = r₁.position := hposition
  constructor
  · exact hscope
  · exact hfinance
  · exact ⟨before, hbefore, not_le.mp hsolvent⟩
  · rw [hledger, hposition]
    exact hdecided
  · exact henters
  · rw [hledger, hposition]
    exact hidle
  · rw [hledger]
    exact hfinal
  · rw [hledger]
    exact hreserved
  · exact hkept.model.trans hframe.model
  · exact hkept.lastTime.trans hframe.lastTime
  · exact hkept.ids.trans hframe.ids
  · exact hkept.nextObservation.trans hframe.nextObservation
  · rw [hkept.nextDecision]
    show r₁.nextDecisionMs + _ = _
    rw [hframe.nextDecision]
  · intro fold digest hdigest
    exact hkept.curves fold digest (hframe.curves fold digest hdigest)
  · exact ⟨rfl, rfl, rfl, rfl, rfl, rfl, rfl, rfl, rfl, rfl⟩
  · intro o ho hpass
    exact (hevidence o (admit_passes hadmitEvent ho hpass)).2.2

theorem process_funding [FloorRing K] {event : FundingEvent K} {record : Option (Record K)}
    (h : r.process b (.funding event) = .ok (record, r')) :
    Received b r (.funding event) ∧ FundingStep b (r.seen (.funding event)) event record r' := by
  unfold process at h
  obtain ⟨r₁, hreceived, h⟩ := bind_ok.mp h
  obtain ⟨hclock, rfl⟩ := receive_ok hreceived
  exact ⟨hclock, funding_step h⟩

theorem process_market [FloorRing K] {record : Option (Record K)}
    (h : r.process b (.market e) = .ok (record, r')) :
    Received b r (.market e) ∧ ∃ rec financed outcome final, record = some rec ∧
      MarketStep b (r.seen (.market e)) e financed outcome final rec r' := by
  unfold process at h
  obtain ⟨r₁, hreceived, h⟩ := bind_ok.mp h
  obtain ⟨hclock, rfl⟩ := receive_ok hreceived
  obtain ⟨⟨rec, r₂⟩, hmarket, h⟩ := bind_ok.mp h
  cases h
  obtain ⟨financed, outcome, final, hstep⟩ := market_step hmarket
  exact ⟨hclock, rec, financed, outcome, final, rfl, hstep⟩

/-- The decision in a record was taken by this event, on the financed ledger. -/
theorem process_decided [FloorRing K] {event : Event K} {rec : Record K} {d : Decision K}
    (hs : r.process b event = .ok (some rec, r')) (hd : rec.decision = some d) :
    ∃ e financed outcome, event = .market e ∧ outcome.decision = some d ∧
      r.ledger.finance (e.eventId ++ ":finance") e.timeMs e.financingUsdt = .ok financed ∧
      Decided b { r.seen event with ledger := financed } e outcome r'.ledger
        r'.position := by
  cases event with
  | funding e =>
    obtain ⟨_, hstep⟩ := process_funding hs
    by_cases hwarmup : e.timeMs < b.config.startMs
    · cases (hstep.warmup hwarmup).1
    · cases (hstep.scored (not_lt.mp hwarmup)).2.2.2
      cases hd
  | market e =>
    obtain ⟨_, rec', financed, outcome, final, heq, hstep⟩ := process_market hs
    cases heq
    rw [hstep.recorded.2.2.2.1] at hd
    cases hdecide : e.decide with
    | true => exact ⟨e, financed, outcome, rfl, hd, hstep.finance, hstep.decided hdecide⟩
    | false =>
      rw [(hstep.idle hdecide).1] at hd
      cases hd

/-- The clock of the runner takes over the time of the event. -/
theorem process_lastTime [FloorRing K] {event : Event K} {record : Option (Record K)}
    (h : r.process b event = .ok (record, r')) : r'.lastTime = event.timeMs := by
  cases event with
  | funding event => exact (process_funding h).2.lastTime
  | market event =>
    obtain ⟨_, _, _, _, _, _, hstep⟩ := process_market h
    exact hstep.lastTime

theorem process_forwards [FloorRing K] {event : Event K} {record : Option (Record K)}
    (h : r.process b event = .ok (record, r')) : r.lastTime ≤ r'.lastTime := by
  rw [process_lastTime h]
  cases event with
  | funding event => exact (process_funding h).1.forwards
  | market event => exact (process_market h).1.forwards

end Runner

/-! ## Runs -/

namespace Backtest

variable {b : Backtest K σ} {executor : σ} {events : List (Event K)} {r r' : Runner K σ}
  {records : List (Record K)}

omit [Arithmetic K] in
/-- A run starts flat, with nothing observed and its clocks at the start of the window. -/
theorem start_ok (h : b.start executor = .ok r) :
    r.position = none ∧ r.model.history = [] ∧
      r.nextDecisionMs = b.config.startMs + b.config.decisionDelayMs ∧
      Ledger.start b.config.symbol (.finite b.config.initialCapitalUsdt) b.config.startMs b.fees =
        .ok r.ledger := by
  unfold start at h
  obtain ⟨_, _, h⟩ := bind_ok.mp h
  obtain ⟨ledger, hledger, h⟩ := bind_ok.mp h
  cases h
  exact ⟨rfl, rfl, rfl, raising_ok.mp hledger⟩

variable [FloorRing K]

theorem step_ok {s s' : Runner K σ × List (Record K)} {event : Event K} :
    b.step s event = .ok s' ↔
      ∃ record, s.1.process b event = .ok (record, s'.1) ∧ s'.2 = s.2 ++ record.toList := by
  unfold step
  constructor
  · intro h
    cases hprocess : s.1.process b event with
    | error err =>
      rw [hprocess] at h
      cases h
    | ok found =>
      rw [hprocess] at h
      cases h
      exact ⟨found.1, rfl, rfl⟩
  · rintro ⟨record, hprocess, hrecords⟩
    rw [hprocess]
    exact congrArg Except.ok (Prod.ext rfl hrecords.symm)

theorem reaches_iff_replay :
    b.Reaches executor events r records ↔ b.replay executor events = .ok (r, records) := by
  unfold Reaches replay
  cases b.start executor with
  | error err => simp
  | ok started => simp

/-- A run that returns has reached its state, and what can be tested of it holds there. -/
theorem reaches_of_replay {p : Runner K σ × List (Record K) → Bool}
    (h : (b.replay executor events).toOption.any p = true) :
    ∃ r records, b.Reaches executor events r records ∧ p (r, records) = true := by
  cases hreplay : b.replay executor events with
  | error err =>
    rw [hreplay] at h
    cases h
  | ok s =>
    rw [hreplay] at h
    exact ⟨s.1, s.2, reaches_iff_replay.mpr hreplay, h⟩

/-- True at the start and kept by every processed event. -/
theorem reaches_induction (Holds : List (Event K) → Runner K σ → List (Record K) → Prop)
    (start : ∀ r, b.start executor = .ok r → Holds [] r [])
    (keep : ∀ past r records event record r', Holds past r records →
      r.process b event = .ok (record, r') →
      Holds (past ++ [event]) r' (records ++ record.toList))
    (h : b.Reaches executor events r records) : Holds events r records := by
  obtain ⟨started, hstart, hrun⟩ := h
  refine Lib.run_history (fun past s => Holds past s.1 s.2) ?_ [] (start started hstart) hrun
  intro past s event s' hpast hstep
  obtain ⟨record, hprocess, hrecords⟩ := step_ok.mp hstep
  have hkept := keep past s.1 s.2 event record s'.1 hpast hprocess
  rwa [← hrecords] at hkept

theorem reaches_snoc {event : Event K} {record : Option (Record K)}
    (h : b.Reaches executor events r records) (hs : r.process b event = .ok (record, r')) :
    b.Reaches executor (events ++ [event]) r' (records ++ record.toList) := by
  obtain ⟨started, hstart, hrun⟩ := h
  refine ⟨started, hstart, ?_⟩
  rw [Lib.run_append, hrun]
  show Lib.run b.step (r, records) [event] = _
  rw [Lib.run_cons_ok]
  exact ⟨(r', records ++ record.toList), step_ok.mpr ⟨record, hs, rfl⟩, rfl⟩

theorem reaches_snoc_inv {event : Event K} {records' : List (Record K)}
    (h : b.Reaches executor (events ++ [event]) r' records') :
    ∃ r records record, b.Reaches executor events r records ∧
      r.process b event = .ok (record, r') ∧ records' = records ++ record.toList := by
  obtain ⟨started, hstart, hrun⟩ := h
  rw [Lib.run_append] at hrun
  cases hfirst : Lib.run b.step (started, []) events with
  | error err =>
    rw [hfirst] at hrun
    cases hrun
  | ok s =>
    rw [hfirst] at hrun
    obtain ⟨s', hstep, hrest⟩ := Lib.run_cons_ok.mp hrun
    cases hrest
    obtain ⟨record, hprocess, hrecords⟩ := step_ok.mp hstep
    exact ⟨s.1, s.2, record, ⟨started, hstart, hfirst⟩, hprocess, hrecords⟩

/-- A stream that ends without an error consists of events that were all processed. -/
theorem iterate_ok {rows : List (Except Raised (Event K))} (h : (b.iterate r rows).2 = none)
    (before : List (Record K)) :
    ∃ events r', rows = events.map .ok ∧
      Lib.run b.step (r, before) events = .ok (r', before ++ (b.iterate r rows).1) := by
  induction rows generalizing r before with
  | nil => exact ⟨[], r, rfl, by simp [iterate]⟩
  | cons row rows ih =>
    cases row with
    | error err => cases h
    | ok event =>
      cases hprocess : r.process b event with
      | error err =>
        rw [iterate, hprocess] at h
        cases h
      | ok found =>
        rw [iterate, hprocess] at h
        obtain ⟨events, r', rfl, hrun⟩ := ih h (before ++ found.1.toList)
        refine ⟨event :: events, r', rfl, ?_⟩
        rw [iterate, hprocess, Lib.run_cons_ok]
        refine ⟨(found.2, before ++ found.1.toList), step_ok.mpr ⟨found.1, hprocess, rfl⟩, ?_⟩
        rw [hrun, List.append_assoc]

theorem iterBacktest_ok {rows : List (Except Raised (Event K))}
    (h : (b.iterBacktest executor rows).2 = none) :
    ∃ events r, rows = events.map .ok ∧
      b.Reaches executor events r (b.iterBacktest executor rows).1 := by
  unfold iterBacktest at h ⊢
  cases hstart : b.start executor with
  | error err =>
    rw [hstart] at h
    cases h
  | ok started =>
    rw [hstart] at h
    obtain ⟨events, r, hrows, hrun⟩ := iterate_ok h []
    exact ⟨events, r, hrows, started, hstart, hrun⟩

/-- `P` holds of every step of the run: runner before, event, record, runner after. -/
def EveryStep (b : Backtest K σ) (executor : σ) (events : List (Event K))
    (P : Runner K σ → Event K → Option (Record K) → Runner K σ → Prop) : Prop :=
  ∀ past event rest r records record r', events = past ++ event :: rest →
    b.Reaches executor past r records → r.process b event = .ok (record, r') →
    P r event record r'

theorem everyStep_congr {P Q : Runner K σ → Event K → Option (Record K) → Runner K σ → Prop}
    (h : ∀ past r records event record r', b.Reaches executor past r records →
      r.process b event = .ok (record, r') → (P r event record r' ↔ Q r event record r')) :
    b.EveryStep executor events P ↔ b.EveryStep executor events Q := by
  constructor
  · intro hP past event rest r records record r' heq hreaches hstep
    exact (h past r records event record r' hreaches hstep).mp
      (hP past event rest r records record r' heq hreaches hstep)
  · intro hQ past event rest r records record r' heq hreaches hstep
    exact (h past r records event record r' hreaches hstep).mpr
      (hQ past event rest r records record r' heq hreaches hstep)

end Backtest

end Strategy
end PerpCarry
