import PerpCarry.Core.Digest
import PerpCarry.Models.RollingFunding
import PerpCarry.Strategy.Accounting

/-!
# Strategy.Carry

The decision of the strategy: `python/perpcarry/strategy/carry.py`.

`CarryStrategy.decide` looks at a forecast, a cost estimate, an approval and the position, if there
is one. What is handed in from outside carries the checks of its `__post_init__` as fields; a
`CostEstimate` and a `Position` are built on the way, so they have checking constructors.

* `weigh_action`: a decision stops, or goes on with every gate passed.
* `decide_flat`: without a position, a wait or an entry.
* `decide_open`: with one, an exit, or a hold while settlements are still planned.
-/

namespace PerpCarry
namespace Strategy

open Models (CumulativeFundingForecast JITTER_MS)

/-- `integer(value, name, minimum)`. -/
def integer (value : Int) (name : String) (minimum : Int) : Except ValueError Unit :=
  raiseIf (value < minimum) (name ++ " must be an integer >= " ++ toString minimum)

@[simp] theorem integer_ok {value minimum : Int} {name : String} {x : Unit} :
    integer value name minimum = .ok x ↔ minimum ≤ value := by
  simp [integer]

variable {K : Type} [Field K] [LinearOrder K]

/-- `number(value, name)`. -/
def number (value : K) (name : String) : Except ValueError Unit :=
  raiseIf (value < 0) (name ++ " must be finite and >= 0.0")

@[simp] theorem number_ok {value : K} {name : String} {x : Unit} :
    number value name = .ok x ↔ 0 ≤ value := by
  simp [number]

structure Policy (K : Type) [Field K] [LinearOrder K] where
  horizonSettlements : Int
  entryProbability : K
  continuationProbability : K
  allowSyntheticCosts : Bool := false
  horizon_pos : 1 ≤ horizonSettlements
  continuation_nonneg : 0 ≤ continuationProbability
  continuation_lt_entry : continuationProbability < entryProbability
  entry_lt_one : entryProbability < 1

structure Position (K : Type) [Field K] [LinearOrder K] where
  symbol : String
  notionalUsdt : K
  openedAtMs : Int
  plannedSettlements : Int
  settlementsHeld : Int
  intervalHours : Int
  notional_pos : 0 < notionalUsdt
  symbol_ne : symbol ≠ ""
  opened_nonneg : 0 ≤ openedAtMs
  planned_pos : 1 ≤ plannedSettlements
  held_nonneg : 0 ≤ settlementsHeld
  interval_pos : 1 ≤ intervalHours
  interval_le : intervalHours ≤ 24

namespace Position

/-- `Position(...)`. -/
def make (symbol : String) (notionalUsdt : K) (openedAtMs plannedSettlements settlementsHeld
    intervalHours : Int) : Except ValueError (Position K) := do
  number notionalUsdt "notional_usdt"
  raiseIf (symbol = "" ∨ notionalUsdt = 0) "symbol and positive notional required"
  integer openedAtMs "opened_at_ms" 0
  integer plannedSettlements "planned_settlements" 1
  integer settlementsHeld "settlements_held" 0
  integer intervalHours "interval_hours" 1
  if h : 0 < notionalUsdt ∧ symbol ≠ "" ∧ 0 ≤ openedAtMs ∧ 1 ≤ plannedSettlements ∧
      0 ≤ settlementsHeld ∧ 1 ≤ intervalHours ∧ intervalHours ≤ 24 then
    return {
      symbol, notionalUsdt, openedAtMs, plannedSettlements, settlementsHeld, intervalHours,
      notional_pos := h.1, symbol_ne := h.2.1, opened_nonneg := h.2.2.1, planned_pos := h.2.2.2.1,
      held_nonneg := h.2.2.2.2.1, interval_pos := h.2.2.2.2.2.1, interval_le := h.2.2.2.2.2.2 }
  else .error ⟨"invalid funding interval"⟩

/-- `replace(self, settlements_held=self.settlements_held + 1)` passes the checks again. -/
def settled (self : Position K) : Position K :=
  { self with
    settlementsHeld := self.settlementsHeld + 1
    held_nonneg := Int.add_nonneg self.held_nonneg (by decide) }

/-- `replace(self, notional_usdt=notional)`. -/
def withNotional (self : Position K) (notional : K) : Except ValueError (Position K) :=
  make self.symbol notional self.openedAtMs self.plannedSettlements self.settlementsHeld
    self.intervalHours

/-- The settlements still planned. -/
def remaining (self : Position K) : Int := self.plannedSettlements - self.settlementsHeld

theorem make_ok {symbol : String} {notional : K} {opened planned held hours : Int}
    {p : Position K} (h : make symbol notional opened planned held hours = .ok p) :
    p.symbol = symbol ∧ p.notionalUsdt = notional ∧ p.openedAtMs = opened ∧
      p.plannedSettlements = planned ∧ p.settlementsHeld = held ∧ p.intervalHours = hours := by
  unfold make at h
  simp only [bind_ok] at h
  obtain ⟨_, _, _, _, _, _, _, _, _, _, _, _, h⟩ := h
  split at h
  · cases h
    exact ⟨rfl, rfl, rfl, rfl, rfl, rfl⟩
  · cases h

end Position

structure FundingApproval where
  symbol : String
  horizons : List Int
  intervalHours : Int
  validationEndExclusiveMs : Int
  validUntilMs : Int
  evidenceSha256 : String
  approved : Bool
  modelSha256 : String
  symbol_ne : symbol ≠ ""
  horizons_ne : horizons ≠ []
  horizons_pos : ∀ horizon ∈ horizons, 1 ≤ horizon
  horizons_nodup : horizons.Nodup
  interval : 1 ≤ intervalHours ∧ intervalHours ≤ 24
  validation_nonneg : 0 ≤ validationEndExclusiveMs
  validation_lt : validationEndExclusiveMs < validUntilMs
  evidence_digest : isDigest evidenceSha256 = true
  model_digest : isDigest modelSha256 = true

/-- The symbol-less distribution, bound to its symbol and model. -/
structure FundingForecast (K : Type) where
  symbol : String
  prediction : CumulativeFundingForecast K
  modelSha256 : String
  deriving DecidableEq

/-- `FundingForecast(...)`. -/
def FundingForecast.make (symbol : String) (prediction : CumulativeFundingForecast K)
    (modelSha256 : String) : Except ValueError (FundingForecast K) := do
  raiseIf (symbol = "") "funding forecast symbol required"
  raiseIf (isDigest modelSha256 = false) "funding forecast requires model/configuration digest"
  return ⟨symbol, prediction, modelSha256⟩

inductive CostKind where
  | verifiedCalibration
  | synthetic
  deriving DecidableEq

structure CostEstimate (K : Type) where
  symbol : String
  notionalUsdt : K
  horizonSettlements : Int
  quotedAtMs : Int
  validUntilMs : Int
  evidenceEndExclusiveMs : Int
  artifactSha256 : String
  kind : CostKind
  entryFraction : K
  closeNowFraction : K
  terminalCloseFraction : K
  financingFraction : K
  deriving DecidableEq

/-- `CostEstimate.__post_init__`. -/
def CostEstimate.check (self : CostEstimate K) : Except ValueError Unit := do
  number self.notionalUsdt "notional_usdt"
  raiseIf (self.symbol = "" ∨ self.notionalUsdt = 0) "symbol and positive notional required"
  integer self.horizonSettlements "horizon_settlements" 1
  integer self.quotedAtMs "quoted_at_ms" 0
  integer self.validUntilMs "valid_until_ms" (self.quotedAtMs + 1)
  integer self.evidenceEndExclusiveMs "evidence_end_exclusive_ms" 0
  raiseIf (isDigest self.artifactSha256 = false) "cost requires artifact digest"
  number self.entryFraction "entry_fraction"
  number self.closeNowFraction "close_now_fraction"
  number self.terminalCloseFraction "terminal_close_fraction"
  number self.financingFraction "financing_fraction"

inductive Action where
  | wait
  | enter
  | hold
  | exit
  deriving DecidableEq

structure Decision (K : Type) where
  action : Action
  reason : String
  probability : Option K := none
  expectedIncrementalFraction : Option K := none
  deriving DecidableEq

/-- `CarryStrategy`. -/
structure CarryStrategy (K : Type) [Field K] [LinearOrder K] where
  symbol : String
  policy : Policy K
  symbol_ne : symbol ≠ ""

/-! ## The gates of a decision -/

/-- The forecast is no basis for a decision at this time. -/
def Unusable (forecast : CumulativeFundingForecast K) (nowMs remaining : Int) : Prop :=
  forecast.samples.length < 2 ∨
    forecast.asOf < 0 ∨ forecast.lastObservationTime < 0 ∨ forecast.trainingFirstTime < 0 ∨
    forecast.horizonSettlements < 0 ∨ forecast.intervalHours < 0 ∨
    forecast.trainingSettlements < 0 ∨
    forecast.asOf ≠ nowMs ∨ nowMs < forecast.lastObservationTime ∨
    forecast.intervalHours * HOUR_MS + JITTER_MS < nowMs - forecast.lastObservationTime ∨
    forecast.lastObservationTime < forecast.trainingFirstTime ∨
    forecast.horizonSettlements ≠ remaining ∨
    ¬ (1 ≤ forecast.intervalHours ∧ forecast.intervalHours ≤ 24) ∨
    forecast.trainingSettlements < 3

instance (forecast : CumulativeFundingForecast K) (nowMs remaining : Int) :
    Decidable (Unusable forecast nowMs remaining) := by
  unfold Unusable; infer_instance

/-- The approval does not cover this forecast at this time. -/
def FundingApproval.Refuses (self : FundingApproval) (symbol modelDigest : String)
    (intervalHours nowMs remaining : Int) : Prop :=
  self.approved = false ∨ self.symbol ≠ symbol ∨ self.modelSha256 ≠ modelDigest ∨
    remaining ∉ self.horizons ∨ self.intervalHours ≠ intervalHours ∨
    nowMs < self.validationEndExclusiveMs ∨ self.validUntilMs ≤ nowMs

instance (self : FundingApproval) (symbol modelDigest : String)
    (intervalHours nowMs remaining : Int) :
    Decidable (self.Refuses symbol modelDigest intervalHours nowMs remaining) := by
  unfold FundingApproval.Refuses; infer_instance

/-- The costs are not those of this decision. -/
def CostEstimate.Refused (self : CostEstimate K) (strategy : CarryStrategy K)
    (nowMs remaining : Int) (position : Option (Position K)) : Prop :=
  self.symbol ≠ strategy.symbol ∨ self.horizonSettlements ≠ remaining ∨
    nowMs < self.quotedAtMs ∨ self.validUntilMs ≤ nowMs ∨
    nowMs < self.evidenceEndExclusiveMs ∨
    (self.kind = .synthetic ∧ strategy.policy.allowSyntheticCosts = false) ∨
    (position.any fun p => self.notionalUsdt ≠ p.notionalUsdt) = true

instance (self : CostEstimate K) (strategy : CarryStrategy K) (nowMs remaining : Int)
    (position : Option (Position K)) :
    Decidable (self.Refused strategy nowMs remaining position) := by
  unfold CostEstimate.Refused; infer_instance

namespace CarryStrategy

def blocked (position : Option (Position K)) : Action := if position.isNone then .wait else .exit

def goes (position : Option (Position K)) : Action := if position.isNone then .enter else .hold

/-- What the funding must exceed. A position has its entry behind it, and would save the cost of
closing now. -/
def hurdle (costs : CostEstimate K) (position : Option (Position K)) : K :=
  if position.isNone then
    costs.entryFraction + costs.terminalCloseFraction + costs.financingFraction
  else costs.terminalCloseFraction - costs.closeNowFraction + costs.financingFraction

def threshold (self : CarryStrategy K) (position : Option (Position K)) : K :=
  if position.isNone then self.policy.entryProbability else self.policy.continuationProbability

/-- The expected edge and its probability, against the hurdle and the threshold of the policy. -/
def compare (self : CarryStrategy K) (samples : List K) (costs : CostEstimate K)
    (position : Option (Position K)) : Decision K :=
  let hurdle := hurdle costs position
  let probability : K := (samples.countP fun sample => hurdle < sample) / samples.length
  let edge := samples.sum / samples.length - hurdle
  if edge ≤ 0 then ⟨blocked position, "nonpositive_expected_edge", probability, edge⟩
  else if probability ≤ self.threshold position then
    ⟨blocked position, "probability_below_threshold", probability, edge⟩
  else ⟨goes position, "positive_cost_adjusted_edge", probability, edge⟩

/-- `decide` behind the tests of the position itself. -/
def weigh (self : CarryStrategy K) (nowMs remaining : Int) (forecast : Option (FundingForecast K))
    (costs : Option (CostEstimate K)) (approval : Option FundingApproval)
    (position : Option (Position K)) : Decision K :=
  match forecast with
  | none => ⟨blocked position, "funding_unavailable", none, none⟩
  | some forecast =>
    if forecast.symbol ≠ self.symbol then
      ⟨blocked position, "invalid_funding_forecast", none, none⟩
    else if position.any fun p => forecast.prediction.intervalHours ≠ p.intervalHours then
      ⟨.exit, "cadence_changed", none, none⟩
    else if Unusable forecast.prediction nowMs remaining then
      ⟨blocked position, "invalid_funding_forecast", none, none⟩
    else
      match approval with
      | none => ⟨blocked position, "funding_not_admitted", none, none⟩
      | some approval =>
        if approval.Refuses self.symbol forecast.modelSha256 forecast.prediction.intervalHours
            nowMs remaining then
          ⟨blocked position, "funding_not_admitted", none, none⟩
        else
          match costs with
          | none => ⟨blocked position, "costs_unavailable", none, none⟩
          | some costs =>
            if costs.Refused self nowMs remaining position then
              ⟨blocked position, "costs_not_admitted", none, none⟩
            else self.compare forecast.prediction.samples costs position

def decide (self : CarryStrategy K) (nowMs : Int) (forecast : Option (FundingForecast K))
    (costs : Option (CostEstimate K)) (approval : Option FundingApproval)
    (position : Option (Position K)) : Except ValueError (Decision K) := do
  integer nowMs "now_ms" 0
  match position with
  | none => return self.weigh nowMs self.policy.horizonSettlements forecast costs approval none
  | some p =>
    raiseIf (p.symbol ≠ self.symbol ∨ nowMs < p.openedAtMs)
      "position symbol/time disagrees with decision"
    if p.remaining ≤ 0 then return ⟨.exit, "horizon_complete", none, none⟩
    else return self.weigh nowMs p.remaining forecast costs approval (some p)

/-- The reasons that `decide` gives. -/
def reasons : List String := [
  "horizon_complete", "funding_unavailable", "invalid_funding_forecast", "cadence_changed",
  "funding_not_admitted", "costs_unavailable", "costs_not_admitted", "nonpositive_expected_edge",
  "probability_below_threshold", "positive_cost_adjusted_edge"]

/-- What a decision to enter or to hold has passed. -/
structure Admitted (self : CarryStrategy K) (nowMs remaining : Int)
    (forecast : FundingForecast K) (costs : CostEstimate K) (approval : FundingApproval)
    (position : Option (Position K)) : Prop where
  symbol : forecast.symbol = self.symbol
  usable : ¬ Unusable forecast.prediction nowMs remaining
  approved : ¬ approval.Refuses self.symbol forecast.modelSha256
    forecast.prediction.intervalHours nowMs remaining
  costed : ¬ costs.Refused self nowMs remaining position

variable {self : CarryStrategy K} {nowMs remaining : Int} {forecast : Option (FundingForecast K)}
  {costs : Option (CostEstimate K)} {approval : Option FundingApproval}
  {position : Option (Position K)} {decision : Decision K}

theorem compare_action (self : CarryStrategy K) (samples : List K) (costs : CostEstimate K)
    (position : Option (Position K)) :
    (self.compare samples costs position).action = blocked position ∨
      (self.compare samples costs position).action = goes position := by
  unfold compare
  dsimp only
  split
  · exact .inl rfl
  · split
    · exact .inl rfl
    · exact .inr rfl

theorem compare_reason (self : CarryStrategy K) (samples : List K) (costs : CostEstimate K)
    (position : Option (Position K)) : (self.compare samples costs position).reason ∈ reasons := by
  unfold compare
  dsimp only
  split
  · simp [reasons]
  · split
    · simp [reasons]
    · simp [reasons]

theorem weigh_reason (self : CarryStrategy K) (nowMs remaining : Int)
    (forecast : Option (FundingForecast K)) (costs : Option (CostEstimate K))
    (approval : Option FundingApproval) (position : Option (Position K)) :
    (self.weigh nowMs remaining forecast costs approval position).reason ∈ reasons := by
  unfold weigh
  split
  · simp [reasons]
  · split
    · simp [reasons]
    · split
      · simp [reasons]
      · split
        · simp [reasons]
        · split
          · simp [reasons]
          · split
            · simp [reasons]
            · split
              · simp [reasons]
              · split
                · simp [reasons]
                · exact self.compare_reason _ _ position

theorem decide_reason (h : self.decide nowMs forecast costs approval position = .ok decision) :
    decision.reason ∈ reasons := by
  unfold decide at h
  obtain ⟨_, _, h⟩ := bind_ok.mp h
  split at h
  · cases h
    exact self.weigh_reason _ _ _ _ _ _
  · obtain ⟨_, _, h⟩ := bind_ok.mp h
    split at h
    · cases h
      simp [reasons]
    · cases h
      exact self.weigh_reason _ _ _ _ _ _

/-- A decision of `weigh` stops, or goes on with every gate passed. -/
theorem weigh_action (self : CarryStrategy K) (nowMs remaining : Int)
    (forecast : Option (FundingForecast K)) (costs : Option (CostEstimate K))
    (approval : Option FundingApproval) (position : Option (Position K)) :
    (self.weigh nowMs remaining forecast costs approval position).action = blocked position ∨
      (self.weigh nowMs remaining forecast costs approval position).action = goes position ∧
        ∃ f c a, forecast = some f ∧ costs = some c ∧ approval = some a ∧
          self.Admitted nowMs remaining f c a position := by
  unfold weigh
  split
  · exact .inl rfl
  · rename_i f
    split
    · exact .inl rfl
    · rename_i hsymbol
      split
      · rename_i hcadence
        left
        cases position with
        | none => cases hcadence
        | some p => rfl
      · split
        · exact .inl rfl
        · rename_i husable
          split
          · exact .inl rfl
          · rename_i a
            split
            · exact .inl rfl
            · rename_i hrefuses
              split
              · exact .inl rfl
              · rename_i c
                split
                · exact .inl rfl
                · rename_i hrefused
                  rcases self.compare_action f.prediction.samples c position with h | h
                  · exact .inl h
                  · exact .inr ⟨h, f, c, a, rfl, rfl, rfl, not_not.mp hsymbol, husable,
                      hrefuses, hrefused⟩

/-- A decision goes on when the edge is positive and likely enough. -/
theorem compare_goes (self : CarryStrategy K) (samples : List K) (costs : CostEstimate K)
    (position : Option (Position K)) :
    (self.compare samples costs position).action = goes position ↔
      0 < samples.sum / samples.length - hurdle costs position ∧
        self.threshold position < ((samples.countP fun sample => hurdle costs position < sample
          : Nat) : K) / samples.length := by
  have hne : blocked position ≠ goes position := by
    cases position with
    | none => exact nofun
    | some p => exact nofun
  unfold compare
  dsimp only
  split
  · rename_i hedge
    exact ⟨fun h => absurd h hne, fun h => absurd h.1 (not_lt.mpr hedge)⟩
  · rename_i hedge
    split
    · rename_i hprobability
      exact ⟨fun h => absurd h hne, fun h => absurd h.2 (not_lt.mpr hprobability)⟩
    · rename_i hprobability
      exact ⟨fun _ => ⟨not_le.mp hedge, not_le.mp hprobability⟩, fun _ => rfl⟩

theorem compare_enter (self : CarryStrategy K) (samples : List K) (costs : CostEstimate K) :
    (self.compare samples costs none).action = .enter ↔
      0 < samples.sum / samples.length - hurdle costs none ∧
        self.policy.entryProbability <
          ((samples.countP fun sample => hurdle costs none < sample : Nat) : K) / samples.length :=
  self.compare_goes samples costs none

theorem countP_above {α : Type} [LinearOrder α] (samples : List α) {low high : α}
    (h : low ≤ high) :
    (samples.countP fun sample => high < sample) ≤ samples.countP fun sample => low < sample := by
  refine List.countP_mono_left fun sample _ hsample => ?_
  rw [decide_eq_true_eq] at hsample ⊢
  exact h.trans_lt hsample

theorem compare_edge (self : CarryStrategy K) (samples : List K) (costs : CostEstimate K)
    (position : Option (Position K)) :
    (self.compare samples costs position).expectedIncrementalFraction =
      some (samples.sum / samples.length - hurdle costs position) := by
  unfold compare
  dsimp only
  split
  · rfl
  · split <;> rfl

/-- With every gate passed, and at the cadence of the position, a decision is the comparison. -/
theorem weigh_compared {f : FundingForecast K} {c : CostEstimate K} {a : FundingApproval}
    (h : self.Admitted nowMs remaining f c a position)
    (hcadence : ¬ (position.any fun p => f.prediction.intervalHours ≠ p.intervalHours) = true) :
    self.weigh nowMs remaining (some f) (some c) (some a) position =
      self.compare f.prediction.samples c position := by
  obtain ⟨hsymbol, husable, happroved, hcosted⟩ := h
  unfold weigh
  dsimp only
  rw [if_neg (not_not.mpr hsymbol), if_neg hcadence, if_neg husable, if_neg happroved,
    if_neg hcosted]

theorem weigh_admitted {f : FundingForecast K} {c : CostEstimate K} {a : FundingApproval}
    (h : self.Admitted nowMs remaining f c a none) :
    self.weigh nowMs remaining (some f) (some c) (some a) none =
      self.compare f.prediction.samples c none :=
  weigh_compared h nofun

/-- A flat book waits, or enters with every gate passed. -/
theorem decide_flat (h : self.decide nowMs forecast costs approval none = .ok decision) :
    decision.action = .wait ∨ decision.action = .enter ∧
      ∃ f c a, forecast = some f ∧ costs = some c ∧ approval = some a ∧
        self.Admitted nowMs self.policy.horizonSettlements f c a none := by
  unfold decide at h
  simp only [bind_ok, pure_ok] at h
  obtain ⟨_, _, rfl⟩ := h
  exact self.weigh_action nowMs self.policy.horizonSettlements forecast costs approval none

/-- A position is exited, or held with settlements still planned. -/
theorem decide_open {p : Position K}
    (h : self.decide nowMs forecast costs approval (some p) = .ok decision) :
    decision.action = .exit ∨ decision.action = .hold ∧ 0 < p.remaining := by
  unfold decide at h
  simp only [bind_ok] at h
  obtain ⟨_, _, _, _, h⟩ := h
  split at h
  · cases h
    exact .inl rfl
  · rename_i hremaining
    cases h
    rcases self.weigh_action nowMs p.remaining forecast costs approval (some p) with h | ⟨h, _⟩
    · exact .inl h
    · exact .inr ⟨h, not_le.mp hremaining⟩

end CarryStrategy

end Strategy
end PerpCarry
