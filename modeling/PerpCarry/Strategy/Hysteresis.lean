import Mathlib.Tactic.Linarith
import PerpCarry.Strategy.Hedged

/-!
# Strategy.Hysteresis

No entry is reversed at once.

* `hurdle_open`: a position has a hurdle no higher than its entry had.
* `compare_hold`: what was enough to enter is enough to hold.
* `enter_held`: a decision to enter, asked again about the position it opened, is one to hold.
-/

namespace PerpCarry
namespace Strategy
namespace CarryStrategy

variable {K : Type} [Field K] [LinearOrder K]

/-- A position as a decision to enter opens it. -/
structure JustOpened (strategy : CarryStrategy K) (nowMs : Int) (forecast : FundingForecast K)
    (costs : CostEstimate K) (p : Position K) : Prop where
  symbol : p.symbol = strategy.symbol
  notional : p.notionalUsdt = costs.notionalUsdt
  opened : p.openedAtMs ≤ nowMs
  planned : p.plannedSettlements = strategy.policy.horizonSettlements
  held : p.settlementsHeld = 0
  interval : p.intervalHours = forecast.prediction.intervalHours

variable {self : CarryStrategy K} {nowMs : Int} {forecast : FundingForecast K}
  {costs : CostEstimate K} {approval : FundingApproval} {p : Position K}

theorem check_nonneg (h : costs.check = .ok ()) :
    0 ≤ costs.entryFraction ∧ 0 ≤ costs.closeNowFraction ∧ 0 ≤ costs.terminalCloseFraction ∧
      0 ≤ costs.financingFraction := by
  unfold CostEstimate.check at h
  simp only [bind_ok, number_ok] at h
  obtain ⟨_, _, _, _, _, _, _, _, _, _, _, _, _, _, _, hentry, _, hclose, _, hterminal, h⟩ := h
  exact ⟨hentry, hclose, hterminal, h⟩

theorem JustOpened.remaining (h : JustOpened self nowMs forecast costs p) :
    p.remaining = self.policy.horizonSettlements := by
  rw [Position.remaining, h.planned, h.held, sub_zero]

/-- The position passes the gates that its entry passed. -/
theorem JustOpened.admitted (h : JustOpened self nowMs forecast costs p)
    (hadmitted : self.Admitted nowMs self.policy.horizonSettlements forecast costs approval none) :
    self.Admitted nowMs p.remaining forecast costs approval (some p) := by
  obtain ⟨hsymbol, husable, happroved, hcosted⟩ := hadmitted
  rw [h.remaining]
  refine ⟨hsymbol, husable, happroved, ?_⟩
  unfold CostEstimate.Refused at hcosted ⊢
  simpa [h.notional] using hcosted

/-- With a position, a decision with every gate passed is the comparison. -/
theorem decide_position (h : JustOpened self nowMs forecast costs p) (hnow : 0 ≤ nowMs)
    (hadmitted : self.Admitted nowMs self.policy.horizonSettlements forecast costs approval none) :
    self.decide nowMs (some forecast) (some costs) (some approval) (some p) =
      .ok (self.compare forecast.prediction.samples costs (some p)) := by
  have hhorizon := self.policy.horizon_pos
  unfold decide
  simp only [bind_ok, integer_ok, raiseIf_ok, not_or, not_not, not_lt]
  refine ⟨(), hnow, (), ⟨h.symbol, h.opened⟩, ?_⟩
  have hcadence : ¬ ((some p).any fun p => forecast.prediction.intervalHours ≠ p.intervalHours) =
      true := by
    simp [h.interval]
  rw [if_neg (by rw [h.remaining]; omega), weigh_compared (h.admitted hadmitted) hcadence]
  rfl

variable [IsStrictOrderedRing K]

/-- The entry is paid, and closing now is saved. -/
theorem hurdle_open (h : costs.check = .ok ()) (p : Position K) :
    hurdle costs (some p) ≤ hurdle costs none := by
  obtain ⟨hentry, hclose, _, _⟩ := check_nonneg h
  simp only [hurdle, Option.isNone_some, Option.isNone_none, if_true, Bool.false_eq_true, if_false]
  linarith

theorem compare_hold (samples : List K) (hcheck : costs.check = .ok ()) (p : Position K)
    (h : (self.compare samples costs none).action = .enter) :
    (self.compare samples costs (some p)).action = .hold := by
  obtain ⟨hedge, hprobability⟩ := (compare_enter self samples costs).mp h
  have hhurdle := hurdle_open hcheck p
  have hcount : ((samples.countP fun sample => hurdle costs none < sample : Nat) : K) ≤
      (samples.countP fun sample => hurdle costs (some p) < sample : Nat) := by
    exact_mod_cast countP_above samples hhurdle
  refine (compare_goes self samples costs (some p)).mpr ⟨by linarith, ?_⟩
  calc self.threshold (some p) < self.policy.entryProbability :=
        self.policy.continuation_lt_entry
    _ < ((samples.countP fun sample => hurdle costs none < sample : Nat) : K) / samples.length :=
        hprobability
    _ ≤ ((samples.countP fun sample => hurdle costs (some p) < sample : Nat) : K) /
          samples.length := div_le_div_of_nonneg_right hcount (Nat.cast_nonneg _)

/-- Asked again at the same time, with the same forecast, costs and approval, about any position
that was just opened, the strategy holds. The edge it then expects is no smaller. -/
theorem enter_held {forecast : Option (FundingForecast K)} {costs : Option (CostEstimate K)}
    {approval : Option FundingApproval} {entry : Decision K}
    (hcosts : ∀ c, costs = some c → c.check = .ok ())
    (h : self.decide nowMs forecast costs approval none = .ok entry)
    (henter : entry.action = .enter) :
    ∃ f c, forecast = some f ∧ costs = some c ∧ ∀ p, JustOpened self nowMs f c p →
      ∃ held edge heldEdge,
        self.decide nowMs forecast costs approval (some p) = .ok held ∧ held.action = .hold ∧
          entry.expectedIncrementalFraction = some edge ∧
          held.expectedIncrementalFraction = some heldEdge ∧ edge ≤ heldEdge := by
  have hnow : 0 ≤ nowMs := by
    unfold decide at h
    obtain ⟨_, hnow, _⟩ := bind_ok.mp h
    exact integer_ok.mp hnow
  rcases decide_flat h with hwait | ⟨_, f, c, a, rfl, rfl, rfl, hadmitted⟩
  · rw [hwait] at henter
    cases henter
  · have hentry : entry = self.compare f.prediction.samples c none := by
      unfold decide at h
      simp only [bind_ok, pure_ok] at h
      obtain ⟨_, _, rfl⟩ := h
      exact weigh_admitted hadmitted
    have hcheck := hcosts c rfl
    rw [hentry] at henter
    refine ⟨f, c, rfl, rfl, fun p hp => ?_⟩
    have hedge := compare_edge self f.prediction.samples c none
    have hheld := compare_edge self f.prediction.samples c (some p)
    rw [← hentry] at hedge
    exact ⟨_, _, _, decide_position hp hnow hadmitted, compare_hold _ hcheck p henter, hedge,
      hheld, sub_le_sub_left (hurdle_open hcheck p) _⟩

end CarryStrategy

/-! ## A position -/

def studyStrategy : CarryStrategy ℚ := ⟨"BTCUSDT", studyConfig.policy, btcusdt_ne⟩

def studyForecast : FundingForecast ℚ :=
  ⟨"BTCUSDT", ⟨[1 / 100, 1 / 50], 1, 8, 2678416000, 2678400000, 2592000000, 4, 0⟩, studyDigest⟩

/-- Costs of a fifth of the mean funding. -/
def studyCosts : CostEstimate ℚ :=
  ⟨"BTCUSDT", 100, 1, 2678416000, 5097600000, 2678400000, studyDigest, .verifiedCalibration,
    1 / 1000, 1 / 500, 1 / 500, 0⟩

def studyPosition : Position ℚ where
  symbol := "BTCUSDT"
  notionalUsdt := 100
  openedAtMs := 2678416000
  plannedSettlements := 1
  settlementsHeld := 0
  intervalHours := 8
  notional_pos := by norm_num
  symbol_ne := btcusdt_ne
  opened_nonneg := by norm_num
  planned_pos := le_refl 1
  held_nonneg := le_refl 0
  interval_pos := by norm_num
  interval_le := by norm_num

theorem enter_held_study :
    ∃ entry held edge heldEdge,
      studyStrategy.decide 2678416000 (some studyForecast) (some studyCosts) (some studyApproval)
          none = .ok entry ∧ entry.action = .enter ∧
        studyStrategy.decide 2678416000 (some studyForecast) (some studyCosts)
          (some studyApproval) (some studyPosition) = .ok held ∧ held.action = .hold ∧
        entry.expectedIncrementalFraction = some edge ∧
        held.expectedIncrementalFraction = some heldEdge ∧ edge ≤ heldEdge := by
  have hcheck : studyCosts.check = .ok () := by decide +kernel
  have hentry : studyStrategy.decide 2678416000 (some studyForecast) (some studyCosts)
      (some studyApproval) none =
        .ok ⟨.enter, "positive_cost_adjusted_edge", some 1, some (3 / 250)⟩ := by
    decide +kernel
  obtain ⟨f, c, hf, hc, hall⟩ := CarryStrategy.enter_held (fun c hc => by cases hc; exact hcheck)
    hentry rfl
  cases hf
  cases hc
  obtain ⟨held, edge, heldEdge, hdecide, haction, hedge, hheld, hle⟩ :=
    hall studyPosition ⟨rfl, rfl, le_refl _, rfl, rfl, rfl⟩
  exact ⟨_, held, edge, heldEdge, hentry, rfl, hdecide, haction, hedge, hheld, hle⟩

end Strategy
end PerpCarry
