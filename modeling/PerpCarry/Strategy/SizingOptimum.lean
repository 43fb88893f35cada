import PerpCarry.Lib.RootCost
import PerpCarry.Strategy.SizingGate

/-!
# Strategy.SizingOptimum

The lot count of `size_position` against all others.

* `allowed_iff`: the lot counts within all the limits are an interval.
* `chosen_best`: the profit rises up to the target of the search and falls after it, so that one of
  its two neighbours is best.
* `size_optimal`: what is returned is the smallest of the most profitable lot counts that are within
  the limits and enter; when nothing is returned there is no such lot count.
-/

namespace PerpCarry
namespace Strategy

open Lib

variable {strategy : CarryStrategy ℝ} {request : SizingRequest ℝ} {lots : Int}

/-! ## The lot counts to choose from -/

/-- Every limit of a size. -/
structure Allowed (request : SizingRequest ℝ) (lots : Int) : Prop where
  min_support : request.curve.sizeMin ≤ request.market.quantityStep * lots / request.market.advBase
  max_support : request.market.quantityStep * lots / request.market.advBase ≤ request.curve.sizeMax
  min_quantity : request.market.minQuantity ≤ request.market.quantityStep * lots
  min_notional : request.market.minNotionalUsdt ≤
    request.market.quantityStep * lots * request.market.priceUsdt
  depth : request.market.quantityStep * lots ≤ request.market.validatedQuantityBase
  max_adv : request.market.quantityStep * lots / request.market.advBase ≤
    request.market.maxAdvFraction
  max_notional : request.market.quantityStep * lots * request.market.priceUsdt ≤
    request.market.maxNotionalUsdt

/-- A size that may be taken: within the limits, and one that the gate lets in. -/
structure Feasible (strategy : CarryStrategy ℝ) (request : SizingRequest ℝ) (lots : Int) :
    Prop where
  allowed : Allowed request lots
  enters : Enters strategy request lots

theorem lower_le_iff : request.lower ≤ request.market.quantityStep * lots ↔
    request.curve.sizeMin ≤ request.market.quantityStep * lots / request.market.advBase ∧
      request.market.minQuantity ≤ request.market.quantityStep * lots ∧
      request.market.minNotionalUsdt ≤
        request.market.quantityStep * lots * request.market.priceUsdt := by
  unfold SizingRequest.lower
  rw [max_le_iff, max_le_iff, div_le_iff₀ request.market.price_pos, and_assoc,
    le_div_iff₀ request.market.adv_pos]

theorem le_upper_iff : request.market.quantityStep * lots ≤ request.upper ↔
    request.market.quantityStep * lots / request.market.advBase ≤ request.curve.sizeMax ∧
      request.market.quantityStep * lots ≤ request.market.validatedQuantityBase ∧
      request.market.quantityStep * lots / request.market.advBase ≤
        request.market.maxAdvFraction ∧
      request.market.quantityStep * lots * request.market.priceUsdt ≤
        request.market.maxNotionalUsdt := by
  unfold SizingRequest.upper
  rw [le_min_iff, le_min_iff, le_min_iff, le_div_iff₀ request.market.price_pos, and_assoc, and_assoc,
    div_le_iff₀ request.market.adv_pos, div_le_iff₀ request.market.adv_pos]

theorem le_last_iff : lots ≤ request.last ↔ request.market.quantityStep * lots ≤ request.upper := by
  unfold SizingRequest.last
  rw [Int.le_floor, le_div_iff₀' request.market.step_pos]

/-- The support of the curve begins above zero, so that a size within it has a lot. -/
theorem first_le_iff : request.first ≤ lots ↔
    request.lower ≤ request.market.quantityStep * lots := by
  constructor
  · exact lower_le
  · intro h
    have hlower : 0 < request.lower := by
      have := mul_pos request.curve.size_pos request.market.adv_pos
      exact this.trans_le ((le_max_left _ _).trans (le_max_left _ _))
    have hlots : (0 : ℝ) < lots :=
      pos_of_mul_pos_right (hlower.trans_le h) request.market.step_pos.le
    refine max_le (by exact_mod_cast hlots) ?_
    rw [Int.ceil_le, div_le_iff₀' request.market.step_pos]
    exact h

theorem allowed_iff : Allowed request lots ↔ request.first ≤ lots ∧ lots ≤ request.last := by
  rw [first_le_iff, le_last_iff, lower_le_iff, le_upper_iff]
  constructor
  · intro ⟨hmin, hmax, hquantity, hnotional, hdepth, hadv, hlimit⟩
    exact ⟨⟨hmin, hquantity, hnotional⟩, hmax, hdepth, hadv, hlimit⟩
  · intro ⟨⟨hmin, hquantity, hnotional⟩, hmax, hdepth, hadv, hlimit⟩
    exact ⟨hmin, hmax, hquantity, hnotional, hdepth, hadv, hlimit⟩

theorem GateEnd.feasible_iff {feasibleLast : Int} (hend : GateEnd strategy request feasibleLast) :
    Feasible strategy request lots ↔ request.first ≤ lots ∧ lots ≤ feasibleLast := by
  constructor
  · intro ⟨hallowed, henters⟩
    obtain ⟨hfirst, hlast⟩ := allowed_iff.mp hallowed
    exact ⟨hfirst, (hend.enters lots hfirst hlast).mp henters⟩
  · intro ⟨hfirst, hle⟩
    have hlast := hle.trans hend.le_last
    exact ⟨allowed_iff.mpr ⟨hfirst, hlast⟩, (hend.enters lots hfirst hlast).mpr hle⟩

/-! ## The profit -/

namespace SizingRequest

/-- The notional times the mean funding after all costs. -/
noncomputable def objective (request : SizingRequest ℝ) (f : FundingForecast ℝ) (lots : Int) : ℝ :=
  request.market.priceUsdt * request.market.quantityStep * lots *
    (f.prediction.samples.sum / f.prediction.samples.length - request.charges.fixedFraction -
      request.curve.roundTripCoefficient *
        √(request.market.quantityStep * lots / request.market.advBase))

theorem objective_zero (request : SizingRequest ℝ) (f : FundingForecast ℝ) :
    request.objective f 0 = 0 := by
  unfold objective
  rw [Int.cast_zero, mul_zero, zero_mul]

theorem profitOf_eq_objective (request : SizingRequest ℝ) (f : FundingForecast ℝ) (lots : Int) :
    request.profitOf f lots = request.objective f lots := by
  unfold profitOf objective notionalOf hurdleOf fractionOf
  ring

theorem profitOf_eq_rootProfit (request : SizingRequest ℝ) (f : FundingForecast ℝ) (lots : Int) :
    request.profitOf f lots = request.market.advBase * request.market.priceUsdt *
      rootProfit (request.edgeOf f) request.curve.roundTripCoefficient (request.fractionOf lots) := by
  have hadv := request.market.adv_pos.ne'
  unfold profitOf rootProfit notionalOf hurdleOf edgeOf fractionOf
  field_simp
  ring

theorem fractionOf_strict (request : SizingRequest ℝ) {lots lots' : Int} (h : lots < lots') :
    request.fractionOf lots < request.fractionOf lots' := by
  have hcast : (lots : ℝ) < lots' := by exact_mod_cast h
  exact div_lt_div_of_pos_right (mul_lt_mul_of_pos_left hcast request.market.step_pos)
    request.market.adv_pos

end SizingRequest

theorem fractionOf_nonneg (h : request.first ≤ lots) : 0 ≤ request.fractionOf lots := by
  have hlots : (0 : ℝ) ≤ lots := by exact_mod_cast (zero_le_one.trans (one_le_lots h))
  exact div_nonneg (mul_nonneg request.market.step_pos.le hlots) request.market.adv_pos.le

theorem edgeOf_gt (h : Sizable strategy request) (hfirst : request.first ≤ lots)
    (hlast : lots ≤ request.last) {f : FundingForecast ℝ} (hcleared : Cleared strategy request f)
    (henters : Enters strategy request lots) :
    request.curve.roundTripCoefficient * √(request.fractionOf lots) < request.edgeOf f := by
  obtain ⟨f', hcleared', hedge, _⟩ := (enters_iff h hfirst hlast).mp henters
  obtain rfl : f = f' := Option.some.inj (hcleared.1.symm.trans hcleared'.1)
  unfold SizingRequest.hurdleOf at hedge
  unfold SizingRequest.edgeOf
  linarith

section Target

variable {f : FundingForecast ℝ} {feasibleLast : Int}

/-- Up to the target the profit still rises. -/
theorem target_rises (hedge : 0 < request.edgeOf f) (hle : lots ≤ feasibleLast)
    (htarget : lots ≤ request.targetOf f feasibleLast) :
    3 / 2 * request.curve.roundTripCoefficient * √(request.fractionOf lots) ≤ request.edgeOf f := by
  have hcoefficient := coefficient_nonneg request.curve
  unfold SizingRequest.targetOf target at htarget
  split at htarget
  · rename_i hcase
    rcases hcase with hzero | htop
    · rw [hzero, mul_zero, zero_mul]
      exact hedge.le
    · have hroot := Real.sqrt_le_sqrt (fractionOf_mono request hle)
      exact (mul_le_mul_of_nonneg_left hroot (by positivity)).trans htop
  · rename_i hcase
    have hpos := hcoefficient.lt_of_ne' (not_or.mp hcase).1
    rw [← root_le_peak hedge.le hpos]
    rw [Int.le_floor, le_div_iff₀' request.market.step_pos] at htarget
    exact (div_le_iff₀ request.market.adv_pos).mpr htarget

theorem target_falls (hedge : 0 < request.edgeOf f) (hle : lots ≤ feasibleLast)
    (htarget : request.targetOf f feasibleLast < lots) :
    0 < request.curve.roundTripCoefficient ∧
      request.edgeOf f ≤
        3 / 2 * request.curve.roundTripCoefficient * √(request.fractionOf lots) := by
  unfold SizingRequest.targetOf target at htarget
  split at htarget
  · exact absurd htarget (not_lt.mpr hle)
  · rename_i hcase
    have hpos := (coefficient_nonneg request.curve).lt_of_ne' (not_or.mp hcase).1
    refine ⟨hpos, le_of_not_ge fun hrises => ?_⟩
    rw [← root_le_peak hedge.le hpos] at hrises
    refine absurd htarget (not_lt.mpr ?_)
    rw [Int.le_floor, le_div_iff₀' request.market.step_pos]
    exact (div_le_iff₀ request.market.adv_pos).mp hrises

theorem chosen_best (hedge : 0 < request.edgeOf f) (hle : request.first ≤ feasibleLast) :
    ∀ lots, request.first ≤ lots → lots ≤ feasibleLast →
      request.profitOf f lots ≤ request.profitOf f (request.chosen f feasibleLast) ∧
        (request.profitOf f lots = request.profitOf f (request.chosen f feasibleLast) →
          request.chosen f feasibleLast ≤ lots) := by
  have hscale : 0 < request.market.advBase * request.market.priceUsdt :=
    mul_pos request.market.adv_pos request.market.price_pos
  refine (peak_best (g := request.profitOf f) hle ?_ ?_).2
  · intro i j hi hij hj htarget
    rw [request.profitOf_eq_rootProfit, request.profitOf_eq_rootProfit]
    exact mul_lt_mul_of_pos_left (rootProfit_rises hedge (coefficient_nonneg request.curve)
      (fractionOf_nonneg hi) (request.fractionOf_strict hij)
      (target_rises hedge hj htarget)) hscale
  · intro i j hi hij hj htarget
    obtain ⟨hpos, hfalls⟩ := target_falls hedge (hij.le.trans hj) htarget
    rw [request.profitOf_eq_rootProfit, request.profitOf_eq_rootProfit]
    exact mul_lt_mul_of_pos_left (rootProfit_falls hpos (fractionOf_nonneg hi)
      (request.fractionOf_strict hij) hfalls) hscale

end Target

/-! ## The optimum -/

theorem Settled.edge_pos {f : FundingForecast ℝ} {feasibleLast : Int} {q : Quote ℝ}
    (h : Sizable strategy request) (hsettled : Settled strategy request f feasibleLast q) :
    request.curve.roundTripCoefficient * √(request.fractionOf feasibleLast) < request.edgeOf f :=
  edgeOf_gt h hsettled.gate.first_le hsettled.gate.le_last hsettled.cleared
    ((hsettled.gate.enters _ hsettled.gate.first_le hsettled.gate.le_last).mpr le_rfl)

/-- A result either waits with no feasible size, or is what the search settled on. -/
theorem sizePosition_cases (h : Sizable strategy request) {result : SizingResult ℝ}
    (hresult : sizePosition Real.sqrt strategy request = .ok result) :
    (result.decision.action = .wait ∧ result.quantityBase = 0 ∧
        ∀ lots, ¬ Feasible strategy request lots) ∨
      ∃ f feasibleLast q, Settled strategy request f feasibleLast q ∧
        result = sized Real.sqrt request (request.edgeOf f) request.curve.roundTripCoefficient
          (request.fractionOf feasibleLast)
          (request.profitOf f (request.chosen f feasibleLast)) feasibleLast q := by
  rcases lt_or_ge request.last request.first with hlt | hle
  · rw [sizePosition_tooSmall h hlt] at hresult
    cases hresult
    refine .inl ⟨rfl, rfl, fun lots hfeasible => ?_⟩
    obtain ⟨hfirst, hlast⟩ := allowed_iff.mp hfeasible.allowed
    exact absurd (hfirst.trans hlast) (not_le.mpr hlt)
  · by_cases henter : Enters strategy request request.first
    · obtain ⟨f, feasibleLast, q, hsettled, heq⟩ := sizePosition_entered h hle henter
      rw [heq] at hresult
      cases hresult
      exact .inr ⟨f, feasibleLast, q, hsettled, rfl⟩
    · obtain ⟨decision, hwait, heq⟩ := sizePosition_refused h hle henter
      rw [heq] at hresult
      cases hresult
      refine .inl ⟨hwait, rfl, fun lots hfeasible => ?_⟩
      obtain ⟨hfirst, hlast⟩ := allowed_iff.mp hfeasible.allowed
      exact henter (enters_below h le_rfl hfirst hlast hfeasible.enters)

theorem size_optimal (h : Sizable strategy request) {result : SizingResult ℝ}
    (hresult : sizePosition Real.sqrt strategy request = .ok result) :
    (result.decision.action = .enter →
      ∃ f lots, request.forecast = some f ∧ Feasible strategy request lots ∧
        result.quantityBase = request.market.quantityStep * lots ∧
        result.expectedNetUsdt = request.objective f lots ∧
        request.objective f 0 < request.objective f lots ∧
        ∀ other, Feasible strategy request other →
          request.objective f other ≤ request.objective f lots ∧
            (request.objective f other = request.objective f lots → lots ≤ other)) ∧
    (result.decision.action = .wait → ∀ f other, request.forecast = some f →
      Feasible strategy request other → request.objective f other ≤ 0) := by
  rcases sizePosition_cases h hresult with ⟨hwait, _, hnone⟩ | ⟨f, feasibleLast, q, hsettled, rfl⟩
  · refine ⟨fun henter => ?_, fun _ _ other _ hfeasible => absurd hfeasible (hnone other)⟩
    rw [hwait] at henter
    cases henter
  · constructor
    · intro _
      have hedge : 0 < request.edgeOf f :=
        (mul_nonneg (coefficient_nonneg request.curve) (Real.sqrt_nonneg _)).trans_lt
          (hsettled.edge_pos h)
      have hbest := chosen_best hedge hsettled.gate.first_le
      have hpositive := hsettled.profitable
      simp only [request.profitOf_eq_objective f] at hbest hpositive
      refine ⟨f, request.chosen f feasibleLast, hsettled.cleared.1,
        hsettled.gate.feasible_iff.mpr ⟨hsettled.first_le, hsettled.le_feasible⟩,
        (quote_ok hsettled.quoted).1, request.profitOf_eq_objective f _, ?_, ?_⟩
      · rw [request.objective_zero f]
        exact hpositive
      · intro other hfeasible
        obtain ⟨hfirst, hle⟩ := hsettled.gate.feasible_iff.mp hfeasible
        exact hbest other hfirst hle
    · intro hwait
      have henter : q.decision.action = .wait := hwait
      rw [hsettled.entered] at henter
      cases henter

theorem size_optimal_twoLots :
    ∃ (result : SizingResult ℝ) (lots : Int),
      sizePosition Real.sqrt lotStrategy lotRequest = .ok result ∧
      result.quantityBase = lotRequest.market.quantityStep * lots ∧
      ∀ other, Feasible lotStrategy lotRequest other →
        lotRequest.objective lotForecast other ≤ lotRequest.objective lotForecast lots := by
  obtain ⟨f, feasibleLast, q, hsettled, hresult⟩ := sizePosition_entered lotRequest_sizable
    (by rw [lotRequest_first, lotRequest_last]; norm_num) lotRequest_enters
  obtain ⟨f', lots, hf, _, hquantity, _, _, hbest⟩ :=
    (size_optimal lotRequest_sizable hresult).1 hsettled.entered
  obtain rfl : lotForecast = f' := Option.some.inj hf
  exact ⟨_, lots, hresult, hquantity, fun other hfeasible => (hbest other hfeasible).1⟩

end Strategy
end PerpCarry
