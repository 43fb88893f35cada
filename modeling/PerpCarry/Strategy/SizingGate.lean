import Mathlib.Algebra.Order.Archimedean.Real.Basic
import Mathlib.Analysis.Real.Sqrt
import PerpCarry.Lib.IntegerSearch
import PerpCarry.Strategy.Sizing

/-!
# Strategy.SizingGate

The entry gate over the lot counts that `size_position` quotes, over exact reals.

* `quote_defined`: every lot count within the limits has a quote.
* `enters_iff`: it enters when what does not depend on the size is in order and the funding clears
  the hurdle of its size.
* `enters_below`: the hurdle grows with the size, so the lot counts that enter are a prefix.
* `Bisects.total`: the loop of the search ends, whatever its bounds.
* `sizePosition_entered`: what `size_position` returns once its smallest size enters.
* `gate_interval`: the bisection ends at the end of that prefix, and nothing it quotes raises.
-/

namespace PerpCarry
namespace Strategy

open Lib
open Models (DAY_MS)

/-- Inputs that pass the first test of `size_position`, with charges that were checked. -/
structure Sizable (strategy : CarryStrategy ℝ) (request : SizingRequest ℝ) : Prop where
  now_nonneg : 0 ≤ request.nowMs
  admissible : ¬ request.Inadmissible strategy.symbol
  charges : request.charges.check = .ok ()

namespace SizingRequest

variable (request : SizingRequest ℝ) (lots : Int)

/-- The share of the daily volume. -/
noncomputable def fractionOf : ℝ := request.market.quantityStep * lots / request.market.advBase

noncomputable def notionalOf : ℝ := request.market.quantityStep * lots * request.market.priceUsdt

/-- What the funding must exceed at a size. -/
noncomputable def hurdleOf : ℝ :=
  request.charges.fixedFraction + request.curve.roundTripCoefficient * √(request.fractionOf lots)

end SizingRequest

variable {strategy : CarryStrategy ℝ} {request : SizingRequest ℝ} {lots lots' : Int}

/-! ## The limits -/

theorem fractionOf_mono (request : SizingRequest ℝ) (h : lots ≤ lots') :
    request.fractionOf lots ≤ request.fractionOf lots' := by
  have hstep := request.market.step_pos
  have hadv := request.market.adv_pos
  have hcast : (lots : ℝ) ≤ lots' := by exact_mod_cast h
  exact div_le_div_of_nonneg_right (mul_le_mul_of_nonneg_left hcast hstep.le) hadv.le

theorem coefficient_nonneg (curve : ImpactCurve ℝ) : 0 ≤ curve.roundTripCoefficient := by
  have := curve.sell_nonneg
  have := curve.buy_nonneg
  unfold ImpactCurve.roundTripCoefficient
  positivity

theorem hurdleOf_mono (request : SizingRequest ℝ) (h : lots ≤ lots') :
    request.hurdleOf lots ≤ request.hurdleOf lots' := by
  have hroot := Real.sqrt_le_sqrt (fractionOf_mono request h)
  exact add_le_add le_rfl (mul_le_mul_of_nonneg_left hroot (coefficient_nonneg request.curve))

theorem lower_le (h : request.first ≤ lots) :
    request.lower ≤ request.market.quantityStep * lots := by
  have hceil : ⌈request.lower / request.market.quantityStep⌉ ≤ lots := (le_max_right _ _).trans h
  rw [← div_le_iff₀' request.market.step_pos]
  exact Int.ceil_le.mp hceil

/-- A lot count within the limits is one that the curve supports. -/
theorem supported (hfirst : request.first ≤ lots) (hlast : lots ≤ request.last) :
    request.curve.sizeMin ≤ request.fractionOf lots ∧
      request.fractionOf lots ≤ request.curve.sizeMax := by
  have hadv := request.market.adv_pos
  have hlower := lower_le hfirst
  have hupper := le_upper hlast
  unfold SizingRequest.lower at hlower
  unfold SizingRequest.upper at hupper
  simp only [max_le_iff] at hlower
  simp only [le_min_iff] at hupper
  exact ⟨(le_div_iff₀ hadv).mpr hlower.1.1, (div_le_iff₀ hadv).mpr hupper.1.1.1⟩

theorem one_le_lots (hfirst : request.first ≤ lots) : 1 ≤ lots := (one_le_first request).trans hfirst

theorem notionalOf_pos (hfirst : request.first ≤ lots) : 0 < request.notionalOf lots := by
  have hstep := request.market.step_pos
  have hprice := request.market.price_pos
  have hlots : (0 : ℝ) < lots := by exact_mod_cast one_le_lots hfirst
  exact mul_pos (mul_pos hstep hlots) hprice

/-! ## The quotes -/

/-- The estimate of a quote, as far as the decision looks at it. -/
structure Estimated (strategy : CarryStrategy ℝ) (request : SizingRequest ℝ) (lots : Int)
    (estimate : CostEstimate ℝ) : Prop where
  notional : estimate.notionalUsdt = request.notionalOf lots
  hurdle : CarryStrategy.hurdle estimate none = request.hurdleOf lots
  refused : estimate.Refused strategy request.nowMs strategy.policy.horizonSettlements none ↔
    request.curve.kind = .synthetic ∧ strategy.policy.allowSyntheticCosts = false

theorem fromCurve_defined (h : Sizable strategy request) (hfirst : request.first ≤ lots)
    (hlast : lots ≤ request.last) :
    ∃ estimate, request.curve.fromCurve Real.sqrt request.nowMs request.market.validUntilMs
        (request.notionalOf lots) (request.fractionOf lots) strategy.policy.horizonSettlements
        request.charges = .ok estimate ∧ Estimated strategy request lots estimate := by
  have hadmissible := h.admissible
  unfold SizingRequest.Inadmissible at hadmissible
  push Not at hadmissible
  obtain ⟨hmarket, hcurve, hobserved, hvalid, _, hmetadata, hadmitted, hevidence⟩ := hadmissible
  obtain ⟨hmin, hmax⟩ := supported hfirst hlast
  obtain ⟨estimate, hestimate, hquoted, huntil, hend, hentry, hclose, hterminal, hfinancing⟩ :=
    ImpactCurve.fromCurve_defined ⟨h.now_nonneg, hvalid, hadmitted, hevidence, hmin, hmax⟩ h.charges
      (notionalOf_pos hfirst) strategy.policy.horizon_pos (Real.sqrt_nonneg (request.fractionOf lots))
  obtain ⟨_, _, _, hsymbol, hnotional, hhorizon, hkind, _⟩ := ImpactCurve.fromCurve_ok hestimate
  refine ⟨estimate, hestimate, hnotional, ?_, ?_⟩
  · simp only [CarryStrategy.hurdle, Option.isNone_none, if_true, SizingRequest.hurdleOf,
      ExecutionCharges.fixedFraction, ImpactCurve.roundTripCoefficient]
    rw [hterminal, hentry, hclose, hfinancing, ImpactCurve.sideFraction, ImpactCurve.sideFraction]
    ring
  · unfold CostEstimate.Refused
    simp [hsymbol, hhorizon, hquoted, huntil, hend, hkind, hcurve, not_le.mpr hvalid,
      not_lt.mpr hevidence]

theorem quote_defined (h : Sizable strategy request) (hfirst : request.first ≤ lots)
    (hlast : lots ≤ request.last) :
    ∃ q, quote Real.sqrt strategy request lots = .ok q ∧
      q.quantity = request.market.quantityStep * lots ∧ q.fraction = request.fractionOf lots ∧
      Estimated strategy request lots q.estimate ∧
      q.decision = strategy.weigh request.nowMs strategy.policy.horizonSettlements request.forecast
        (some q.estimate) request.approval none := by
  obtain ⟨estimate, hestimate, hspec⟩ := fromCurve_defined h hfirst hlast
  refine ⟨⟨_, _, estimate, strategy.weigh request.nowMs strategy.policy.horizonSettlements
    request.forecast (some estimate) request.approval none⟩, ?_, rfl, rfl, hspec, rfl⟩
  unfold quote
  simp only [bind_ok, pure_ok, raising_ok]
  refine ⟨estimate, hestimate, _, ?_, rfl⟩
  unfold CarryStrategy.decide
  simp only [bind_ok, integer_ok, pure_ok]
  exact ⟨(), h.now_nonneg, trivial⟩

theorem quote_spec (h : Sizable strategy request) (hfirst : request.first ≤ lots)
    (hlast : lots ≤ request.last) {q : Quote ℝ}
    (hq : quote Real.sqrt strategy request lots = .ok q) :
    q.fraction = request.fractionOf lots ∧ Estimated strategy request lots q.estimate ∧
      q.decision = strategy.weigh request.nowMs strategy.policy.horizonSettlements request.forecast
        (some q.estimate) request.approval none := by
  obtain ⟨q', hq', _, hfraction, hspec, hdecision⟩ := quote_defined h hfirst hlast
  rw [hq] at hq'
  cases hq'
  exact ⟨hfraction, hspec, hdecision⟩

/-! ## The gate -/

/-- What the decision asks for apart from the size. -/
def Cleared (strategy : CarryStrategy ℝ) (request : SizingRequest ℝ) (f : FundingForecast ℝ) : Prop :=
  request.forecast = some f ∧ f.symbol = strategy.symbol ∧
    ¬ Unusable f.prediction request.nowMs strategy.policy.horizonSettlements ∧
    (∃ a, request.approval = some a ∧ ¬ a.Refuses strategy.symbol f.modelSha256
      f.prediction.intervalHours request.nowMs strategy.policy.horizonSettlements) ∧
    ¬ (request.curve.kind = .synthetic ∧ strategy.policy.allowSyntheticCosts = false)

/-- The funding samples clear a hurdle. -/
def Clears (strategy : CarryStrategy ℝ) (samples : List ℝ) (hurdle : ℝ) : Prop :=
  0 < samples.sum / samples.length - hurdle ∧
    strategy.policy.entryProbability <
      ((samples.countP fun sample => hurdle < sample : Nat) : ℝ) / samples.length

theorem Clears.anti {samples : List ℝ} {hurdle hurdle' : ℝ} (hle : hurdle ≤ hurdle')
    (h : Clears strategy samples hurdle') : Clears strategy samples hurdle := by
  obtain ⟨hedge, hprobability⟩ := h
  refine ⟨by linarith, hprobability.trans_le ?_⟩
  have hcount := CarryStrategy.countP_above samples hle
  exact div_le_div_of_nonneg_right (by exact_mod_cast hcount) (Nat.cast_nonneg _)

/-- The quote of a lot count enters. -/
def Enters (strategy : CarryStrategy ℝ) (request : SizingRequest ℝ) (lots : Int) : Prop :=
  ∃ q, quote Real.sqrt strategy request lots = .ok q ∧ q.decision.action = .enter

/-- What is cleared goes on to the comparison of funding and costs. -/
theorem Cleared.weigh {f : FundingForecast ℝ} {estimate : CostEstimate ℝ}
    (h : Cleared strategy request f) (hspec : Estimated strategy request lots estimate) :
    strategy.weigh request.nowMs strategy.policy.horizonSettlements request.forecast
        (some estimate) request.approval none =
      strategy.compare f.prediction.samples estimate none := by
  obtain ⟨hf, hsymbol, husable, ⟨a, ha, happroved⟩, hcosted⟩ := h
  rw [hf, ha]
  exact CarryStrategy.weigh_admitted ⟨hsymbol, husable, happroved, mt hspec.refused.mp hcosted⟩

theorem quote_enters (h : Sizable strategy request) (hfirst : request.first ≤ lots)
    (hlast : lots ≤ request.last) {q : Quote ℝ}
    (hq : quote Real.sqrt strategy request lots = .ok q) :
    q.decision.action = .enter ↔ ∃ f, Cleared strategy request f ∧
      Clears strategy f.prediction.samples (request.hurdleOf lots) := by
  obtain ⟨_, hspec, hdecision⟩ := quote_spec h hfirst hlast hq
  rw [hdecision]
  constructor
  · intro henter
    rcases strategy.weigh_action request.nowMs strategy.policy.horizonSettlements request.forecast
      (some q.estimate) request.approval none with hblocked | ⟨_, f, c, a, hf, hc, ha, hadmitted⟩
    · rw [hblocked] at henter
      cases henter
    · cases hc
      rw [hf, ha, CarryStrategy.weigh_admitted hadmitted, CarryStrategy.compare_enter,
        hspec.hurdle] at henter
      obtain ⟨hsymbol, husable, happroved, hcosted⟩ := hadmitted
      exact ⟨f, ⟨hf, hsymbol, husable, ⟨a, ha, happroved⟩, mt hspec.refused.mpr hcosted⟩, henter⟩
  · rintro ⟨f, hcleared, hclears⟩
    rw [hcleared.weigh hspec, CarryStrategy.compare_enter, hspec.hurdle]
    exact hclears

theorem enters_iff (h : Sizable strategy request) (hfirst : request.first ≤ lots)
    (hlast : lots ≤ request.last) :
    Enters strategy request lots ↔ ∃ f, Cleared strategy request f ∧
      Clears strategy f.prediction.samples (request.hurdleOf lots) := by
  obtain ⟨q, hq, _⟩ := quote_defined h hfirst hlast
  rw [← quote_enters h hfirst hlast hq]
  constructor
  · rintro ⟨q', hq', henter⟩
    rw [hq] at hq'
    cases hq'
    exact henter
  · intro henter
    exact ⟨q, hq, henter⟩

/-- Smaller sizes have lower hurdles. -/
theorem enters_below (h : Sizable strategy request) (hfirst : request.first ≤ lots)
    (hle : lots ≤ lots') (hlast : lots' ≤ request.last) (henters : Enters strategy request lots') :
    Enters strategy request lots := by
  rw [enters_iff h (hfirst.trans hle) hlast] at henters
  obtain ⟨f, hcleared, hclears⟩ := henters
  exact (enters_iff h hfirst (hle.trans hlast)).mpr
    ⟨f, hcleared, hclears.anti (hurdleOf_mono request hle)⟩

theorem enters_edge (h : Sizable strategy request) (hfirst : request.first ≤ lots)
    (hlast : lots ≤ request.last) {q : Quote ℝ} {f : FundingForecast ℝ}
    (hq : quote Real.sqrt strategy request lots = .ok q) (hcleared : Cleared strategy request f) :
    q.decision.expectedIncrementalFraction =
      some (f.prediction.samples.sum / f.prediction.samples.length - request.hurdleOf lots) := by
  obtain ⟨_, hspec, hdecision⟩ := quote_spec h hfirst hlast hq
  rw [hdecision, hcleared.weigh hspec, CarryStrategy.compare_edge, hspec.hurdle]

/-! ## The loop -/

/-- A run of `while low < high`: the lot counts it asks about, and its last `low`. -/
inductive Bisects (enters : Int → Except Raised Bool) : Int → Int → List Int → Int → Prop where
  | done {low high : Int} : ¬ low < high → Bisects enters low high [] low
  | up {low high middle found : Int} {asked : List Int} :
      low < high → middle = (low + high + 1) / 2 → enters middle = .ok true →
      Bisects enters middle high asked found → Bisects enters low high (middle :: asked) found
  | down {low high middle found : Int} {asked : List Int} :
      low < high → middle = (low + high + 1) / 2 → enters middle = .ok false →
      Bisects enters low (middle - 1) asked found → Bisects enters low high (middle :: asked) found

namespace Bisects

variable {enters : Int → Except Raised Bool} {low high found : Int} {asked : List Int}

theorem bisect (h : Bisects enters low high asked found) :
    ∀ fuel, (high - low).toNat ≤ fuel → bisect enters fuel low high = .ok found := by
  induction h with
  | done hdone =>
    intro fuel _
    cases fuel with
    | zero => rfl
    | succ fuel => simp only [Strategy.bisect, if_neg hdone]
  | @up low high middle found asked hlt hmiddle henters _ ih =>
    intro fuel hfuel
    obtain ⟨fuel, rfl⟩ : ∃ n, fuel = n + 1 := ⟨fuel - 1, by omega⟩
    simp only [Strategy.bisect, if_pos hlt, ← hmiddle, henters]
    exact ih fuel (by omega)
  | @down low high middle found asked hlt hmiddle henters _ ih =>
    intro fuel hfuel
    obtain ⟨fuel, rfl⟩ : ∃ n, fuel = n + 1 := ⟨fuel - 1, by omega⟩
    simp only [Strategy.bisect, if_pos hlt, ← hmiddle, henters]
    exact ih fuel (by omega)

/-- It asks only between its bounds, and ends where `lastTrue` does. -/
theorem total {p : Int → Bool} (hle : low ≤ high)
    (hp : ∀ lots, low ≤ lots → lots ≤ high → enters lots = .ok (p lots)) :
    ∃ asked, Bisects enters low high asked (lastTrue p (high - low).toNat low high) ∧
      ∀ lots ∈ asked, low ≤ lots ∧ lots ≤ high := by
  induction hwidth : (high - low).toNat using Nat.strong_induction_on generalizing low high with
  | _ width ih =>
    subst hwidth
    by_cases hlt : low < high
    · have hasked := hp ((low + high + 1) / 2) (by omega) (by omega)
      cases hmiddle : p ((low + high + 1) / 2) with
      | true =>
        obtain ⟨asked, hrun, hwithin⟩ := ih _ (by omega) (show (low + high + 1) / 2 ≤ high by omega)
          (fun lots h h' => hp lots (by omega) h') rfl
        rw [lastTrue_up hlt hmiddle]
        refine ⟨_ :: asked, .up hlt rfl (hmiddle ▸ hasked) hrun, ?_⟩
        exact List.forall_mem_cons.mpr ⟨by omega, fun lots hmem => by have := hwithin lots hmem; omega⟩
      | false =>
        obtain ⟨asked, hrun, hwithin⟩ := ih _ (by omega)
          (show low ≤ (low + high + 1) / 2 - 1 by omega) (fun lots h h' => hp lots h (by omega)) rfl
        rw [lastTrue_down hlt hmiddle]
        refine ⟨_ :: asked, .down hlt rfl (hmiddle ▸ hasked) hrun, ?_⟩
        exact List.forall_mem_cons.mpr ⟨by omega, fun lots hmem => by have := hwithin lots hmem; omega⟩
    · refine ⟨[], ?_, by simp⟩
      rw [lastTrue_done hlt]
      exact .done hlt

end Bisects

/-! ## The search -/

/-- The test of the loop. -/
noncomputable def asks (strategy : CarryStrategy ℝ) (request : SizingRequest ℝ) (lots : Int) :
    Except Raised Bool :=
  (quote Real.sqrt strategy request lots).map fun q => q.decision.action = .enter

theorem asks_eq (h : Sizable strategy request) (hfirst : request.first ≤ lots)
    (hlast : lots ≤ request.last) [Decidable (Enters strategy request lots)] :
    asks strategy request lots = .ok (decide (Enters strategy request lots)) := by
  obtain ⟨q, hq, _⟩ := quote_defined h hfirst hlast
  have henters : Enters strategy request lots ↔ q.decision.action = .enter := by
    rw [enters_iff h hfirst hlast, quote_enters h hfirst hlast hq]
  unfold asks
  rw [hq]
  simp only [Except.map, henters]

/-- The end of the lot counts that enter. -/
structure GateEnd (strategy : CarryStrategy ℝ) (request : SizingRequest ℝ) (feasibleLast : Int) :
    Prop where
  first_le : request.first ≤ feasibleLast
  le_last : feasibleLast ≤ request.last
  enters : ∀ lots, request.first ≤ lots → lots ≤ request.last →
    (Enters strategy request lots ↔ lots ≤ feasibleLast)

open Classical in
theorem gate_found (h : Sizable strategy request) (hle : request.first ≤ request.last)
    (henter : Enters strategy request request.first) :
    ∃ asked feasibleLast, GateEnd strategy request feasibleLast ∧
      Bisects (asks strategy request) request.first request.last asked feasibleLast ∧
      ∀ lots ∈ asked, request.first ≤ lots ∧ lots ≤ request.last := by
  obtain ⟨asked, hrun, hwithin⟩ := Bisects.total hle
    fun lots hfirst hlast => asks_eq h hfirst hlast
  obtain ⟨⟨hge, hle'⟩, hiff⟩ := lastTrue_spec (p := fun lots => decide (Enters strategy request lots))
    hle le_rfl (decide_eq_true henter) fun i j hi hij hj hp =>
      decide_eq_true (enters_below h hi hij hj (of_decide_eq_true hp))
  refine ⟨asked, _, ⟨hge, hle', ?_⟩, hrun, hwithin⟩
  intro lots hfirst hlast
  rw [← hiff lots hfirst hlast, decide_eq_true_eq]

namespace SizingRequest

/-- What a position of a size earns over its horizon. -/
noncomputable def profitOf (request : SizingRequest ℝ) (f : FundingForecast ℝ) (lots : Int) : ℝ :=
  request.notionalOf lots *
    (f.prediction.samples.sum / f.prediction.samples.length - request.hurdleOf lots)

/-- The mean funding after the fixed charges. -/
noncomputable def edgeOf (request : SizingRequest ℝ) (f : FundingForecast ℝ) : ℝ :=
  f.prediction.samples.sum / f.prediction.samples.length - request.charges.fixedFraction

noncomputable def targetOf (request : SizingRequest ℝ) (f : FundingForecast ℝ) (feasibleLast : Int) :
    Int :=
  target Real.sqrt request (request.edgeOf f) request.curve.roundTripCoefficient
    (request.fractionOf feasibleLast) feasibleLast

/-- The lot count that the search settles on. -/
noncomputable def chosen (request : SizingRequest ℝ) (f : FundingForecast ℝ) (feasibleLast : Int) :
    Int :=
  peakAt (request.profitOf f) request.first feasibleLast (request.targetOf f feasibleLast)

end SizingRequest

section Candidates

variable {f : FundingForecast ℝ} {feasibleLast : Int}

theorem best_cons (h : Sizable strategy request) (hcleared : Cleared strategy request f)
    (hfirst : request.first ≤ lots) (hlast : lots ≤ request.last) {q : Quote ℝ}
    (hq : quote Real.sqrt strategy request lots = .ok q) (rest : List Int)
    (found : Option (ℝ × Quote ℝ)) :
    best Real.sqrt strategy request (lots :: rest) found =
      if found.all fun g => g.1 < request.profitOf f lots then
        best Real.sqrt strategy request rest (some (request.profitOf f lots, q))
      else best Real.sqrt strategy request rest found := by
  have hedge := enters_edge h hfirst hlast hq hcleared
  obtain ⟨_, hspec, _⟩ := quote_spec h hfirst hlast hq
  have hprofit : q.estimate.notionalUsdt *
      (f.prediction.samples.sum / f.prediction.samples.length - request.hurdleOf lots) =
        request.profitOf f lots := by
    rw [hspec.notional]
    rfl
  rw [best, hq]
  simp only [bind, Except.bind, hedge, hprofit]

/-- Of the two candidates, the better one is found. -/
theorem best_candidates (h : Sizable strategy request) (hcleared : Cleared strategy request f)
    (hfirst : request.first ≤ feasibleLast) (hlast : feasibleLast ≤ request.last) (target : Int) :
    ∃ q, quote Real.sqrt strategy request
        (peakAt (request.profitOf f) request.first feasibleLast target) = .ok q ∧
      best Real.sqrt strategy request (candidates request feasibleLast target) none =
        .ok (some (request.profitOf f
          (peakAt (request.profitOf f) request.first feasibleLast target), q)) := by
  have hlow := clamp_mem hfirst target
  have hhigh := clamp_mem hfirst (target + 1)
  obtain ⟨q, hq, _⟩ := quote_defined h hlow.1 (hlow.2.trans hlast)
  obtain ⟨q', hq', _⟩ := quote_defined h hhigh.1 (hhigh.2.trans hlast)
  have hcandidates : candidates request feasibleLast target =
      if clamp request.first feasibleLast target = clamp request.first feasibleLast (target + 1) then
        [clamp request.first feasibleLast target]
      else [clamp request.first feasibleLast target,
        clamp request.first feasibleLast (target + 1)] := rfl
  rw [hcandidates]
  unfold peakAt
  by_cases heq : clamp request.first feasibleLast target =
      clamp request.first feasibleLast (target + 1)
  · rw [if_pos heq, ← heq, if_neg (lt_irrefl _),
      best_cons h hcleared hlow.1 (hlow.2.trans hlast) hq]
    exact ⟨q, hq, rfl⟩
  · rw [if_neg heq, best_cons h hcleared hlow.1 (hlow.2.trans hlast) hq, Option.all_none, if_pos rfl,
      best_cons h hcleared hhigh.1 (hhigh.2.trans hlast) hq', Option.all_some]
    simp only [decide_eq_true_eq]
    split
    · exact ⟨q', hq', rfl⟩
    · exact ⟨q, hq, rfl⟩

end Candidates

theorem profitOf_pos (h : Sizable strategy request) (hfirst : request.first ≤ lots)
    (hlast : lots ≤ request.last) {f : FundingForecast ℝ} (hcleared : Cleared strategy request f)
    (henters : Enters strategy request lots) : 0 < request.profitOf f lots := by
  rw [enters_iff h hfirst hlast] at henters
  obtain ⟨f', hcleared', hedge, _⟩ := henters
  obtain rfl : f = f' := Option.some.inj (hcleared.1.symm.trans hcleared'.1)
  exact mul_pos (notionalOf_pos hfirst) hedge

/-- A search that ended at `feasibleLast` and chose the quote `q`. -/
structure Settled (strategy : CarryStrategy ℝ) (request : SizingRequest ℝ) (f : FundingForecast ℝ)
    (feasibleLast : Int) (q : Quote ℝ) : Prop where
  cleared : Cleared strategy request f
  gate : GateEnd strategy request feasibleLast
  first_le : request.first ≤ request.chosen f feasibleLast
  le_feasible : request.chosen f feasibleLast ≤ feasibleLast
  quoted : quote Real.sqrt strategy request (request.chosen f feasibleLast) = .ok q
  entered : q.decision.action = .enter
  profitable : 0 < request.profitOf f (request.chosen f feasibleLast)

/-- `size_position` behind its first test. -/
theorem sizePosition_sizable (h : Sizable strategy request) {result : SizingResult ℝ} :
    sizePosition Real.sqrt strategy request = .ok result ↔
      if request.last < request.first then .wait "no_executable_size" = result
      else ∃ minimum, quote Real.sqrt strategy request request.first = .ok minimum ∧
        if minimum.decision.action ≠ .enter then .empty minimum.decision = result
        else ∃ f, request.forecast = some f ∧ search Real.sqrt strategy request f = .ok result := by
  unfold sizePosition
  simp only [bind_ok, raising_ok, integer_ok, h.now_nonneg, true_and, exists_const,
    if_neg h.admissible]
  split
  · rw [pure_ok]
  · rw [bind_ok]
    refine exists_congr fun minimum => and_congr_right fun _ => ?_
    split
    · rw [pure_ok]
    · cases request.forecast with
      | none => simp
      | some f => simp

/-- Once the smallest size enters, the chosen lot count is returned with its quote. -/
theorem sizePosition_entered (h : Sizable strategy request) (hle : request.first ≤ request.last)
    (henter : Enters strategy request request.first) :
    ∃ f feasibleLast q, Settled strategy request f feasibleLast q ∧
      sizePosition Real.sqrt strategy request = .ok (sized Real.sqrt request (request.edgeOf f)
        request.curve.roundTripCoefficient (request.fractionOf feasibleLast)
        (request.profitOf f (request.chosen f feasibleLast)) feasibleLast q) := by
  obtain ⟨asked, feasibleLast, hend, hrun, _⟩ := gate_found h hle henter
  obtain ⟨f, hcleared, _⟩ := (enters_iff h le_rfl hle).mp henter
  obtain ⟨minimum, hminimum, haction⟩ := henter
  obtain ⟨q, hq, hbest⟩ := best_candidates h hcleared hend.first_le hend.le_last
    (request.targetOf f feasibleLast)
  obtain ⟨hpeak, hpeak'⟩ := peakAt_mem (request.profitOf f) hend.first_le
    (request.targetOf f feasibleLast)
  have hlast := hpeak'.trans hend.le_last
  have hchosen := (hend.enters _ hpeak hlast).mpr hpeak'
  have hpos := profitOf_pos h hpeak hlast hcleared hchosen
  have hentered : q.decision.action = .enter := by
    rw [quote_enters h hpeak hlast hq, ← enters_iff h hpeak hlast]
    exact hchosen
  refine ⟨f, feasibleLast, q, ⟨hcleared, hend, hpeak, hpeak', hq, hentered, hpos⟩, ?_⟩
  have hsearch : search Real.sqrt strategy request f = .ok (sized Real.sqrt request
      (request.edgeOf f) request.curve.roundTripCoefficient (request.fractionOf feasibleLast)
      (request.profitOf f (request.chosen f feasibleLast)) feasibleLast q) := by
    unfold search
    refine bind_ok.mpr ⟨feasibleLast, hrun.bisect _ le_rfl, bind_ok.mpr ⟨_, hbest, ?_⟩⟩
    exact if_neg (not_le.mpr hpos)
  rw [sizePosition_sizable h, if_neg (not_lt.mpr hle)]
  refine ⟨minimum, hminimum, ?_⟩
  rw [if_neg (not_not.mpr haction)]
  exact ⟨f, hcleared.1, hsearch⟩

/-- With the smallest size refused, its decision is what is returned. -/
theorem sizePosition_refused (h : Sizable strategy request) (hle : request.first ≤ request.last)
    (hrefused : ¬ Enters strategy request request.first) :
    ∃ decision : Decision ℝ, decision.action = .wait ∧
      sizePosition Real.sqrt strategy request = .ok (.empty decision) := by
  obtain ⟨minimum, hminimum, _⟩ := quote_defined h le_rfl hle
  have hstop : minimum.decision.action ≠ .enter := fun henter => hrefused ⟨minimum, hminimum, henter⟩
  refine ⟨minimum.decision, (quote_action hminimum).resolve_right hstop, ?_⟩
  rw [sizePosition_sizable h, if_neg (not_lt.mpr hle)]
  refine ⟨minimum, hminimum, ?_⟩
  rw [if_pos hstop]

theorem sizePosition_tooSmall (h : Sizable strategy request) (hlt : request.last < request.first) :
    sizePosition Real.sqrt strategy request = .ok (.wait "no_executable_size") := by
  rw [sizePosition_sizable h, if_pos hlt]

theorem gate_interval (h : Sizable strategy request) (hle : request.first ≤ request.last)
    (henter : Enters strategy request request.first) :
    (∀ (p : Int → Bool) (low high : Int), low ≤ high →
      ∃ asked found, Bisects (fun lots => .ok (p lots)) low high asked found) ∧
    ∃ asked feasibleLast,
      (Bisects (asks strategy request) request.first request.last asked feasibleLast ∧
        ∀ fuel, (request.last - request.first).toNat ≤ fuel →
          bisect (asks strategy request) fuel request.first request.last = .ok feasibleLast) ∧
      (request.first ≤ feasibleLast ∧ feasibleLast ≤ request.last ∧
        ∀ lots, request.first ≤ lots → lots ≤ request.last →
          (Enters strategy request lots ↔ lots ≤ feasibleLast)) ∧
      (∀ lots target, lots = request.first ∨ lots ∈ asked ∨
          lots ∈ candidates request feasibleLast target →
        request.curve.sizeMin ≤ request.fractionOf lots ∧
          request.fractionOf lots ≤ request.curve.sizeMax ∧
          ∃ q, quote Real.sqrt strategy request lots = .ok q) ∧
      ∃ result, sizePosition Real.sqrt strategy request = .ok result := by
  obtain ⟨asked, feasibleLast, hend, hrun, hwithin⟩ := gate_found h hle henter
  refine ⟨fun p low high hle => ?_, asked, feasibleLast, ⟨hrun, hrun.bisect⟩,
    ⟨hend.first_le, hend.le_last, hend.enters⟩, ?_, ?_⟩
  · obtain ⟨asked, hrun, _⟩ := Bisects.total (p := p) hle fun _ _ _ => rfl
    exact ⟨asked, _, hrun⟩
  · intro lots target hquoted
    have hrange : request.first ≤ lots ∧ lots ≤ request.last := by
      rcases hquoted with rfl | hasked | hcandidate
      · exact ⟨le_rfl, hle⟩
      · exact hwithin lots hasked
      · obtain ⟨hge, hle'⟩ := candidates_mem hend.first_le hcandidate
        exact ⟨hge, hle'.trans hend.le_last⟩
    obtain ⟨q, hq, _⟩ := quote_defined h hrange.1 hrange.2
    obtain ⟨hmin, hmax⟩ := supported hrange.1 hrange.2
    exact ⟨hmin, hmax, q, hq⟩
  · obtain ⟨_, _, _, _, hresult⟩ := sizePosition_entered h hle henter
    exact ⟨_, hresult⟩

/-! ## A market of two lots -/

def lotDigest : String := "fedcba9876543210fedcba9876543210fedcba9876543210fedcba9876543210"

theorem lotDigest_isDigest : isDigest lotDigest = true := by decide +kernel

theorem ethusdt_ne : "ETHUSDT" ≠ "" := by decide

noncomputable def lotStrategy : CarryStrategy ℝ where
  symbol := "ETHUSDT"
  policy := {
    horizonSettlements := 21
    entryProbability := (1 / 2 : ℚ)
    continuationProbability := (1 / 4 : ℚ)
    horizon_pos := by norm_num
    continuation_nonneg := by norm_num
    continuation_lt_entry := by norm_num
    entry_lt_one := by norm_num }
  symbol_ne := ethusdt_ne

/-- Impact that costs a fifth of the notional at a quarter of the daily volume. -/
noncomputable def lotCurve : ImpactCurve ℝ where
  symbol := "ETHUSDT"
  admittedAtMs := 3456000000
  evidenceEndExclusiveMs := 3456000000
  artifactSha256 := lotDigest
  kind := .verifiedCalibration
  sellCoefficientBps := (2000 : ℚ)
  buyCoefficientBps := (2000 : ℚ)
  sizeMin := (1 / 4 : ℚ)
  sizeMax := 1
  symbol_ne := ethusdt_ne
  admitted_nonneg := by norm_num
  evidence_nonneg := by norm_num
  digest := lotDigest_isDigest
  sell_nonneg := by norm_num
  buy_nonneg := by norm_num
  size_pos := by norm_num
  size_le := by norm_num

noncomputable def lotMarket : SizingInputs ℝ where
  symbol := "ETHUSDT"
  observedAtMs := 3456000000
  validUntilMs := 3456000001
  priceUsdt := 1
  advBase := (4 : ℚ)
  advStartMs := 864000000
  advEndExclusiveMs := 3456000000
  advSha256 := lotDigest
  quantityStep := 1
  minQuantity := 0
  minNotionalUsdt := 0
  maxNotionalUsdt := (100 : ℚ)
  maxAdvFraction := 1
  validatedQuantityBase := (2 : ℚ)
  metadataValidFromMs := 864000000
  metadataValidUntilMs := 3456000001
  metadataSha256 := lotDigest
  symbol_ne := ethusdt_ne
  observed_nonneg := by norm_num
  valid_span := by norm_num
  adv_nonneg := by norm_num
  adv_aligned := by norm_num [DAY_MS]
  adv_span := by norm_num [DAY_MS]
  metadata_nonneg := by norm_num
  metadata_span := by norm_num
  price_pos := one_pos
  adv_pos := by norm_num
  notional_nonneg := le_rfl
  max_notional_pos := by norm_num
  max_adv_pos := one_pos
  validated_pos := by norm_num
  step_pos := one_pos
  min_quantity_nonneg := le_rfl
  adv_digest := lotDigest_isDigest
  metadata_digest := lotDigest_isDigest

def lotApproval : FundingApproval where
  symbol := "ETHUSDT"
  horizons := [21]
  intervalHours := 12
  validationEndExclusiveMs := 3456000000
  validUntilMs := 3456000001
  evidenceSha256 := lotDigest
  approved := true
  modelSha256 := lotDigest
  symbol_ne := ethusdt_ne
  horizons_ne := List.cons_ne_nil _ _
  horizons_pos := by simp
  horizons_nodup := List.nodup_singleton _
  interval := by norm_num
  validation_nonneg := by norm_num
  validation_lt := by norm_num
  evidence_digest := lotDigest_isDigest
  model_digest := lotDigest_isDigest

noncomputable def lotForecast : FundingForecast ℝ :=
  ⟨"ETHUSDT", ⟨[1, 1], 21, 12, 3456000000, 3456000000, 0, 3, 0⟩, lotDigest⟩

noncomputable def lotRequest : SizingRequest ℝ where
  nowMs := 3456000000
  forecast := some lotForecast
  approval := some lotApproval
  market := lotMarket
  curve := lotCurve
  charges := ⟨0, 0, 0, 0, 0, 0, 0⟩

theorem lotRequest_sizable : Sizable lotStrategy lotRequest where
  now_nonneg := by norm_num [lotRequest]
  admissible := by
    norm_num [SizingRequest.Inadmissible, lotRequest, lotMarket, lotCurve, lotStrategy, DAY_MS]
  charges := by
    simp [ExecutionCharges.check, ExecutionCharges.numbers, ExecutionCharges.fixedFraction,
      lotRequest, bind_ok]

theorem lotRequest_first : lotRequest.first = 1 := by
  refine max_eq_left ?_
  rw [Int.ceil_le]
  norm_num [SizingRequest.lower, lotRequest, lotMarket, lotCurve]

theorem lotRequest_last : lotRequest.last = 2 := by
  unfold SizingRequest.last
  rw [Int.floor_eq_iff]
  norm_num [SizingRequest.upper, lotRequest, lotMarket, lotCurve]

theorem lotRequest_clears : Clears lotStrategy [1, 1] (lotRequest.hurdleOf 1) := by
  have hfraction : lotRequest.fractionOf 1 = (1 / 2) ^ 2 := by
    norm_num [SizingRequest.fractionOf, lotRequest, lotMarket]
  have hhurdle : lotRequest.hurdleOf 1 = 1 / 5 := by
    unfold SizingRequest.hurdleOf
    rw [hfraction, Real.sqrt_sq (by norm_num)]
    norm_num [ExecutionCharges.fixedFraction, ImpactCurve.roundTripCoefficient, lotRequest, lotCurve]
  rw [hhurdle]
  norm_num [Clears, lotStrategy, List.countP_cons]

theorem lotRequest_enters : Enters lotStrategy lotRequest lotRequest.first := by
  rw [enters_iff lotRequest_sizable le_rfl (by rw [lotRequest_first, lotRequest_last]; norm_num),
    lotRequest_first]
  refine ⟨lotForecast, ⟨rfl, rfl, ?_, ⟨lotApproval, rfl, ?_⟩, ?_⟩, lotRequest_clears⟩
  · norm_num [Unusable, lotForecast, lotRequest, lotStrategy, Models.JITTER_MS, HOUR_MS]
  · norm_num [FundingApproval.Refuses, lotApproval, lotForecast, lotRequest, lotStrategy]
  · simp [lotRequest, lotCurve]

theorem gate_interval_twoLots :
    ∃ asked feasibleLast,
      Bisects (asks lotStrategy lotRequest) lotRequest.first lotRequest.last asked feasibleLast := by
  obtain ⟨_, asked, feasibleLast, ⟨hrun, _⟩, _⟩ := gate_interval lotRequest_sizable
    (by rw [lotRequest_first, lotRequest_last]; norm_num) lotRequest_enters
  exact ⟨asked, feasibleLast, hrun⟩

end Strategy
end PerpCarry
