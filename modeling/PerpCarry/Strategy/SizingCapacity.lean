import PerpCarry.Strategy.SizingOptimum

/-!
# Strategy.SizingCapacity

The capacity that `size_position` reports beside the size it chose.

* `breakEven_root`: a break-even fraction within the support is the root of the net edge, beyond
  every fraction that enters.
* `breakEven_above`: there is none above the support exactly when the net edge stays positive on it.
* `binding_gate`, `binding_limits`: what the binding limits name.
* `capacity_consistent`: all of it about one result with a positive size.
-/

namespace PerpCarry
namespace Strategy

open Lib

variable {strategy : CarryStrategy ℝ} {request : SizingRequest ℝ} {lots : Int}

/-! ## The break-even fraction -/

section BreakEven

variable {edge coefficient fraction : ℝ}

theorem fraction_lt_root (hpos : 0 < coefficient) (hedge : 0 < edge)
    (h : coefficient * √fraction < edge) : fraction < (edge / coefficient) ^ 2 := by
  rw [← Real.sqrt_lt' (div_pos hedge hpos), lt_div_iff₀' hpos]
  exact h

theorem breakEven_root (hpos : 0 < coefficient) (hedge : 0 < edge)
    (h : (breakEven Real.sqrt request edge coefficient).2 = .withinSupport) :
    ∃ root, (breakEven Real.sqrt request edge coefficient).1 = some root ∧
      edge - coefficient * √root = 0 ∧ request.curve.sizeMin ≤ root ∧
      root ≤ request.curve.sizeMax ∧
      ∀ fraction, coefficient * √fraction < edge → fraction < root := by
  have hquotient := div_pos hedge hpos
  unfold breakEven at h ⊢
  rw [if_neg hpos.ne'] at h ⊢
  split at h
  · cases h
  · rename_i hmin
    split at h
    · cases h
    · rename_i hmax
      rw [if_neg hmin, if_neg hmax]
      refine ⟨(edge / coefficient) ^ 2, rfl, ?_, ?_, ?_, fun fraction => fraction_lt_root hpos hedge⟩
      · rw [Real.sqrt_sq hquotient.le, mul_div_cancel₀ _ hpos.ne', sub_self]
      · rw [← Real.sqrt_le_left hquotient.le, le_div_iff₀' hpos]
        exact not_lt.mp hmin
      · rw [← Real.le_sqrt' hquotient, div_le_iff₀' hpos]
        exact not_lt.mp hmax

theorem breakEven_below (hmin : coefficient * √request.curve.sizeMin < edge) :
    (breakEven Real.sqrt request edge coefficient).2 ≠ .belowSupport := by
  unfold breakEven
  split
  · intro h
    cases h
  · rw [if_neg (not_lt.mpr hmin.le)]
    split
    · intro h
      cases h
    · intro h
      cases h

theorem breakEven_above (hpos : 0 < coefficient)
    (hmin : coefficient * √request.curve.sizeMin < edge) :
    (breakEven Real.sqrt request edge coefficient).2 = .aboveSupport ↔
      ∀ fraction, request.curve.sizeMin ≤ fraction → fraction ≤ request.curve.sizeMax →
        0 < edge - coefficient * √fraction := by
  unfold breakEven
  rw [if_neg hpos.ne', if_neg (not_lt.mpr hmin.le)]
  split
  · rename_i hmax
    refine ⟨fun _ fraction _ hle => ?_, fun _ => rfl⟩
    have hroot := mul_le_mul_of_nonneg_left (Real.sqrt_le_sqrt hle) hpos.le
    linarith
  · rename_i hmax
    constructor
    · intro h
      cases h
    · intro h
      have := h request.curve.sizeMax request.curve.size_le le_rfl
      exact absurd (by linarith) hmax

end BreakEven

/-! ## The binding limits -/

/-- The labels of the least upper limits. -/
noncomputable def SizingRequest.binding (request : SizingRequest ℝ) (feasibleLast : Int) : List String :=
  if feasibleLast < request.last then ["entry_gate"]
  else (request.limits.filter fun limit => limit.2 = request.upper).map (·.1)

theorem upper_le_limit (request : SizingRequest ℝ) {limit : String × ℝ}
    (h : limit ∈ request.limits) : request.upper ≤ limit.2 := by
  unfold SizingRequest.limits at h
  unfold SizingRequest.upper
  simp only [List.mem_cons, List.not_mem_nil, or_false] at h
  rcases h with rfl | rfl | rfl | rfl
  · exact (min_le_left _ _).trans ((min_le_left _ _).trans (min_le_left _ _))
  · exact (min_le_left _ _).trans ((min_le_left _ _).trans (min_le_right _ _))
  · exact (min_le_left _ _).trans (min_le_right _ _)
  · exact min_le_right _ _

theorem upper_mem_limits (request : SizingRequest ℝ) :
    ∃ limit ∈ request.limits, limit.2 = request.upper := by
  unfold SizingRequest.limits SizingRequest.upper
  simp only [List.exists_mem_cons_iff, List.not_mem_nil]
  grind

theorem upper_eq_iff {limit : String × ℝ} (h : limit ∈ request.limits) :
    limit.2 = request.upper ↔ ∀ other ∈ request.limits, limit.2 ≤ other.2 := by
  constructor
  · intro heq other hother
    rw [heq]
    exact upper_le_limit request hother
  · intro hle
    obtain ⟨other, hother, heq⟩ := upper_mem_limits request
    exact le_antisymm (heq ▸ hle other hother) (upper_le_limit request h)

theorem gate_not_limit (request : SizingRequest ℝ) (bound : ℝ) :
    ("entry_gate", bound) ∉ request.limits := by
  simp [SizingRequest.limits]

theorem binding_limits {feasibleLast : Int} (h : request.last ≤ feasibleLast) (name : String) :
    name ∈ request.binding feasibleLast ↔
      ∃ bound, (name, bound) ∈ request.limits ∧ ∀ other ∈ request.limits, bound ≤ other.2 := by
  unfold SizingRequest.binding
  rw [if_neg (not_lt.mpr h)]
  simp only [List.mem_map, List.mem_filter, decide_eq_true_eq]
  constructor
  · rintro ⟨⟨name', bound⟩, ⟨hmem, heq⟩, rfl⟩
    exact ⟨bound, hmem, (upper_eq_iff hmem).mp heq⟩
  · rintro ⟨bound, hmem, hle⟩
    exact ⟨(name, bound), ⟨hmem, (upper_eq_iff hmem).mpr hle⟩, rfl⟩

theorem binding_gate (request : SizingRequest ℝ) (feasibleLast : Int) :
    request.binding feasibleLast = ["entry_gate"] ↔ feasibleLast < request.last := by
  constructor
  · intro h
    by_contra hlt
    have hname : "entry_gate" ∈ request.binding feasibleLast := by
      rw [h]
      exact List.mem_singleton_self _
    obtain ⟨bound, hmem, _⟩ := (binding_limits (not_lt.mp hlt) _).mp hname
    exact gate_not_limit request bound hmem
  · intro hlt
    exact if_pos hlt

/-- Above the chosen size, only sizes after the end of the gate fail it. -/
theorem Settled.refused_iff {f : FundingForecast ℝ} {feasibleLast : Int} {q : Quote ℝ}
    (hsettled : Settled strategy request f feasibleLast q) :
    (∃ lots : Int, q.quantity < request.market.quantityStep * lots ∧ Allowed request lots ∧
      ¬ Enters strategy request lots) ↔ feasibleLast < request.last := by
  have hstep := request.market.step_pos
  constructor
  · rintro ⟨lots, _, hallowed, hrefused⟩
    obtain ⟨hfirst, hlast⟩ := allowed_iff.mp hallowed
    rw [hsettled.gate.enters lots hfirst hlast, not_le] at hrefused
    exact hrefused.trans_le hlast
  · intro hlt
    have hfirst : request.first ≤ feasibleLast + 1 := by
      have := hsettled.gate.first_le
      omega
    refine ⟨feasibleLast + 1, ?_, allowed_iff.mpr ⟨hfirst, hlt⟩, ?_⟩
    · rw [(quote_ok hsettled.quoted).1]
      have hle := hsettled.le_feasible
      have hcast : (request.chosen f feasibleLast : ℝ) < (feasibleLast + 1 : Int) := by
        exact_mod_cast (show request.chosen f feasibleLast < feasibleLast + 1 by omega)
      exact mul_lt_mul_of_pos_left hcast hstep
    · rw [hsettled.gate.enters _ hfirst hlt]
      omega

/-! ## The capacity -/

theorem capacity_consistent (h : Sizable strategy request) {result : SizingResult ℝ}
    (hresult : sizePosition Real.sqrt strategy request = .ok result)
    (hquantity : 0 < result.quantityBase) (hpos : 0 < request.curve.roundTripCoefficient) :
    ∃ f maxFraction, request.forecast = some f ∧
      result.feasibleMaxAdvFraction = some maxFraction ∧ result.advFraction ≤ maxFraction ∧
      (result.breakEvenStatus = .withinSupport →
        ∃ root, result.breakEvenAdvFraction = some root ∧
          f.prediction.samples.sum / f.prediction.samples.length - request.charges.fixedFraction -
            request.curve.roundTripCoefficient * √root = 0 ∧
          request.curve.sizeMin ≤ root ∧ root ≤ request.curve.sizeMax ∧ maxFraction < root) ∧
      (result.breakEvenStatus = .aboveSupport ↔
        ∀ fraction, request.curve.sizeMin ≤ fraction → fraction ≤ request.curve.sizeMax →
          0 < f.prediction.samples.sum / f.prediction.samples.length -
            request.charges.fixedFraction - request.curve.roundTripCoefficient * √fraction) ∧
      result.breakEvenStatus ≠ .belowSupport ∧
      (result.bindingLimits = ["entry_gate"] ↔
        ∃ lots : Int, result.quantityBase < request.market.quantityStep * lots ∧
          Allowed request lots ∧ ¬ Enters strategy request lots) ∧
      (result.bindingLimits ≠ ["entry_gate"] → ∀ name, name ∈ result.bindingLimits ↔
        ∃ bound, (name, bound) ∈ request.limits ∧
          ∀ other ∈ request.limits, bound ≤ other.2) := by
  rcases sizePosition_cases h hresult with ⟨_, hzero, _⟩ | ⟨f, feasibleLast, q, hsettled, rfl⟩
  · rw [hzero] at hquantity
    exact absurd hquantity (lt_irrefl 0)
  · have hgate := hsettled.edge_pos h
    have hsupport := supported hsettled.gate.first_le hsettled.gate.le_last
    have hedge : 0 < request.edgeOf f :=
      (mul_nonneg hpos.le (Real.sqrt_nonneg _)).trans_lt hgate
    have hmin : request.curve.roundTripCoefficient * √request.curve.sizeMin < request.edgeOf f :=
      (mul_le_mul_of_nonneg_left (Real.sqrt_le_sqrt hsupport.1) hpos.le).trans_lt hgate
    have hfraction : q.fraction = request.fractionOf (request.chosen f feasibleLast) :=
      (quote_spec h hsettled.first_le (hsettled.le_feasible.trans hsettled.gate.le_last)
        hsettled.quoted).1
    refine ⟨f, request.fractionOf feasibleLast, hsettled.cleared.1, rfl, ?_, ?_,
      breakEven_above hpos hmin, breakEven_below hmin, ?_, ?_⟩
    · exact hfraction.trans_le (fractionOf_mono request hsettled.le_feasible)
    · intro hwithin
      obtain ⟨root, hroot, hsolves, hge, hle, hbeyond⟩ := breakEven_root hpos hedge hwithin
      exact ⟨root, hroot, hsolves, hge, hle, hbeyond _ hgate⟩
    · exact (binding_gate request feasibleLast).trans hsettled.refused_iff.symm
    · intro hne
      have hlast := not_lt.mp (mt (binding_gate request feasibleLast).mpr hne)
      exact binding_limits hlast

theorem capacity_consistent_twoLots :
    ∃ result maxFraction, sizePosition Real.sqrt lotStrategy lotRequest = .ok result ∧
      result.feasibleMaxAdvFraction = some maxFraction ∧ result.advFraction ≤ maxFraction ∧
      result.breakEvenStatus ≠ .belowSupport := by
  obtain ⟨f, feasibleLast, q, hsettled, hresult⟩ := sizePosition_entered lotRequest_sizable
    (by rw [lotRequest_first, lotRequest_last]; norm_num) lotRequest_enters
  have hquantity : 0 < q.quantity := by
    rw [(quote_ok hsettled.quoted).1]
    have hlots := one_le_lots hsettled.first_le
    exact mul_pos lotRequest.market.step_pos (by exact_mod_cast hlots)
  have hpos : 0 < lotRequest.curve.roundTripCoefficient := by
    norm_num [ImpactCurve.roundTripCoefficient, lotRequest, lotCurve]
  obtain ⟨_, maxFraction, _, hmax, hle, _, _, hbelow, _⟩ :=
    capacity_consistent lotRequest_sizable hresult hquantity hpos
  exact ⟨_, maxFraction, hresult, hmax, hle, hbelow⟩

end Strategy
end PerpCarry
