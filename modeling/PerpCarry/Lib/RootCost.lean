import Mathlib.Analysis.Real.Sqrt
import Mathlib.Tactic.Linarith
import Mathlib.Tactic.Positivity
import Mathlib.Tactic.FieldSimp

/-!
# Lib.RootCost

What a size `x` earns at an edge `e` when its cost grows with the root of the size.

* `rootProfit_rises`: strictly up to the size at which `e` is one and a half times the cost.
* `rootProfit_falls`: it falls strictly from there.
-/

namespace PerpCarry
namespace Lib

noncomputable def rootProfit (e k x : ℝ) : ℝ := x * (e - k * √x)

variable {e k x x' : ℝ}

/-- The increment of `y ↦ y ^ 2 * (e - k * y)`, written in roots. -/
theorem rootProfit_sub (hx : 0 ≤ x) (hx' : 0 ≤ x') :
    rootProfit e k x' - rootProfit e k x =
      (√x' - √x) * (e * (√x' + √x) - k * (√x' ^ 2 + √x' * √x + √x ^ 2)) := by
  unfold rootProfit
  obtain ⟨y, hy, rfl⟩ : ∃ y, 0 ≤ y ∧ x = y ^ 2 := ⟨√x, Real.sqrt_nonneg x, (Real.sq_sqrt hx).symm⟩
  obtain ⟨y', hy', rfl⟩ : ∃ y, 0 ≤ y ∧ x' = y ^ 2 :=
    ⟨√x', Real.sqrt_nonneg x', (Real.sq_sqrt hx').symm⟩
  rw [Real.sqrt_sq hy, Real.sqrt_sq hy']
  ring

theorem rootProfit_rises (he : 0 < e) (hk : 0 ≤ k) (hx : 0 ≤ x) (hlt : x < x')
    (htop : 3 / 2 * k * √x' ≤ e) : rootProfit e k x < rootProfit e k x' := by
  have hroot : √x < √x' := Real.sqrt_lt_sqrt hx hlt
  have hx0 := Real.sqrt_nonneg x
  rw [← sub_pos, rootProfit_sub hx (hx.trans hlt.le)]
  refine mul_pos (sub_pos.mpr hroot) ?_
  rcases hk.eq_or_lt with rfl | hk
  · have : 0 < e * (√x' + √x) := mul_pos he (by linarith)
    linarith
  · have hsum := mul_le_mul_of_nonneg_right htop (show 0 ≤ √x' + √x by linarith)
    have hgap : 0 < k * ((√x' - √x) * (√x' + 2 * √x)) :=
      mul_pos hk (mul_pos (sub_pos.mpr hroot) (by linarith))
    nlinarith only [hsum, hgap]

theorem rootProfit_falls (hk : 0 < k) (hx : 0 ≤ x) (hlt : x < x') (htop : e ≤ 3 / 2 * k * √x) :
    rootProfit e k x' < rootProfit e k x := by
  have hroot : √x < √x' := Real.sqrt_lt_sqrt hx hlt
  have hx0 := Real.sqrt_nonneg x
  rw [← sub_neg, rootProfit_sub hx (hx.trans hlt.le)]
  refine mul_neg_of_pos_of_neg (sub_pos.mpr hroot) ?_
  have hsum := mul_le_mul_of_nonneg_right htop (show 0 ≤ √x' + √x by linarith)
  have hgap : 0 < k * ((√x' - √x) * (2 * √x' + √x)) :=
    mul_pos hk (mul_pos (sub_pos.mpr hroot) (by linarith))
  nlinarith only [hsum, hgap]

/-- The size of the peak, squared out. -/
theorem root_le_peak (he : 0 ≤ e) (hk : 0 < k) :
    x ≤ (e / (3 / 2 * k)) ^ 2 ↔ 3 / 2 * k * √x ≤ e := by
  have hk' : 0 < 3 / 2 * k := by positivity
  rw [← Real.sqrt_le_left (div_nonneg he hk'.le), le_div_iff₀' hk']

end Lib
end PerpCarry
