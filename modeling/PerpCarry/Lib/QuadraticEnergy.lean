import Mathlib.Algebra.Order.Group.Defs
import Mathlib.Algebra.Group.Basic

/-!
# Lib.QuadraticEnergy

Energies with one lowest point: a definite form around a centre, above a floor.

* `Represents.unique`: an energy has one centre and one floor.
* `Represents.floor_le`: the floor is below every value.
* `Represents.congr`: the same energy by another form with the same values.
-/

namespace PerpCarry
namespace Lib

variable {V K : Type}

/-- Zero at zero, and positive elsewhere. -/
structure DefiniteForm [AddCommGroup V] [AddCommGroup K] [LinearOrder K] (form : V → K) : Prop where
  zero : form 0 = 0
  pos : ∀ v, v ≠ 0 → 0 < form v

/-- The energy is the form around the centre, above the floor. -/
def Represents [AddCommGroup V] [AddCommGroup K] (form : V → K) (center : V) (floor : K)
    (energy : V → K) : Prop :=
  ∀ v, energy v = form (v - center) + floor

variable [AddCommGroup V] [AddCommGroup K] {form : V → K} {center center' : V} {floor floor' : K}
  {energy : V → K}

theorem Represents.congr {form' : V → K} (h : Represents form center floor energy)
    (hform : ∀ v, form' v = form v) : Represents form' center floor energy := by
  intro v
  rw [hform]
  exact h v

variable [LinearOrder K]

namespace DefiniteForm

theorem nonneg (h : DefiniteForm form) (v : V) : 0 ≤ form v := by
  by_cases hv : v = 0
  · rw [hv, h.zero]
  · exact (h.pos v hv).le

theorem eq_zero (h : DefiniteForm form) {v : V} (hv : form v = 0) : v = 0 := by
  by_contra hne
  exact (h.pos v hne).ne' hv

end DefiniteForm

namespace Represents

theorem at_center (hform : DefiniteForm form) (h : Represents form center floor energy) :
    energy center = floor := by
  rw [h center, sub_self, hform.zero, zero_add]

variable [IsOrderedAddMonoid K]

theorem floor_le (hform : DefiniteForm form) (h : Represents form center floor energy) (v : V) :
    floor ≤ energy v := by
  rw [h v]
  exact le_add_of_nonneg_left (hform.nonneg _)

theorem unique (hform : DefiniteForm form) (h : Represents form center floor energy)
    (h' : Represents form center' floor' energy) : center = center' ∧ floor = floor' := by
  have hfloor : floor = floor' := by
    refine le_antisymm ?_ ?_
    · rw [← h'.at_center hform]
      exact h.floor_le hform center'
    · rw [← h.at_center hform]
      exact h'.floor_le hform center
  have hvalue := h'.at_center hform
  rw [h center', hfloor, add_eq_right] at hvalue
  exact ⟨(sub_eq_zero.mp (hform.eq_zero hvalue)).symm, hfloor⟩

end Represents

end Lib
end PerpCarry
