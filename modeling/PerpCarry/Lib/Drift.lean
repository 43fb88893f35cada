import Mathlib.Algebra.Order.Group.Abs
import Mathlib.Data.List.Chain
import Mathlib.Tactic.Abel

/-!
# Lib.Drift

Points that follow each other by a fixed step, each time within a tolerance.

The tolerance is one of a single step, so what is known of a point far from both ends is the sum of
the tolerances on the way to it.

* `Paced.after`: a point by its distance from the first one.
* `Paced.before`: a point by its distance from the last one.
* `Paced.total`: the number of points between two ends.
-/

namespace PerpCarry
namespace Lib

/-- Two relations hold along a list if and only if each of them does. -/
theorem isChain_and {α : Type} {r s : α → α → Prop} {xs : List α} :
    xs.IsChain (fun a b => r a b ∧ s a b) ↔ xs.IsChain r ∧ xs.IsChain s := by
  induction xs with
  | nil => simp
  | cons x xs ih =>
    rw [List.isChain_cons, List.isChain_cons, List.isChain_cons, ih]
    constructor
    · rintro ⟨hhead, hr, hs⟩
      exact ⟨⟨fun y hy => (hhead y hy).1, hr⟩, fun y hy => (hhead y hy).2, hs⟩
    · rintro ⟨⟨hr, hrs⟩, hs, hss⟩
      exact ⟨fun y hy => ⟨hr y hy, hs y hy⟩, hrs, hss⟩

/-- A relation holds along a list if and only if it holds of its neighbours. -/
theorem isChain_iff_zip {α : Type} {r : α → α → Prop} {xs : List α} :
    xs.IsChain r ↔ ∀ pair ∈ xs.zip xs.tail, r pair.1 pair.2 := by
  induction xs with
  | nil => simp
  | cons x xs ih =>
    cases xs with
    | nil => simp
    | cons y ys =>
      rw [List.isChain_cons_cons, ih]
      simp only [List.tail_cons, List.zip_cons_cons, List.forall_mem_cons]

theorem forall_last_cons {α : Type} {p : α → Prop} {x : α} {xs : List α} :
    (∀ last ∈ (x :: xs).getLast?, p last) ↔ p (xs.getLastD x) := by
  rw [List.getLast?_cons, List.getLastD_eq_getLast?]
  simp only [Option.mem_def, Option.some.injEq, forall_eq']

variable {G : Type} [AddCommGroup G] [LinearOrder G]

def Paced (step tolerance : G) (points : List G) : Prop :=
  points.IsChain fun a b => |b - a - step| ≤ tolerance

namespace Paced

variable {step tolerance slack : G} {points : List G}

theorem reverse (h : Paced step tolerance points) : Paced (-step) tolerance points.reverse := by
  refine List.isChain_reverse.mpr (h.imp fun a b hab => ?_)
  have hneg : a - b - -step = -(b - a - step) := by abel
  rw [hneg, abs_neg]
  exact hab

variable [IsOrderedAddMonoid G]

/-- The `k`-th point, from an origin that the first point is close to. -/
theorem after {origin : G} (h : Paced step tolerance points)
    (hfirst : ∀ first ∈ points.head?, |first - origin| ≤ slack) {k : Nat} {point : G}
    (hk : points[k]? = some point) :
    |point - (origin + k • step)| ≤ slack + k • tolerance := by
  induction points generalizing origin slack k with
  | nil => cases hk
  | cons first rest ih =>
    have hclose := hfirst first rfl
    cases k with
    | zero =>
      obtain rfl : first = point := Option.some.inj hk
      rw [zero_nsmul, zero_nsmul, add_zero, add_zero]
      exact hclose
    | succ k =>
      have hnext : ∀ next ∈ rest.head?, |next - (origin + step)| ≤ slack + tolerance := by
        intro next hmem
        have hstep : |next - first - step| ≤ tolerance := (List.isChain_cons.mp h).1 next hmem
        have hsplit : next - (origin + step) = (first - origin) + (next - first - step) := by abel
        rw [hsplit]
        exact (abs_add_le _ _).trans (add_le_add hclose hstep)
      have hrest := ih (List.isChain_cons.mp h).2 hnext hk
      rw [succ_nsmul', succ_nsmul', ← add_assoc, ← add_assoc]
      exact hrest

/-- The point with `k` points after it, from an end that is one step after the last point. -/
theorem before {stop : G} (h : Paced step tolerance points)
    (hlast : ∀ last ∈ points.getLast?, |stop - last - step| ≤ slack) {k : Nat} {point : G}
    (hk : points.reverse[k]? = some point) :
    |point - (stop - (k + 1) • step)| ≤ slack + k • tolerance := by
  have hend : ∀ last ∈ points.reverse.head?, |last - (stop - step)| ≤ slack := by
    intro last hmem
    rw [List.head?_reverse] at hmem
    have hneg : last - (stop - step) = -(stop - last - step) := by abel
    rw [hneg, abs_neg]
    exact hlast last hmem
  have hpoint := h.reverse.after hend hk
  have horigin : stop - step + k • -step = stop - (k + 1) • step := by
    rw [succ_nsmul', neg_nsmul]
    abel
  rwa [horigin] at hpoint

/-- The two ends are as far apart as the number of points says. -/
theorem total {origin stop slack' : G} (h : Paced step tolerance points)
    (hfirst : ∀ first ∈ points.head?, |first - origin| ≤ slack)
    (hlast : ∀ last ∈ points.getLast?, |stop - last - step| ≤ slack') {n : Nat}
    (hlength : points.length = n + 1) :
    |stop - origin - points.length • step| ≤ slack + n • tolerance + slack' := by
  have hn : n < points.length := by omega
  have hget : points[n]? = some points[n] := List.getElem?_eq_getElem hn
  have hget' : points.getLast? = some points[n] := by
    rw [List.getLast?_eq_getElem?, hlength]
    exact hget
  have hpoint := h.after hfirst hget
  have hstop := hlast _ hget'
  have hsplit : stop - origin - points.length • step =
      (points[n] - (origin + n • step)) + (stop - points[n] - step) := by
    rw [hlength, succ_nsmul]
    abel
  rw [hsplit]
  exact (abs_add_le _ _).trans (add_le_add hpoint hstop)

end Paced

end Lib
end PerpCarry
