import Mathlib.Data.List.Basic
import Mathlib.Data.List.TakeWhile

/-!
# Lib.PartitionPoint

Binary search for the partition point of a list, as `std::lower_bound` performs it.

A list is partitioned by a predicate `p` when no element satisfying `p` stands after one that does
not (`Partitioned`). On such a list the bisection returns the number of leading elements that
satisfy `p` (`lowerBound_eq`), which is what the C++ standard specifies. On any other list it still
returns some index, about which nothing is said.
-/

namespace PerpCarry
namespace Lib

variable {α : Type*}

/-- The bisection on the range `[first, first + len)`. Every pass shortens the range, so `len`
passes reach the empty one. -/
def bisect (p : α → Bool) (xs : List α) : Nat → Nat → Nat → Nat
  | 0, first, _ => first
  | fuel + 1, first, len =>
    if len = 0 then first
    else
      match xs[first + len / 2]? with
      | none => first
      | some x =>
        if p x then bisect p xs fuel (first + len / 2 + 1) (len - len / 2 - 1)
        else bisect p xs fuel first (len / 2)

def lowerBound (p : α → Bool) (xs : List α) : Nat := bisect p xs xs.length 0 xs.length

/-- No element satisfying `p` stands after one that does not. -/
def Partitioned (p : α → Bool) (xs : List α) : Prop :=
  xs.Pairwise fun a b => p b = true → p a = true

/-- The leading elements of a partitioned list are exactly those that satisfy `p`. -/
theorem partitioned_getElem {p : α → Bool} {xs : List α} (h : Partitioned p xs) {i : Nat} {x : α}
    (hx : xs[i]? = some x) : p x = true ↔ i < (xs.takeWhile p).length := by
  induction xs generalizing i with
  | nil => simp at hx
  | cons a as ih =>
    obtain ⟨ha, has⟩ := List.pairwise_cons.mp h
    by_cases hp : p a = true
    · rw [List.takeWhile_cons_of_pos hp]
      cases i with
      | zero => simp at hx; subst hx; simp [hp]
      | succ i =>
        simp only [List.getElem?_cons_succ] at hx
        rw [ih has hx, List.length_cons]; omega
    · rw [List.takeWhile_cons_of_neg hp]
      have hpx : ¬ p x = true := by
        rcases List.mem_cons.mp (List.mem_of_getElem? hx) with rfl | hmem
        · exact hp
        · exact fun hx' => hp (ha x hmem hx')
      simp [hpx]

theorem partitioned_dropWhile {p : α → Bool} {xs : List α} (h : Partitioned p xs) :
    ∀ x ∈ xs.dropWhile p, p x = false := by
  intro x hx
  obtain ⟨i, hi⟩ := List.getElem?_of_mem hx
  have hget : xs[(xs.takeWhile p).length + i]? = some x := by
    rw [← hi]
    nth_rewrite 1 [← List.takeWhile_append_dropWhile (p := p) (l := xs)]
    rw [List.getElem?_append_right (by omega), Nat.add_sub_cancel_left]
  have := partitioned_getElem h hget
  cases hp : p x
  · rfl
  · exact absurd (this.mp hp) (by omega)

/-- The loop invariant: the range always holds the partition point `k`. -/
theorem bisect_eq {p : α → Bool} {xs : List α} {k : Nat}
    (hk : ∀ i x, xs[i]? = some x → (p x = true ↔ i < k)) :
    ∀ fuel first len : Nat, len ≤ fuel → first ≤ k → k ≤ first + len →
      first + len ≤ xs.length → bisect p xs fuel first len = k := by
  intro fuel
  induction fuel with
  | zero => intro first len _ _ _ _; simp only [bisect]; omega
  | succ fuel ih =>
    intro first len hfuel hfirst hlast hlen
    simp only [bisect]
    by_cases h0 : len = 0
    · rw [if_pos h0]; omega
    · have hmid : first + len / 2 < xs.length := by omega
      rw [if_neg h0, List.getElem?_eq_getElem hmid]
      have hpoint := hk _ _ (List.getElem?_eq_getElem hmid)
      simp only
      by_cases hp : p xs[first + len / 2] = true
      · have := hpoint.mp hp
        rw [if_pos hp]
        exact ih _ _ (by omega) (by omega) (by omega) (by omega)
      · have := mt hpoint.mpr hp
        rw [if_neg hp]
        exact ih _ _ (by omega) (by omega) (by omega) (by omega)

theorem lowerBound_eq {p : α → Bool} {xs : List α} (h : Partitioned p xs) :
    lowerBound p xs = (xs.takeWhile p).length := by
  have hle := (List.takeWhile_prefix p (l := xs)).length_le
  exact bisect_eq (fun _ _ hx => partitioned_getElem h hx) _ _ _ (Nat.le_refl _) (Nat.zero_le _)
    (by omega) (by omega)

end Lib
end PerpCarry
