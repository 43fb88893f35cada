import Mathlib.Order.Lattice
import PerpCarry.Lib.PartitionPoint

/-!
# Lib.KeyCut

A list in nondecreasing order of a key, cut at a key.

On such a list the scans `takeWhile` and `dropWhile` are filters, so what a merge loop takes for one
key after another can be said without the order in which it was taken.

* `le_getLast`: nothing is later than the last element.
* `takeWhile_lt`, `dropWhile_lt`: the scan over the elements before `k`.
* `takeWhile_at`, `dropWhile_at`: the scan over those at `k`, behind the first.
* `before_append_at`: those before `k`, then those at `k`, are those up to `k`.
* `upTo_append_after`: the elements up to `k`, then those after it, are the list.
-/

namespace PerpCarry
namespace Lib

variable {α κ : Type*}

theorem Partitioned.takeWhile_eq {p : α → Bool} {xs : List α} (h : Partitioned p xs) :
    xs.takeWhile p = xs.filter p := by
  nth_rewrite 2 [← List.takeWhile_append_dropWhile (p := p) (l := xs)]
  have hdrop : (xs.dropWhile p).filter p = [] := by
    rw [List.filter_eq_nil_iff]
    intro x hx
    rw [partitioned_dropWhile h x hx]
    exact Bool.false_ne_true
  have htake : (xs.takeWhile p).filter p = xs.takeWhile p := by
    rw [List.filter_eq_self]
    exact fun x hx => List.mem_takeWhile_imp hx
  rw [List.filter_append, hdrop, htake, List.append_nil]

theorem Partitioned.dropWhile_eq {p : α → Bool} {xs : List α} (h : Partitioned p xs) :
    xs.dropWhile p = xs.filter fun x => !p x := by
  nth_rewrite 2 [← List.takeWhile_append_dropWhile (p := p) (l := xs)]
  have hdrop : ((xs.dropWhile p).filter fun x => !p x) = xs.dropWhile p := by
    rw [List.filter_eq_self]
    intro x hx
    rw [partitioned_dropWhile h x hx]
    rfl
  have htake : ((xs.takeWhile p).filter fun x => !p x) = [] := by
    rw [List.filter_eq_nil_iff]
    intro x hx
    rw [List.mem_takeWhile_imp hx]
    exact Bool.false_ne_true
  rw [List.filter_append, hdrop, htake, List.nil_append]

theorem Partitioned.filter_append {p : α → Bool} {xs : List α} (h : Partitioned p xs) :
    (xs.filter p ++ xs.filter fun x => !p x) = xs := by
  rw [← h.takeWhile_eq, ← h.dropWhile_eq, List.takeWhile_append_dropWhile]

section Cut

variable [LinearOrder κ] {key : α → κ} {k : κ} {xs : List α}

def Nondecreasing (key : α → κ) (xs : List α) : Prop := xs.Pairwise fun a b => key a ≤ key b

theorem Nondecreasing.le_getLast (h : Nondecreasing key xs) (hne : xs ≠ []) {x : α} (hx : x ∈ xs) :
    key x ≤ key (xs.getLast hne) := by
  generalize hlast : xs.getLast hne = last
  rw [← List.dropLast_append_getLast hne, hlast] at h hx
  rcases List.mem_append.mp hx with hfront | hend
  · exact (List.pairwise_append.mp h).2.2 x hfront last (List.mem_singleton_self last)
  · rw [List.mem_singleton.mp hend]

theorem Nondecreasing.before (h : Nondecreasing key xs) :
    Partitioned (fun x => key x < k) xs := by
  refine h.imp ?_
  intro a b hab hb
  rw [decide_eq_true_eq] at hb ⊢
  exact hab.trans_lt hb

theorem Nondecreasing.takeWhile_lt (h : Nondecreasing key xs) :
    (xs.takeWhile fun x => key x < k) = xs.filter fun x => key x < k :=
  h.before.takeWhile_eq

theorem Nondecreasing.dropWhile_lt (h : Nondecreasing key xs) :
    (xs.dropWhile fun x => key x < k) = xs.filter fun x => k ≤ key x := by
  rw [h.before.dropWhile_eq]
  refine List.filter_congr ?_
  intro x _
  rw [← decide_not]
  exact decide_eq_decide.mpr not_lt

/-- Behind the elements before `k`, those at `k` come first. -/
theorem Nondecreasing.at (h : Nondecreasing key xs) :
    Partitioned (fun x => key x = k) (xs.filter fun x => k ≤ key x) := by
  have hfrom : (xs.filter fun x => k ≤ key x).Pairwise fun a b => key a ≤ key b :=
    List.Pairwise.filter _ h
  refine hfrom.imp_of_mem ?_
  intro a b ha _ hab hb
  rw [decide_eq_true_eq] at hb ⊢
  have hka := (List.mem_filter.mp ha).2
  rw [decide_eq_true_eq] at hka
  exact le_antisymm (hb ▸ hab) hka

theorem filter_both {p q r : α → Bool} (h : ∀ x, p x = true ∧ q x = true ↔ r x = true) :
    (xs.filter q).filter p = xs.filter r := by
  rw [List.filter_filter]
  refine List.filter_congr ?_
  intro x _
  rw [Bool.eq_iff_iff, Bool.and_eq_true]
  exact h x

theorem Nondecreasing.takeWhile_at (h : Nondecreasing key xs) :
    ((xs.filter fun x => k ≤ key x).takeWhile fun x => key x = k) =
      xs.filter fun x => key x = k := by
  rw [h.at.takeWhile_eq]
  refine filter_both ?_
  intro x
  simp only [decide_eq_true_eq]
  exact ⟨fun hx => hx.1, fun hx => ⟨hx, hx.ge⟩⟩

theorem Nondecreasing.dropWhile_at (h : Nondecreasing key xs) :
    ((xs.filter fun x => k ≤ key x).dropWhile fun x => key x = k) =
      xs.filter fun x => k < key x := by
  rw [h.at.dropWhile_eq]
  refine filter_both ?_
  intro x
  simp only [← decide_not, decide_eq_true_eq]
  exact ⟨fun hx => lt_of_le_of_ne hx.2 (Ne.symm hx.1), fun hx => ⟨hx.ne', hx.le⟩⟩

theorem Nondecreasing.before_append_at (h : Nondecreasing key xs) :
    ((xs.filter fun x => key x < k) ++ xs.filter fun x => key x = k) =
      xs.filter fun x => key x ≤ k := by
  have hupTo : Nondecreasing key (xs.filter fun x => key x ≤ k) :=
    List.Pairwise.filter _ h
  have hsplit := (hupTo.before (k := k)).filter_append
  rw [← hsplit]
  congr 1
  · refine (filter_both ?_).symm
    intro x
    simp only [decide_eq_true_eq]
    exact ⟨fun hx => hx.1, fun hx => ⟨hx, hx.le⟩⟩
  · refine (filter_both ?_).symm
    intro x
    simp only [← decide_not, decide_eq_true_eq]
    exact ⟨fun hx => le_antisymm hx.2 (not_lt.mp hx.1), fun hx => ⟨hx.not_lt, hx.le⟩⟩

theorem Nondecreasing.upTo (h : Nondecreasing key xs) :
    Partitioned (fun x => key x ≤ k) xs := by
  refine h.imp ?_
  intro a b hab hb
  rw [decide_eq_true_eq] at hb ⊢
  exact hab.trans hb

theorem Nondecreasing.upTo_append_after (h : Nondecreasing key xs) :
    ((xs.filter fun x => key x ≤ k) ++ xs.filter fun x => k < key x) = xs := by
  have hafter : (xs.filter fun x => k < key x) =
      xs.filter fun x => !decide (key x ≤ k) := by
    refine List.filter_congr ?_
    intro x _
    rw [← decide_not]
    exact decide_eq_decide.mpr not_le.symm
  rw [hafter]
  exact h.upTo.filter_append

end Cut

end Lib
end PerpCarry
