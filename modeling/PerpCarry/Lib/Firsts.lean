import Mathlib.Data.List.Dedup
import Mathlib.Data.Set.Card
import Mathlib.Data.Set.Finite.List

/-!
# Lib.Firsts

A list without the elements whose key an earlier one has: what a hash table keeps of the values put
into it.

* `firsts_nodup`, `mem_keys_firsts`: every key once.
* `firsts_subset`: nothing is added.
* `length_eq_ncard`: with distinct keys, as many elements as keys.
-/

namespace PerpCarry
namespace Lib

variable {α κ : Type} [DecidableEq κ]

def firsts (key : α → κ) : List α → List α
  | [] => []
  | x :: xs => x :: (firsts key xs).filter fun y => key y ≠ key x

variable {key : α → κ} {xs : List α}

theorem firsts_subset : ∀ x ∈ firsts key xs, x ∈ xs := by
  induction xs with
  | nil => exact nofun
  | cons x xs ih =>
    intro y hy
    rcases List.mem_cons.mp hy with rfl | hy
    · exact List.mem_cons_self
    · exact List.mem_cons_of_mem _ (ih y (List.mem_of_mem_filter hy))

theorem firsts_nodup (key : α → κ) (xs : List α) : ((firsts key xs).map key).Nodup := by
  induction xs with
  | nil => exact .nil
  | cons x xs ih =>
    rw [firsts, List.map_cons, List.nodup_cons]
    constructor
    · intro hmem
      obtain ⟨y, hy, hkey⟩ := List.mem_map.mp hmem
      exact of_decide_eq_true (List.mem_filter.mp hy).2 hkey
    · exact ih.sublist (List.filter_sublist.map key)

theorem mem_keys_firsts {k : κ} : k ∈ (firsts key xs).map key ↔ k ∈ xs.map key := by
  induction xs with
  | nil => rfl
  | cons x xs ih =>
    simp only [firsts, List.map_cons, List.mem_cons]
    by_cases hk : k = key x
    · simp [hk]
    · rw [← ih]
      simp only [hk, false_or, List.mem_map, List.mem_filter, decide_eq_true_eq]
      constructor
      · rintro ⟨y, ⟨hy, -⟩, rfl⟩
        exact ⟨y, hy, rfl⟩
      · rintro ⟨y, hy, rfl⟩
        exact ⟨y, ⟨hy, hk⟩, rfl⟩

theorem dedup_length_le_one {ks : List κ} : ks.dedup.length ≤ 1 ↔ ∀ k ∈ ks, ∀ k' ∈ ks, k = k' := by
  constructor
  · intro h k hk k' hk'
    rw [← List.mem_dedup] at hk hk'
    obtain ⟨i, hi, rfl⟩ := List.getElem_of_mem hk
    obtain ⟨j, hj, rfl⟩ := List.getElem_of_mem hk'
    obtain rfl : i = j := by omega
    rfl
  · intro h
    by_contra hmany
    have hnodup := List.nodup_dedup ks
    have hzero : 0 < ks.dedup.length := by omega
    have hone : 1 < ks.dedup.length := by omega
    have heq : ks.dedup[0] = ks.dedup[1] :=
      h _ (List.mem_dedup.mp (List.getElem_mem hzero)) _ (List.mem_dedup.mp (List.getElem_mem hone))
    have := (hnodup.getElem_inj_iff).mp heq
    omega

theorem length_eq_ncard {ι : Type} {value : α → ι} (h : (xs.map value).Nodup) :
    xs.length = {v | ∃ x ∈ xs, v = value x}.ncard := by
  classical
  have hset : {v | ∃ x ∈ xs, v = value x} = ((xs.map value).toFinset : Set ι) := by
    ext v
    simp [eq_comm]
  rw [hset, Set.ncard_coe_finset, List.toFinset_card_of_nodup h, List.length_map]

end Lib
end PerpCarry
