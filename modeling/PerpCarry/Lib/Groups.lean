import Mathlib.Data.List.TakeWhile
import Mathlib.Order.Basic
import Mathlib.Tactic.NthRewrite

/-!
# Lib.Groups

The consecutive elements of a list that share a key, as groups.

* `groups_flatMap`: nothing is lost, doubled or reordered.
* `groups_key`: a group is not empty, and its elements have its key.
* `groups_block`, `groups_takeWhile`: the first group.
* `flatMap_filter`: groups picked by their keys hold the elements picked by theirs.
* `groups_increasing`: over a list in order of its keys, the groups' keys increase.
-/

namespace PerpCarry
namespace Lib

variable {α κ : Type}

section Keys

variable [DecidableEq κ]

def groups (key : α → κ) : List α → List (κ × List α)
  | [] => []
  | x :: xs =>
    match groups key xs with
    | [] => [(key x, [x])]
    | (k, ys) :: gs => if key x = k then (k, x :: ys) :: gs else (key x, [x]) :: (k, ys) :: gs

/-- One more element in front joins the first group or makes one of its own. -/
theorem groups_cons (key : α → κ) (x : α) (xs : List α) :
    (∃ ys gs, groups key xs = (key x, ys) :: gs ∧
        groups key (x :: xs) = (key x, x :: ys) :: gs) ∨
      (∀ g ∈ (groups key xs).head?, key x ≠ g.1) ∧
        groups key (x :: xs) = (key x, [x]) :: groups key xs := by
  simp only [groups]
  split
  · rename_i hnone
    refine .inr ⟨?_, by rw [hnone]⟩
    rw [hnone]
    exact fun _ hg => nomatch hg
  · rename_i k ys gs hsome
    split
    · rename_i hkey
      subst hkey
      exact .inl ⟨ys, gs, hsome, rfl⟩
    · rename_i hkey
      refine .inr ⟨?_, by rw [hsome]⟩
      rw [hsome]
      rintro _ ⟨⟩
      exact hkey

variable {key : α → κ} {xs : List α}

theorem groups_flatMap (key : α → κ) (xs : List α) : (groups key xs).flatMap Prod.snd = xs := by
  induction xs with
  | nil => rfl
  | cons x xs ih =>
    rcases groups_cons key x xs with ⟨ys, gs, hxs, hcons⟩ | ⟨_, hcons⟩
    · rw [hxs] at ih
      rw [hcons]
      exact congrArg (x :: ·) ih
    · rw [hcons]
      exact congrArg (x :: ·) ih

theorem groups_key {g : κ × List α} (h : g ∈ groups key xs) :
    g.2 ≠ [] ∧ ∀ x ∈ g.2, key x = g.1 := by
  induction xs generalizing g with
  | nil => cases h
  | cons x xs ih =>
    rcases groups_cons key x xs with ⟨ys, gs, hxs, hcons⟩ | ⟨_, hcons⟩
    · rw [hcons] at h
      rcases List.mem_cons.mp h with rfl | h
      · refine ⟨List.cons_ne_nil _ _, ?_⟩
        intro y hy
        rcases List.mem_cons.mp hy with rfl | hy
        · rfl
        · have hmem : (key x, ys) ∈ groups key xs := by
            rw [hxs]
            exact List.mem_cons_self ..
          exact (ih hmem).2 y hy
      · refine ih ?_
        rw [hxs]
        exact List.mem_cons_of_mem _ h
    · rw [hcons] at h
      rcases List.mem_cons.mp h with rfl | h
      · exact ⟨List.cons_ne_nil _ _, by simp⟩
      · exact ih h

theorem groups_mem {g : κ × List α} (h : g ∈ groups key xs) : ∃ x ∈ xs, key x = g.1 := by
  obtain ⟨hne, hkey⟩ := groups_key h
  obtain ⟨x, hx⟩ := List.exists_mem_of_ne_nil _ hne
  refine ⟨x, ?_, hkey x hx⟩
  rw [← groups_flatMap key xs]
  exact List.mem_flatMap.mpr ⟨g, h, hx⟩

/-- A block of one key before a list that does not begin with that key. -/
theorem groups_block {c : κ} {xs rest : List α} (hxs : xs ≠ []) (hkey : ∀ x ∈ xs, key x = c)
    (hrest : ∀ g ∈ (groups key rest).head?, c ≠ g.1) :
    groups key (xs ++ rest) = (c, xs) :: groups key rest := by
  induction xs with
  | nil => exact absurd rfl hxs
  | cons x xs ih =>
    obtain ⟨hx, hxs⟩ := List.forall_mem_cons.mp hkey
    subst hx
    cases xs with
    | nil =>
      rw [List.singleton_append]
      rcases groups_cons key x rest with ⟨ys, gs, hgroups, -⟩ | ⟨-, hcons⟩
      · rw [hgroups] at hrest
        exact absurd rfl (hrest _ rfl)
      · exact hcons
    | cons y ys =>
      rw [List.cons_append, groups, ih (List.cons_ne_nil _ _) hxs]
      simp

/-- The first group is what the list begins with, up to the first other key. -/
theorem groups_takeWhile (key : α → κ) (x : α) (xs : List α) :
    groups key (x :: xs) =
      (key x, x :: xs.takeWhile fun y => key y = key x) ::
        groups key (xs.dropWhile fun y => key y = key x) := by
  have hsplit : x :: xs = (x :: xs.takeWhile fun y => key y = key x) ++
      xs.dropWhile fun y => key y = key x := by
    rw [List.cons_append, List.takeWhile_append_dropWhile]
  nth_rewrite 1 [hsplit]
  refine groups_block (List.cons_ne_nil _ _) ?_ ?_
  · intro y hy
    rcases List.mem_cons.mp hy with rfl | hy
    · rfl
    · simpa using List.mem_takeWhile_imp hy
  · intro g hg hkey
    cases hrest : xs.dropWhile fun y => key y = key x with
    | nil => rw [hrest] at hg; cases hg
    | cons y ys =>
      have hy := List.head?_dropWhile_not (fun y => key y = key x) xs
      rw [hrest] at hg hy
      have hfirst : g.1 = key y := by
        rcases groups_cons key y ys with ⟨zs, gs, -, hcons⟩ | ⟨-, hcons⟩
        · rw [hcons] at hg; cases hg; rfl
        · rw [hcons] at hg; cases hg; rfl
      simp [← hfirst, ← hkey] at hy

end Keys

/-- Picking groups by their keys is picking elements by theirs. -/
theorem flatMap_filter {key : α → κ} {gs : List (κ × List α)} (h : ∀ g ∈ gs, ∀ x ∈ g.2, key x = g.1)
    (p : κ → Bool) :
    (gs.filter fun g => p g.1).flatMap Prod.snd =
      (gs.flatMap Prod.snd).filter fun x => p (key x) := by
  induction gs with
  | nil => rfl
  | cons g gs ih =>
    have hrest := ih fun g' hg' => h g' (List.mem_cons_of_mem _ hg')
    have hkey : ∀ x ∈ g.2, p (key x) = p g.1 := by
      intro x hx
      rw [h g (List.mem_cons_self ..) x hx]
    rw [List.flatMap_cons, List.filter_append, ← hrest, List.filter_cons]
    by_cases hp : p g.1 = true
    · have hall : (g.2.filter fun x => p (key x)) = g.2 :=
        List.filter_eq_self.mpr fun x hx => (hkey x hx).trans hp
      rw [if_pos hp, List.flatMap_cons, hall]
    · have hnone : (g.2.filter fun x => p (key x)) = [] :=
        List.filter_eq_nil_iff.mpr fun x hx => by rw [hkey x hx]; exact hp
      rw [if_neg hp, hnone, List.nil_append]

theorem groups_increasing [PartialOrder κ] [DecidableEq κ] {key : α → κ} {xs : List α}
    (h : xs.Pairwise fun x y => key x ≤ key y) :
    (groups key xs).Pairwise fun g g' => g.1 < g'.1 := by
  induction xs with
  | nil => exact .nil
  | cons x xs ih =>
    obtain ⟨hfirst, hrest⟩ := List.pairwise_cons.mp h
    have hgroups := ih hrest
    rcases groups_cons key x xs with ⟨ys, gs, hxs, hcons⟩ | ⟨hnew, hcons⟩
    · rw [hxs] at hgroups
      rw [hcons]
      exact .cons (List.pairwise_cons.mp hgroups).1 (List.pairwise_cons.mp hgroups).2
    · rw [hcons]
      refine .cons ?_ hgroups
      have hle : ∀ g ∈ groups key xs, key x ≤ g.1 := by
        intro g hg
        obtain ⟨y, hy, hkey⟩ := groups_mem hg
        rw [← hkey]
        exact hfirst y hy
      cases hgs : groups key xs with
      | nil => exact fun _ hg => nomatch hg
      | cons g gs =>
        rw [hgs] at hle hnew hgroups
        have hg : key x < g.1 := lt_of_le_of_ne (hle g (List.mem_cons_self ..)) (hnew g rfl)
        intro g' hg'
        rcases List.mem_cons.mp hg' with rfl | hg'
        · exact hg
        · exact hg.trans ((List.pairwise_cons.mp hgroups).1 g' hg')

end Lib
end PerpCarry
