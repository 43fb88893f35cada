import Mathlib.Data.List.Dedup
import Mathlib.Data.List.Pairwise
import Mathlib.Data.List.Sort

/-!
# Lib.Frame

The operations of a data frame whose rows are the elements of a list. A mask is `List.filter`.

* `mem_unique`, `unique_increasing`: the values, each once and in order.
* `unique_of_increasing`, `unique_length`: nothing to do on such a list; never longer.
* `mem_groupby`: a group is all the rows of its key, in their order.
* `sortValues_eq`: sorting finds a list that is strictly in order.
* `sortValues_head`: which row a stable sort puts first.
* `filter_sortValues`: masking a sorted frame is sorting the masked one.
* `sortValues_congr`: with a key that tells rows apart, sorting forgets the order of the rows.
-/

namespace PerpCarry
namespace Lib

variable {α κ : Type} [LinearOrder κ]

/-- `np.unique(xs)`. -/
def unique (xs : List κ) : List κ := xs.dedup.insertionSort (· ≤ ·)

/-- `frame.groupby(key, sort=True)`. -/
def groupby (key : α → κ) (xs : List α) : List (κ × List α) :=
  (unique (xs.map key)).map fun k => (k, xs.filter fun x => key x = k)

/-- `frame.sort_values(key, kind="stable")`. -/
def sortValues (key : α → κ) (xs : List α) : List α := xs.insertionSort fun x y => key x ≤ key y

theorem mem_unique {k : κ} {xs : List κ} : k ∈ unique xs ↔ k ∈ xs := by
  unfold unique
  rw [List.mem_insertionSort, List.mem_dedup]

theorem unique_increasing (xs : List κ) : (unique xs).Pairwise (· < ·) := by
  have hle : (unique xs).Pairwise (· ≤ ·) := List.pairwise_insertionSort _ _
  have hne : (unique xs).Pairwise (· ≠ ·) :=
    (List.perm_insertionSort _ _).nodup_iff.mpr (List.nodup_dedup xs)
  exact (hle.and hne).imp fun h => lt_of_le_of_ne h.1 h.2

theorem unique_of_increasing {xs : List κ} (h : xs.Pairwise (· < ·)) : unique xs = xs := by
  have hnodup : xs.Nodup := h.imp fun hlt => hlt.ne
  unfold unique
  rw [hnodup.dedup, (h.imp fun hlt => hlt.le).insertionSort_eq]

theorem unique_length (xs : List κ) : (unique xs).length ≤ xs.length := by
  unfold unique
  rw [List.length_insertionSort]
  exact xs.dedup_sublist.length_le

theorem unique_ne_nil {xs : List κ} (h : xs ≠ []) : unique xs ≠ [] := by
  obtain ⟨x, hx⟩ := List.exists_mem_of_ne_nil xs h
  exact List.ne_nil_of_mem (mem_unique.mpr hx)

theorem unique_singleton {x : κ} {xs : List κ} :
    unique xs = [x] ↔ xs ≠ [] ∧ ∀ y ∈ xs, y = x := by
  constructor
  · intro h
    have hmem : ∀ y, y ∈ xs ↔ y = x := fun y => by rw [← mem_unique, h, List.mem_singleton]
    exact ⟨List.ne_nil_of_mem ((hmem x).mpr rfl), fun y hy => (hmem y).mp hy⟩
  · rintro ⟨hne, hall⟩
    have hincreasing := unique_increasing xs
    cases hunique : unique xs with
    | nil => exact absurd hunique (unique_ne_nil hne)
    | cons a rest =>
      have hmem : ∀ y ∈ a :: rest, y = x := fun y hy => hall y (mem_unique.mp (hunique ▸ hy))
      obtain rfl := hmem a List.mem_cons_self
      cases rest with
      | nil => rfl
      | cons b rest =>
        rw [hunique] at hincreasing
        have hlt := (List.pairwise_cons.mp hincreasing).1 b List.mem_cons_self
        rw [hmem b (List.mem_cons_of_mem _ List.mem_cons_self)] at hlt
        exact absurd hlt (lt_irrefl _)

theorem mem_groupby {key : α → κ} {xs : List α} {g : κ × List α} :
    g ∈ groupby key xs ↔ (∃ x ∈ xs, key x = g.1) ∧ g.2 = xs.filter fun x => key x = g.1 := by
  unfold groupby
  simp only [List.mem_map, mem_unique]
  constructor
  · rintro ⟨k, hk, rfl⟩
    exact ⟨hk, rfl⟩
  · rintro ⟨hk, hrows⟩
    exact ⟨g.1, hk, Prod.ext rfl hrows.symm⟩

/-- Lists that a key tells apart, one after the other. -/
theorem nodup_flatMap_of_key {β γ : Type} (key : β → γ) {xs : List γ} {f : γ → List β}
    (hxs : xs.Nodup) (hnodup : ∀ x ∈ xs, (f x).Nodup) (hkey : ∀ x ∈ xs, ∀ y ∈ f x, key y = x) :
    (xs.flatMap f).Nodup := by
  rw [List.nodup_flatMap]
  refine ⟨hnodup, hxs.imp_of_mem ?_⟩
  intro a b ha hb hne y hya hyb
  exact hne ((hkey a ha y hya).symm.trans (hkey b hb y hyb))

section Sorting

variable {key : α → κ} {xs ys : List α}

theorem sortValues_perm (key : α → κ) (xs : List α) : (sortValues key xs).Perm xs :=
  List.perm_insertionSort _ xs

theorem sortValues_pairwise (key : α → κ) (xs : List α) :
    (sortValues key xs).Pairwise fun x y => key x ≤ key y :=
  have : Std.Total fun x y : α => key x ≤ key y := ⟨fun x y => le_total (key x) (key y)⟩
  have : IsTrans α fun x y => key x ≤ key y := ⟨fun _ _ _ => le_trans⟩
  List.pairwise_insertionSort _ xs

/-- Two sorted lists with the same rows are the same list. -/
theorem eq_of_sorted (hkey : Function.Injective key) (hperm : xs.Perm ys)
    (hxs : xs.Pairwise fun x y => key x ≤ key y) (hys : ys.Pairwise fun x y => key x ≤ key y) :
    xs = ys :=
  List.Perm.eq_of_pairwise (fun _ _ _ _ hle hge => hkey (le_antisymm hle hge)) hxs hys hperm

theorem eq_of_key_eq (hys : ys.Pairwise fun x y => key x < key y) {a b : α} (ha : a ∈ ys)
    (hb : b ∈ ys) (hkey : key a = key b) : a = b := by
  by_contra hne
  have : Std.Symm fun x y => key x ≠ key y := ⟨fun _ _ h => h.symm⟩
  exact (hys.imp fun h => h.ne).forall ha hb hne hkey

theorem sortValues_eq (hperm : xs.Perm ys) (hys : ys.Pairwise fun x y => key x < key y) :
    sortValues key xs = ys := by
  have hsorted := sortValues_perm key xs
  refine List.Perm.eq_of_pairwise ?_ (sortValues_pairwise key xs) (hys.imp fun h => h.le)
    (hsorted.trans hperm)
  intro a b ha hb hle hge
  exact eq_of_key_eq hys ((hsorted.trans hperm).subset ha) hb (le_antisymm hle hge)

theorem sortValues_congr (hkey : Function.Injective key) (h : xs.Perm ys) :
    sortValues key xs = sortValues key ys := by
  refine eq_of_sorted hkey ?_ (sortValues_pairwise key xs) (sortValues_pairwise key ys)
  exact ((sortValues_perm key xs).trans h).trans (sortValues_perm key ys).symm

/-- The first row after a stable sort is the first one of those with the least key. -/
theorem sortValues_head {first : α} : (sortValues key xs).head? = some first ↔
    ∃ before after, xs = before ++ first :: after ∧ (∀ x ∈ before, key first < key x) ∧
      ∀ x ∈ after, key first ≤ key x := by
  induction xs generalizing first with
  | nil => simp [sortValues]
  | cons x xs ih =>
    have hcons : sortValues key (x :: xs) =
        (sortValues key xs).orderedInsert (fun x y => key x ≤ key y) x := rfl
    have hskip : (sortValues key xs).head? = some first → key first < key x →
        ∃ before after, x :: xs = before ++ first :: after ∧ (∀ x ∈ before, key first < key x) ∧
          ∀ x ∈ after, key first ≤ key x := by
      intro hhead hlt
      obtain ⟨before, after, rfl, hbefore, hafter⟩ := ih.mp hhead
      exact ⟨x :: before, after, rfl, List.forall_mem_cons.mpr ⟨hlt, hbefore⟩, hafter⟩
    cases hsorted : sortValues key xs with
    | nil =>
      have hnil : xs = [] := List.nil_perm.mp (hsorted ▸ sortValues_perm key xs)
      rw [hcons, hsorted, hnil, List.orderedInsert_nil, List.head?_cons, Option.some.injEq]
      constructor
      · rintro rfl
        exact ⟨[], [], rfl, List.forall_mem_nil _, List.forall_mem_nil _⟩
      · rintro ⟨before, after, heq, _⟩
        cases before with
        | nil => exact (List.cons.inj heq).1
        | cons y before => simp at heq
    | cons least rest =>
      have hpairwise := sortValues_pairwise key xs
      rw [hsorted] at hpairwise hskip
      have hleast : ∀ y ∈ xs, key least ≤ key y := by
        intro y hy
        have hmem := (sortValues_perm key xs).mem_iff.mpr hy
        rw [hsorted] at hmem
        rcases List.mem_cons.mp hmem with rfl | hmem
        · exact le_rfl
        · exact (List.pairwise_cons.mp hpairwise).1 y hmem
      have hmem : least ∈ xs := (sortValues_perm key xs).mem_iff.mp (hsorted ▸ List.mem_cons_self)
      rw [hcons, hsorted, List.orderedInsert_cons]
      split
      · rename_i hle
        rw [List.head?_cons, Option.some.injEq]
        constructor
        · rintro rfl
          exact ⟨[], xs, rfl, List.forall_mem_nil _, fun y hy => hle.trans (hleast y hy)⟩
        · rintro ⟨before, after, heq, hbefore, hafter⟩
          cases before with
          | nil => exact (List.cons.inj heq).1
          | cons y before =>
            obtain ⟨rfl, rfl⟩ := List.cons.inj heq
            have hlt := hbefore x List.mem_cons_self
            have hfirst := hleast first (List.mem_append_right _ List.mem_cons_self)
            exact absurd (hle.trans hfirst) (not_le.mpr hlt)
      · rename_i hlt
        rw [List.head?_cons, Option.some.injEq]
        constructor
        · rintro rfl
          exact hskip rfl (not_le.mp hlt)
        · rintro ⟨before, after, heq, hbefore, hafter⟩
          cases before with
          | nil =>
            obtain ⟨rfl, rfl⟩ := List.cons.inj heq
            exact absurd (hafter least hmem) hlt
          | cons y before =>
            obtain ⟨rfl, rfl⟩ := List.cons.inj heq
            have hhead := ih.mpr ⟨before, after, rfl,
              fun y hy => hbefore y (List.mem_cons_of_mem _ hy), hafter⟩
            rw [hsorted, List.head?_cons] at hhead
            exact Option.some.inj hhead

theorem sortValues_map {β : Type} (f : β → α) (rows : List β) :
    sortValues key (rows.map f) = (sortValues (fun row => key (f row)) rows).map f :=
  (List.map_insertionSort _ _ f rows fun _ _ _ _ => Iff.rfl).symm

theorem filter_sortValues (hkey : Function.Injective key) (p : α → Bool) :
    (sortValues key xs).filter p = sortValues key (xs.filter p) := by
  refine eq_of_sorted hkey ?_ ((sortValues_pairwise key xs).filter p) (sortValues_pairwise key _)
  exact ((sortValues_perm key xs).filter p).trans (sortValues_perm key (xs.filter p)).symm

end Sorting

end Lib
end PerpCarry
