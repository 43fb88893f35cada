import Mathlib.Data.Multiset.Bind
import PerpCarry.Lib.Frame
import PerpCarry.Lib.Groups

/-!
# Lib.Melt

A wide table turned into a long one: one long row for each cell that is there.

* `pieces_perm`: column after column and row after row are the same long rows.
* `sortValues_pieces`: the columns' pieces, sorted, are the long rows of one wide row after another.
* `groups_blocks`: grouping the long rows gives back the wide rows that have a cell.
-/

namespace PerpCarry
namespace Lib

section Melt

variable {ρ ι β : Type}

/-- One column after another. -/
def pieces (cell : ι → ρ → Option β) (cells : List ι) (rows : List ρ) : List β :=
  cells.flatMap fun c => rows.filterMap (cell c)

/-- The long rows of a wide row. -/
def cellsOf (cell : ι → ρ → Option β) (cells : List ι) (row : ρ) : List β :=
  cells.filterMap fun c => cell c row

/-- One wide row after another. -/
def long (cell : ι → ρ → Option β) (cells : List ι) (rows : List ρ) : List β :=
  rows.flatMap (cellsOf cell cells)

variable {cell : ι → ρ → Option β} {cells : List ι} {rows : List ρ}

theorem filterMap_eq_flatMap {α γ : Type} (f : α → Option γ) (xs : List α) :
    xs.filterMap f = xs.flatMap fun x => (f x).toList := by
  induction xs with
  | nil => rfl
  | cons x xs ih =>
    rw [List.flatMap_cons, ← ih, List.filterMap_cons]
    cases f x <;> rfl

theorem pieces_perm (cell : ι → ρ → Option β) (cells : List ι) (rows : List ρ) :
    (pieces cell cells rows).Perm (long cell cells rows) := by
  have hswap := Multiset.bind_bind (cells : Multiset ι) (rows : Multiset ρ)
    (f := fun c row => ((cell c row).toList : Multiset β))
  have hrow : cellsOf cell cells = fun row => cells.flatMap fun c => (cell c row).toList :=
    funext fun row => filterMap_eq_flatMap (fun c => cell c row) cells
  rw [← Multiset.coe_eq_coe, long, hrow]
  simpa only [pieces, filterMap_eq_flatMap, Multiset.coe_bind] using hswap

end Melt

section Sorting

variable {α κ : Type} [LinearOrder κ] {key : α → κ} {xs ys : List α}

theorem sortValues_pieces {ρ ι : Type} {cell : ι → ρ → Option α} {cells : List ι} {rows : List ρ}
    (h : (long cell cells rows).Pairwise fun x y => key x < key y) :
    sortValues key (pieces cell cells rows) = long cell cells rows :=
  sortValues_eq (pieces_perm cell cells rows) h

end Sorting

section Blocks

variable {α ρ κ : Type} [DecidableEq κ] {key : α → κ} {f : ρ → List α} {k : ρ → κ} {rows : List ρ}

theorem groups_blocks (hkey : ∀ row ∈ rows, ∀ x ∈ f row, key x = k row)
    (hdistinct : rows.Pairwise fun a b => k a ≠ k b) :
    groups key (rows.flatMap f) =
      (rows.filter fun row => !(f row).isEmpty).map fun row => (k row, f row) := by
  induction rows with
  | nil => rfl
  | cons row rows ih =>
    obtain ⟨hrow, hkey⟩ := List.forall_mem_cons.mp hkey
    obtain ⟨hne, hdistinct⟩ := List.pairwise_cons.mp hdistinct
    have hrest := ih hkey hdistinct
    rw [List.flatMap_cons, List.filter_cons]
    cases hf : f row with
    | nil => simpa using hrest
    | cons x xs =>
      have hblock : groups key (f row ++ rows.flatMap f) =
          (k row, f row) :: groups key (rows.flatMap f) := by
        refine groups_block (by simp [hf]) hrow ?_
        intro g hg
        rw [hrest] at hg
        obtain ⟨other, hother, rfl⟩ := List.mem_map.mp (List.mem_of_mem_head? hg)
        exact hne other (List.mem_filter.mp hother).1
      rw [← hf, hblock, hrest]
      simp [hf]

end Blocks

end Lib
end PerpCarry
