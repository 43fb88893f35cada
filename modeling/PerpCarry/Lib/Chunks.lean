import Mathlib.Data.List.Basic

/-!
# Lib.Chunks

A list read in pieces of a given size, the last one shorter.

* `chunks_flatten`: nothing is lost, doubled or reordered.
* `chunks_ne_nil`: no piece is empty.
-/

namespace PerpCarry
namespace Lib

variable {α : Type}

/-- At most `fuel` pieces of `size` elements. -/
def chunksUpTo (size : Nat) : Nat → List α → List (List α)
  | 0, _ => []
  | fuel + 1, xs =>
    if xs.isEmpty then [] else xs.take size :: chunksUpTo size fuel (xs.drop size)

def chunks (size : Nat) (xs : List α) : List (List α) := chunksUpTo size xs.length xs

theorem chunksUpTo_flatten {size fuel : Nat} (hsize : 1 ≤ size) {xs : List α}
    (h : xs.length ≤ fuel) : (chunksUpTo size fuel xs).flatten = xs := by
  induction fuel generalizing xs with
  | zero =>
    rw [List.length_eq_zero_iff.mp (Nat.le_zero.mp h)]
    rfl
  | succ fuel ih =>
    unfold chunksUpTo
    split
    · rename_i hempty
      rw [List.isEmpty_iff.mp hempty]
      rfl
    · rw [List.flatten_cons, ih, List.take_append_drop]
      rw [List.length_drop]
      omega

theorem chunksUpTo_ne_nil {size fuel : Nat} (hsize : 1 ≤ size) {xs piece : List α}
    (h : piece ∈ chunksUpTo size fuel xs) : piece ≠ [] := by
  induction fuel generalizing xs with
  | zero => cases h
  | succ fuel ih =>
    unfold chunksUpTo at h
    split at h
    · cases h
    · rename_i hne
      rcases List.mem_cons.mp h with rfl | h
      · intro hnil
        rcases List.take_eq_nil_iff.mp hnil with hzero | hnil
        · omega
        · exact hne (List.isEmpty_iff.mpr hnil)
      · exact ih h

variable {size : Nat} {xs piece : List α}

theorem chunks_flatten (hsize : 1 ≤ size) (xs : List α) : (chunks size xs).flatten = xs :=
  chunksUpTo_flatten hsize (Nat.le_refl _)

theorem chunks_ne_nil (hsize : 1 ≤ size) (h : piece ∈ chunks size xs) : piece ≠ [] :=
  chunksUpTo_ne_nil hsize h

end Lib
end PerpCarry
