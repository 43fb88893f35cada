import Mathlib.Data.List.Infix

/-!
# Lib.KeyRuns

The last run of a list: its longest end without a change of key.

* `changes_concat`, `lastRun_concat`: one more element at the end.
* `lastRun_suffix`: the last run is an end of the list.
-/

namespace PerpCarry
namespace Lib

variable {α κ : Type} [DecidableEq κ]

/-- How often the key changes from one element to the next. -/
def changes (key : α → κ) : List α → Nat
  | [] => 0
  | [_] => 0
  | x :: y :: rest => (if key x = key y then 0 else 1) + changes key (y :: rest)

/-- The elements since the last change of key, with the one that changed it. -/
def lastRun (key : α → κ) : List α → List α
  | [] => []
  | x :: rest => if changes key (x :: rest) = 0 then x :: rest else lastRun key rest

/-- The new element has another key than the last one. -/
def Differs (key : α → κ) (last : Option α) (x : α) : Prop := ∃ y ∈ last, key y ≠ key x

instance (key : α → κ) (last : Option α) (x : α) : Decidable (Differs key last x) := by
  unfold Differs
  cases last with
  | none => exact .isFalse (by simp)
  | some y => exact decidable_of_iff (key y ≠ key x) (by simp)

variable {key : α → κ}

theorem changes_concat (xs : List α) (x : α) :
    changes key (xs ++ [x]) = changes key xs + if Differs key xs.getLast? x then 1 else 0 := by
  induction xs with
  | nil => simp [changes, Differs]
  | cons y ys ih =>
    cases ys with
    | nil =>
      by_cases h : key y = key x
      · simp [changes, Differs, h]
      · simp [changes, Differs, h]
    | cons z zs =>
      have hlast : (y :: z :: zs).getLast? = (z :: zs).getLast? := by simp
      show (if key y = key z then 0 else 1) + changes key (z :: zs ++ [x]) = _
      rw [ih, hlast, ← Nat.add_assoc]
      rfl

theorem lastRun_suffix (xs : List α) : lastRun key xs <:+ xs := by
  induction xs with
  | nil => exact List.suffix_refl []
  | cons x xs ih =>
    unfold lastRun
    split
    · exact List.suffix_refl _
    · exact ih.trans (List.suffix_cons x xs)

theorem lastRun_concat (xs : List α) (x : α) :
    lastRun key (xs ++ [x]) =
      if Differs key xs.getLast? x then [x] else lastRun key xs ++ [x] := by
  induction xs with
  | nil => simp [lastRun, changes, Differs]
  | cons y ys ih =>
    have hcount := @changes_concat _ _ _ key (y :: ys) x
    show (if changes key (y :: ys ++ [x]) = 0 then y :: ys ++ [x] else lastRun key (ys ++ [x])) = _
    rw [hcount, ih]
    cases ys with
    | nil =>
      by_cases h : key y = key x
      · simp [lastRun, changes, Differs, h]
      · simp [lastRun, changes, Differs, h]
    | cons z zs =>
      have hlast : (y :: z :: zs).getLast? = (z :: zs).getLast? := by simp
      rw [hlast]
      by_cases hnew : Differs key (z :: zs).getLast? x
      · rw [if_pos hnew, if_pos hnew, if_neg (by omega), if_pos hnew]
      · rw [if_neg hnew, if_neg hnew, if_neg hnew, Nat.add_zero]
        conv_rhs => rw [lastRun]
        split
        · rfl
        · rfl

end Lib
end PerpCarry
