import Mathlib.Algebra.Order.Group.Nat
import Mathlib.Data.List.Basic

/-!
# Lib.Cursor

The loop `while cursor <= last: yield cursor; cursor = following(cursor)` over things that a key
puts in order.

* `mem_upTo`: it yields the things from the cursor to the last one.
-/

namespace PerpCarry
namespace Lib
namespace Cursor

variable {α : Type*} (key : α → Nat) (following : α → Option α)

/-- The loop, for at most this many steps. -/
def upTo (last : Nat) : Nat → α → List α
  | 0, _ => []
  | fuel + 1, cursor =>
    if key cursor ≤ last then
      cursor :: match following cursor with
        | some a => upTo last fuel a
        | none => []
    else []

/-- `following` is the next thing in the order of `key`. -/
structure Successor : Prop where
  later : ∀ {a b}, following a = some b → key a < key b
  least : ∀ {a b c}, following a = some b → key a < key c → key b ≤ key c
  final : ∀ {a c}, following a = none → key c ≤ key a
  unique : ∀ {a b}, key a = key b → a = b

variable {key following} {last fuel : Nat} {cursor a : α}

theorem mem_upTo (h : Successor key following) (hfuel : last < key cursor + fuel) :
    a ∈ upTo key following last fuel cursor ↔ key cursor ≤ key a ∧ key a ≤ last := by
  induction fuel generalizing cursor with
  | zero =>
    simp only [upTo, List.not_mem_nil, false_iff]
    omega
  | succ fuel ih =>
    unfold upTo
    split
    · rename_i hcursor
      rw [List.mem_cons]
      cases hfollowing : following cursor with
      | none =>
        have hfinal := h.final (c := a) hfollowing
        simp only [List.not_mem_nil, or_false]
        constructor
        · rintro rfl
          exact ⟨le_rfl, hcursor⟩
        · intro hbounds
          exact h.unique (by omega)
      | some b =>
        have hlater := h.later hfollowing
        dsimp only
        rw [ih (by omega)]
        constructor
        · rintro (rfl | hbounds)
          · exact ⟨le_rfl, hcursor⟩
          · omega
        · intro hbounds
          rcases Nat.lt_or_ge (key cursor) (key a) with hlt | hge
          · exact .inr ⟨h.least hfollowing hlt, hbounds.2⟩
          · exact .inl (h.unique (by omega))
    · simp only [List.not_mem_nil, false_iff]
      omega

end Cursor
end Lib
end PerpCarry
