import Mathlib.Data.List.Perm.Basic
import PerpCarry.Lib.EventRun

/-!
# Lib.Lanes

Runs whose events stand in lanes. Inside a lane the order of the events counts; events of different
lanes, or in no lane, may change places.

* `run_toFront`: an event is moved to the front over events it may change places with.
* `run_lanes`: two lists with the same events and the same lanes run alike.
-/

namespace PerpCarry
namespace Lib

variable {σ α ε κ : Type} {step : σ → α → Except ε σ} {s s' : σ}

/-- The order of the two events does not matter, in whatever state they come. -/
def Swaps (step : σ → α → Except ε σ) (a b : α) : Prop :=
  ∀ s s', run step s [a, b] = .ok s' ↔ run step s [b, a] = .ok s'

theorem Swaps.run_front {a b : α} (h : Swaps step a b) (rest : List α) :
    run step s (a :: b :: rest) = .ok s' ↔ run step s (b :: a :: rest) = .ok s' := by
  have hsplit : ∀ x y : α, run step s (x :: y :: rest) = .ok s' ↔
      ∃ t, run step s [x, y] = .ok t ∧ run step t rest = .ok s' := by
    intro x y
    rw [show x :: y :: rest = [x, y] ++ rest from rfl, run_append]
    cases run step s [x, y] <;> simp [Except.bind]
  rw [hsplit, hsplit]
  exact exists_congr fun t => and_congr_left' (h s t)

theorem run_toFront {a : α} {front back : List α} (h : ∀ b ∈ front, Swaps step b a) :
    run step s (front ++ a :: back) = .ok s' ↔ run step s (a :: (front ++ back)) = .ok s' := by
  induction front generalizing s with
  | nil => rfl
  | cons b front ih =>
    rw [List.cons_append, List.cons_append, ← (h b List.mem_cons_self).run_front,
      run_cons_ok, run_cons_ok]
    exact exists_congr fun t => and_congr_right' (ih fun c hc => h c (List.mem_cons_of_mem _ hc))

section Lanes

variable [DecidableEq κ] (lane : α → Option κ)

/-- The events of a lane, in their order. -/
def inLane (k : κ) (es : List α) : List α := es.filter fun e => lane e = some k

/-- Not two events of one lane. -/
def Apart (a b : α) : Prop := lane a = lane b → lane a = none

variable {lane} {es es' : List α}

theorem inLane_append (k : κ) (front back : List α) :
    inLane lane k (front ++ back) = inLane lane k front ++ inLane lane k back :=
  List.filter_append _ _

theorem inLane_cons (k : κ) (a : α) (es : List α) :
    inLane lane k (a :: es) = if lane a = some k then a :: inLane lane k es else inLane lane k es := by
  simp only [inLane, List.filter_cons, decide_eq_true_eq]

/-- Before the first of a lane there is nothing of the lane. -/
theorem inLane_before {a : α} {front back : List α} {k : κ} (hlane : lane a = some k)
    (hfirst : a ∉ front) (h : inLane lane k (a :: es) = inLane lane k (front ++ a :: back)) :
    inLane lane k front = [] := by
  rw [inLane_cons, if_pos hlane, inLane_append] at h
  cases hfront : inLane lane k front with
  | nil => rfl
  | cons b rest =>
    rw [hfront] at h
    have hab : a = b := (List.cons.inj h).1
    have hb : b ∈ inLane lane k front := by rw [hfront]; exact List.mem_cons_self
    exact absurd (hab ▸ (List.mem_filter.mp hb).1) hfirst

theorem run_lanes (hswaps : ∀ a ∈ es, ∀ b ∈ es, a ≠ b → Apart lane a b → Swaps step a b)
    (hperm : es.Perm es') (hlanes : ∀ k, inLane lane k es = inLane lane k es') :
    run step s es = .ok s' ↔ run step s es' = .ok s' := by
  induction es generalizing es' s with
  | nil => rw [List.nil_perm.mp hperm]
  | cons a es ih =>
    obtain ⟨front, back, rfl, hfirst⟩ :=
      List.eq_append_cons_of_mem (hperm.subset List.mem_cons_self)
    have hrest : es.Perm (front ++ back) := (hperm.trans List.perm_middle).cons_inv
    have hbefore : ∀ k, lane a = some k → inLane lane k front = [] :=
      fun k hk => inLane_before hk hfirst (hlanes k)
    -- the event comes first in its lane, so all that stands before it is in other lanes
    have hfront : ∀ b ∈ front, Swaps step b a := by
      intro b hb
      refine hswaps b (hperm.symm.subset (by simp [hb])) a List.mem_cons_self ?_ ?_
      · rintro rfl
        exact hfirst hb
      · intro hsame
        cases hk : lane b with
        | none => rfl
        | some k =>
          have hin : b ∈ inLane lane k front := List.mem_filter.mpr ⟨hb, by simp [hk]⟩
          rw [hbefore k (hsame ▸ hk)] at hin
          cases hin
    rw [run_toFront hfront, run_cons_ok, run_cons_ok]
    refine exists_congr fun t => and_congr_right' (ih ?_ hrest ?_)
    · exact fun b hb c hc => hswaps b (List.mem_cons_of_mem _ hb) c (List.mem_cons_of_mem _ hc)
    · intro k
      have h := hlanes k
      rw [inLane_cons, inLane_append, inLane_cons] at h
      rw [inLane_append]
      by_cases hk : lane a = some k
      · rw [if_pos hk, if_pos hk, hbefore k hk] at h
        rw [hbefore k hk]
        exact (List.cons.inj h).2
      · rwa [if_neg hk, if_neg hk] at h

end Lanes

end Lib
end PerpCarry
