import Mathlib.Init

/-!
# Core.Raised

A Python exception that left a function, with its class.

All the classes but `TypeError` are `ValueError`s. They are kept apart because two callers catch one
of them only: `catching` is `try: return x except Kind: return None`.
-/

namespace PerpCarry

inductive ErrorClass where
  | valueError
  | typeError
  | executionUnavailable
  | impactModelError
  | fundingHistoryError
  | fundingModelUnavailable
  deriving DecidableEq

structure Raised where
  kind : ErrorClass
  message : String
  deriving DecidableEq

/-- `if bad: raise kind(message)`. -/
def raiseWhen (bad : Prop) [Decidable bad] (kind : ErrorClass) (message : String) :
    Except Raised Unit :=
  if bad then .error ⟨kind, message⟩ else .ok ()

@[simp] theorem raiseWhen_ok {bad : Prop} [Decidable bad] {kind : ErrorClass} {message : String}
    {x : Unit} : raiseWhen bad kind message = .ok x ↔ ¬ bad := by
  unfold raiseWhen
  split
  · simp [*]
  · simp [*]

def catching {α : Type} (kind : ErrorClass) (x : Except Raised α) : Except Raised (Option α) :=
  match x with
  | .ok a => .ok (some a)
  | .error e => if e.kind = kind then .ok none else .error e

theorem catching_some {α : Type} {kind : ErrorClass} {x : Except Raised α} {a : α} :
    catching kind x = .ok (some a) ↔ x = .ok a := by
  unfold catching
  split
  · simp
  · split
    · simp
    · simp

/-- Whatever is raised is of this class. -/
def RaisesOnly {α : Type} (kind : ErrorClass) (x : Except Raised α) : Prop :=
  ∀ e, x = .error e → e.kind = kind

namespace RaisesOnly

variable {α β : Type} {kind : ErrorClass}

theorem ok (a : α) : RaisesOnly kind (.ok a) := nofun

theorem error (message : String) : RaisesOnly kind (.error ⟨kind, message⟩ : Except Raised α) := by
  rintro _ ⟨⟩
  rfl

theorem raiseWhen (bad : Prop) [Decidable bad] (message : String) :
    RaisesOnly kind (PerpCarry.raiseWhen bad kind message) := by
  unfold PerpCarry.raiseWhen
  split
  · exact error message
  · exact ok ()

theorem bind {x : Except Raised α} {f : α → Except Raised β} (hx : RaisesOnly kind x)
    (hf : ∀ a, RaisesOnly kind (f a)) : RaisesOnly kind (x >>= f) := by
  intro e he
  cases x with
  | error e' =>
    cases he
    exact hx _ rfl
  | ok a => exact hf a e he

end RaisesOnly

end PerpCarry
