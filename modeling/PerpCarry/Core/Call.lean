import Mathlib.Data.List.Basic

/-!
# Core.Call

C++ member functions that may throw.

A member function changes its object in place, and an exception does not undo what was changed
before it was thrown. `Call σ α` keeps both: the value returned or the exception thrown, and the
object's state at that moment.
-/

namespace PerpCarry

inductive Error where
  | invalidArgument (what : String)
  | bookReplayError (what : String)
  | validationError (what : String)
  deriving DecidableEq

inductive Call (σ α : Type) where
  | ok (value : α) (state : σ)
  | error (e : Error) (state : σ)
  deriving DecidableEq

namespace Call

variable {σ α : Type}

/-- The object's state after the call, whether it returned or threw. -/
def state : Call σ α → σ
  | ok _ s => s
  | error _ s => s

def thrown : Call σ α → Option Error
  | ok _ _ => none
  | error e _ => some e

/-- What the caller gets, without the object. -/
def outcome : Call σ α → Except Error α
  | ok a _ => .ok a
  | error e _ => .error e

@[simp] theorem state_ok (a : α) (s : σ) : (ok a s).state = s := rfl
@[simp] theorem state_error (e : Error) (s : σ) : (error e s : Call σ α).state = s := rfl
@[simp] theorem thrown_ok (a : α) (s : σ) : (ok a s).thrown = none := rfl
@[simp] theorem thrown_error (e : Error) (s : σ) : (error e s : Call σ α).thrown = some e := rfl
@[simp] theorem outcome_ok (a : α) (s : σ) : (ok a s).outcome = .ok a := rfl
@[simp] theorem outcome_error (e : Error) (s : σ) : (error e s : Call σ α).outcome = .error e := rfl

end Call

end PerpCarry
