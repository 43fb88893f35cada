import Mathlib.Algebra.Order.Field.Basic
import PerpCarry.Core.ContextRounding
import PerpCarry.Core.Double

/-!
# Strategy.Decimal

The Python side's `Decimal` arguments and their checks.

The numbers are those of any ordered field `K`: the rationals to run the code, the reals where a
square root comes in. A `Decimal` argument may also be an infinity or a NaN, which `decimal`
refuses. Checks of a value's Python type have no counterpart, the Lean types make them.

What the ledger books, and what the run tests and records, is computed with the roundings of an
`Arithmetic`. Where none is in scope, the numbers are read exactly (`Arithmetic.exact`).
-/

namespace PerpCarry
namespace Strategy

structure ValueError where
  message : String
  deriving DecidableEq

/-- `if bad: raise ValueError(message)`. -/
def raiseIf (bad : Prop) [Decidable bad] (message : String) : Except ValueError Unit :=
  if bad then .error ⟨message⟩ else .ok ()

@[simp] theorem raiseIf_ok {bad : Prop} [Decidable bad] {message : String} {x : Unit} :
    raiseIf bad message = .ok x ↔ ¬ bad := by
  simp only [raiseIf]; split <;> simp [*]

theorem bind_ok {ε α β : Type} {x : Except ε α} {f : α → Except ε β} {b : β} :
    (x >>= f) = .ok b ↔ ∃ a, x = .ok a ∧ f a = .ok b := by
  cases x <;> simp [bind, Except.bind]

@[simp] theorem pure_ok {ε α : Type} {a b : α} : (pure a : Except ε α) = .ok b ↔ a = b := by
  simp [pure, Except.pure]

inductive Decimal (K : Type) where
  | finite (value : K)
  | infinity (negative : Bool)
  | nan
  deriving DecidableEq

variable {K : Type}

/-- `decimal(value, name)`. -/
def decimal (value : Decimal K) (name : String) : Except ValueError K :=
  match value with
  | .finite q => .ok q
  | _ => .error ⟨name ++ " must be a finite Decimal"⟩

@[simp] theorem decimal_ok {value : Decimal K} {name : String} {q : K} :
    decimal value name = .ok q ↔ value = .finite q := by
  cases value <;> simp [decimal]

variable [Field K] [LinearOrder K]

def Decimal.value : Decimal K → K
  | .finite q => q
  | _ => 0

/-- `decimal(value, name, positive=True)`. -/
def decimalPositive (value : Decimal K) (name : String) : Except ValueError K := do
  let q ← decimal value name
  raiseIf (q ≤ 0) (name ++ " must be positive")
  return q

def timestamp (value : Int) (name : String) : Except ValueError Unit :=
  raiseIf (value < 0) (name ++ " must be a nonnegative millisecond integer")

@[simp] theorem decimalPositive_ok {value : Decimal K} {name : String} {q : K} :
    decimalPositive value name = .ok q ↔ value = .finite q ∧ 0 < q := by
  simp only [decimalPositive, bind_ok, decimal_ok, raiseIf_ok, pure_ok, not_le]
  constructor
  · rintro ⟨a, rfl, _, hpos, rfl⟩
    exact ⟨rfl, hpos⟩
  · rintro ⟨rfl, hpos⟩
    exact ⟨q, rfl, (), hpos, rfl⟩

@[simp] theorem timestamp_ok {value : Int} {name : String} {x : Unit} :
    timestamp value name = .ok x ↔ 0 ≤ value := by
  simp [timestamp]

/-! ## Rounding -/

/-- What becomes of the result of an operation in the `Context(prec=50)` of the ledger and in the
`Context(prec=60)` of the run, and of a `Decimal` in `float`. -/
class Arithmetic (K : Type) where
  inLedger : K → K
  inRun : K → K
  toFloat : K → K

namespace Arithmetic

/-- Every result is kept as it is. -/
instance (priority := low) exact (K : Type) : Arithmetic K where
  inLedger x := x
  inRun x := x
  toFloat x := x

@[simp] theorem inLedger_exact {K : Type} (x : K) : (exact K).inLedger x = x := rfl
@[simp] theorem inRun_exact {K : Type} (x : K) : (exact K).inRun x = x := rfl
@[simp] theorem toFloat_exact {K : Type} (x : K) : (exact K).toFloat x = x := rfl

/-- What the contexts have in common: they round alike on both sides of zero, and to numbers that
they leave as they are. What fits the ledger fits the run, and what the run loses altogether is
lost in the ledger. -/
class Lawful (K : Type) [Field K] [LinearOrder K] [Arithmetic K] : Prop where
  ledger_neg : ∀ x : K, inLedger (-x) = -inLedger x
  run_neg : ∀ x : K, inRun (-x) = -inRun x
  ledger_nonneg : ∀ x : K, 0 ≤ x → 0 ≤ inLedger x
  run_nonneg : ∀ x : K, 0 ≤ x → 0 ≤ inRun x
  ledger_idem : ∀ x : K, inLedger (inLedger x) = inLedger x
  run_idem : ∀ x : K, inRun (inRun x) = inRun x
  run_ledger : ∀ x : K, inRun (inLedger x) = inLedger x
  ledger_lost : ∀ x : K, inRun x = 0 → inLedger x = 0

instance {K : Type} [Field K] [LinearOrder K] : @Lawful K _ _ (exact K) where
  ledger_neg _ := rfl
  run_neg _ := rfl
  ledger_nonneg _ h := h
  run_nonneg _ h := h
  ledger_idem _ := rfl
  run_idem _ := rfl
  run_ledger _ := rfl
  ledger_lost _ h := h

section Lawful

variable {K : Type} [Field K] [LinearOrder K] [IsStrictOrderedRing K] [Arithmetic K] [Lawful K]

theorem ledger_zero : inLedger (0 : K) = 0 := by
  have h := Lawful.ledger_neg (0 : K)
  rw [neg_zero] at h
  exact self_eq_neg.mp h

theorem run_zero : inRun (0 : K) = 0 := by
  have h := Lawful.run_neg (0 : K)
  rw [neg_zero] at h
  exact self_eq_neg.mp h

/-- What the run does not see below zero, the ledger does not. -/
theorem ledger_nonneg_of_run {x : K} (h : 0 ≤ inRun x) : 0 ≤ inLedger x := by
  rcases le_total 0 x with hx | hx
  · exact Lawful.ledger_nonneg x hx
  · have hneg := Lawful.run_nonneg (-x) (neg_nonneg.mpr hx)
    rw [Lawful.run_neg, neg_nonneg] at hneg
    exact (Lawful.ledger_lost x (le_antisymm hneg h)).ge

end Lawful

/-! ### Python's -/

/-- `float`: the nearest double, of which the last binary place is even on a tie. -/
def binary64 (q : ℚ) : ℚ :=
  let unit := (2 : ℚ) ^ max (Int.log 2 |q| - 52) (-1074)
  let magnitude := Double.roundHalfEven (|q| / unit) * unit
  if q < 0 then -magnitude else magnitude

/-- The arithmetic of the code, of results that neither context overflows on. -/
@[reducible] def python : Arithmetic ℚ where
  inLedger := (Context.ofPrec 50 Context.fifty_pos).rounded
  inRun := (Context.ofPrec 60 Context.sixty_pos).rounded
  toFloat := binary64

theorem python_lawful : @Lawful ℚ _ _ python :=
  letI := python
  { ledger_neg := Context.rounded_neg rfl
    run_neg := Context.rounded_neg rfl
    ledger_nonneg := fun _ => Context.rounded_nonneg
    run_nonneg := fun _ => Context.rounded_nonneg
    ledger_idem := Context.rounded_idem
    run_idem := Context.rounded_idem
    run_ledger := Context.rounded_wide (by decide) rfl
    ledger_lost := fun _ => Context.rounded_lost (by decide) rfl rfl }

end Arithmetic

end Strategy
end PerpCarry
