import Mathlib.Data.List.Dedup
import Mathlib.Order.Defs.LinearOrder
import PerpCarry.Lib.EventRun

/-!
# Models.ImpactLaw

The laws that the impact model fits, and their scores: `fit_law` and `metrics` of
`python/perpcarry/models/impact_model.py`.

A double is an element of `F`, about whose arithmetic nothing is assumed. What the code takes from
numpy comes in as a `Numpy`, so that a reduction over an array may depend on the array's order.
-/

namespace PerpCarry
namespace Models
namespace ImpactModel

structure ImpactModelError where
  message : String
  deriving DecidableEq

/-- `if not ok: raise ImpactModelError(message)`. -/
def require (ok : Prop) [Decidable ok] (message : String) : Except ImpactModelError Unit :=
  Lib.refuse (¬ ok) ⟨message⟩

@[simp] theorem require_ok {ok : Prop} [Decidable ok] {message : String} {x : Unit} :
    require ok message = .ok x ↔ ok :=
  Lib.refuse_ok.trans not_not

/-- The comparisons and the functions of numpy; `std` is with `ddof=1`. -/
structure Numpy (F : Type) where
  lt : F → F → Bool
  le : F → F → Bool
  isFinite : F → Bool
  ofNat : Nat → F
  half : F
  power : F → F → F
  log : F → F
  exp : F → F
  sqrt : F → F
  abs : F → F
  min : List F → F
  max : List F → F
  mean : List F → F
  std : List F → F
  dot : List F → List F → F
  quantile : List F → List F → List F

inductive Form where
  | squareRoot
  | linear
  | powerDiagnostic
  deriving DecidableEq

def FORMS : List Form := [.squareRoot, .linear, .powerDiagnostic]

structure FittedLaw (F : Type) where
  form : Form
  coefficient : F
  exponent : F
  deriving DecidableEq

structure Metrics (F : Type) where
  rows : Nat
  rmseBps : F
  maeBps : F
  r2 : Option F
  r2Status : String
  deriving DecidableEq

variable {F : Type} [LinearOrder F] [Zero F] [One F] [Sub F] [Mul F] [Div F] (np : Numpy F)

/-- Least squares through the origin, for sizes raised to `exponent`. -/
def scale (x y : List F) (exponent : F) : F :=
  let transformed := x.map fun size => np.power size exponent
  np.dot transformed y / np.dot transformed transformed

/-- Least squares of the logarithms, over the positive targets. -/
def logLinear (x y : List F) : Except ImpactModelError (F × F) := do
  let positive := (x.zip y).filter fun p => np.lt 0 p.2
  require (2 ≤ positive.length ∧ 2 ≤ (positive.map (·.1)).dedup.length)
    "power diagnostic needs two positive targets at distinct sizes"
  let lx := positive.map fun p => np.log p.1
  let ly := positive.map fun p => np.log p.2
  let centered := lx.map fun v => v - np.mean lx
  let exponent := np.dot centered (ly.map fun v => v - np.mean ly) / np.dot centered centered
  return (np.exp (np.mean ly - exponent * np.mean lx), exponent)

/-- The coefficient and the exponent. -/
def solveForm (x y : List F) (form : Form) : Except ImpactModelError (F × F) :=
  match form with
  | .squareRoot => .ok (scale np x y np.half, np.half)
  | .linear => .ok (scale np x y 1, 1)
  | .powerDiagnostic => logLinear np x y

def fitLaw (x y : List F) (form : Form) : Except ImpactModelError (FittedLaw F) := do
  require (y.length = x.length ∧ x ≠ [] ∧ x.all np.isFinite = true ∧ y.all np.isFinite = true ∧
      (x.any fun size => np.le size 0) = false)
    "fit needs aligned finite sizes/targets and positive sizes"
  let (coefficient, exponent) ← solveForm np x y form
  require (np.isFinite coefficient = true ∧ np.isFinite exponent = true)
    "non-finite fitted parameters"
  return ⟨form, coefficient, exponent⟩

def FittedLaw.predict (law : FittedLaw F) (sizes : List F) : Except ImpactModelError (List F) := do
  require (sizes.all np.isFinite = true ∧ (sizes.any fun size => np.le size 0) = false)
    "prediction sizes must be finite positive ADV fractions"
  let prediction := sizes.map fun size => law.coefficient * np.power size law.exponent
  require (prediction.all np.isFinite = true) "non-finite prediction"
  return prediction

def metrics (y predicted : List F) : Except ImpactModelError (Metrics F) := do
  let residual := y.zipWith (· - ·) predicted
  let sse := np.dot residual residual
  let centered := y.map fun v => v - np.mean y
  let sst := np.dot centered centered
  let rmse := np.sqrt (sse / np.ofNat y.length)
  let mae := np.mean (residual.map np.abs)
  let r2 := if np.lt 0 sst then some (1 - sse / sst) else none
  require (np.isFinite rmse = true ∧ np.isFinite mae = true ∧ r2.all np.isFinite = true)
    "non-finite fit diagnostics"
  return ⟨y.length, rmse, mae, r2, if np.lt 0 sst then "defined" else "undefined_constant_target"⟩

end ImpactModel
end Models
end PerpCarry
