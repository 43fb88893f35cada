import Mathlib.Algebra.Group.Prod
import Mathlib.Algebra.Order.Field.Basic
import Mathlib.Data.Rat.Cast.Defs
import Mathlib.Tactic.Linarith
import Mathlib.Tactic.Ring
import PerpCarry.Models.RollingFunding

/-!
# Models.FundingModel

The conjugate AR(1) model of the funding: `python/perpcarry/models/funding_model.py`.

The linear algebra of `fit` is exact, on 2x2 matrices. What needs a root, a quantile or random
numbers is a `Numerics`.

* `fit_ok`: a posterior knows how many transitions it saw and at which cadence.
* `posterior_definite`: the matrix that `fit` inverts is definite.
* `fit_normal`: hence the posterior mean solves the normal equations.
-/

namespace PerpCarry
namespace Models

open Strategy

section Matrices

variable {K : Type} [Field K]

/-! ## 2x2 matrices -/

abbrev Vec2 (K : Type) := K × K
abbrev Mat2 (K : Type) := (K × K) × (K × K)

def Vec2.dot (u v : Vec2 K) : K := u.1 * v.1 + u.2 * v.2

namespace Mat2

def mulVec (m : Mat2 K) (v : Vec2 K) : Vec2 K := (Vec2.dot m.1 v, Vec2.dot m.2 v)

def det (m : Mat2 K) : K := m.1.1 * m.2.2 - m.1.2 * m.2.1

/-- `np.linalg.solve(m, v)`. -/
def solve (m : Mat2 K) (v : Vec2 K) : Vec2 K :=
  ((m.2.2 * v.1 - m.1.2 * v.2) / m.det, (m.1.1 * v.2 - m.2.1 * v.1) / m.det)

/-- `np.linalg.solve(m, np.eye(2))`. -/
def inverse (m : Mat2 K) : Mat2 K :=
  ((m.2.2 / m.det, -m.1.2 / m.det), (-m.2.1 / m.det, m.1.1 / m.det))

theorem mulVec_solve {m : Mat2 K} (h : m.det ≠ 0) (v : Vec2 K) : m.mulVec (m.solve v) = v := by
  have hdet := h
  unfold det at hdet
  unfold mulVec solve Vec2.dot det
  refine Prod.ext ?_ ?_
  · dsimp only
    rw [mul_div_assoc', mul_div_assoc', ← add_div, div_eq_iff hdet]
    ring
  · dsimp only
    rw [mul_div_assoc', mul_div_assoc', ← add_div, div_eq_iff hdet]
    ring

end Mat2

/-- `design.T @ design`, for design rows `(1, x)`. -/
def gram (xs : List K) : Mat2 K := ((xs.length, xs.sum), (xs.sum, (xs.map fun x => x * x).sum))

/-- `design.T @ target`. -/
def moment (rows : List (K × K)) : Vec2 K :=
  ((rows.map fun row => row.2).sum, (rows.map fun row => row.1 * row.2).sum)

theorem gram_cons (x : K) (xs : List K) : gram (x :: xs) = gram xs + ((1, x), (x, x * x)) := by
  simp only [gram, List.length_cons, List.sum_cons, List.map_cons, Nat.cast_succ, Prod.mk_add_mk,
    Prod.mk.injEq]
  exact ⟨⟨trivial, add_comm _ _⟩, add_comm _ _, add_comm _ _⟩

end Matrices

variable {K : Type} [Field K] [LinearOrder K]

/-! ## The posterior -/

structure Posterior (K : Type) where
  mean : Vec2 K
  covarianceFactor : Mat2 K
  shape : K
  scale : K
  observations : Int
  intervalHours : Int
  deriving DecidableEq

/-- `validate_rates(rates) * 10_000`, as far as a finite sequence can fail. -/
def validateRates (rates : List K) : Except Raised (List K) := do
  raiseWhen (rates.isEmpty = true) .valueError
    "rates must be a nonempty finite one-dimensional array"
  return rates.map fun rate => rate * (10000 : Nat)

def fit (rates : List K) (intervalHours : Int) (prior : Prior K) : Except Raised (Posterior K) := do
  raiseWhen (¬ (1 ≤ intervalHours ∧ intervalHours ≤ 24)) .valueError
    "integer settlement cadence in [1,24] hours required"
  let bps ← validateRates rates
  raiseWhen (bps.length < 3) .valueError "at least three settlements required"
  let rows := bps.zip bps.tail
  let precision := prior.precision + gram (rows.map (·.1))
  let mean := Mat2.solve precision (Mat2.mulVec prior.precision prior.mean + moment rows)
  let residual := rows.map fun row => row.2 - Vec2.dot (1, row.1) mean
  let displacement := mean - prior.mean
  let scale := prior.scale +
    ((residual.map fun r => r * r).sum +
      Vec2.dot displacement (Mat2.mulVec prior.precision displacement)) / (2 : Nat)
  return {
    mean
    covarianceFactor := Mat2.inverse precision
    shape := prior.shape + rows.length / (2 : Nat)
    scale
    observations := rows.length
    intervalHours }

/-- What the code takes from numpy and scipy: roots, the order statistics of a sample, the
quantiles of the Student and inverse gamma distributions, and simulated paths. -/
structure Numerics (K : Type) [Field K] [LinearOrder K] where
  sqrt : K → K
  median : List K → K
  quantile : List K → K → K
  tPpf : (q df : K) → K
  tCdf : (x df loc scale : K) → K
  invgammaPpf : (q shape scale : K) → K
  paths : Paths K

/-- `Posterior.predict([previous])`: degrees of freedom, location and scale, in fractions. -/
def Posterior.predict (self : Posterior K) (numerics : Numerics K) (previous : K) :
    K × K × K :=
  let row : Vec2 K := (1, previous * (10000 : Nat))
  let location := Vec2.dot row self.mean
  let leverage := Vec2.dot row (Mat2.mulVec self.covarianceFactor row)
  let scale := numerics.sqrt (self.scale / self.shape * (1 + leverage))
  ((2 : Nat) * self.shape, location / (10000 : Nat), scale / (10000 : Nat))

/-- A mean and its credible interval. -/
structure Credible (K : Type) where
  mean : Option K
  interval : K × K
  deriving DecidableEq

structure PosteriorSummary (K : Type) where
  observations : Int
  intervalHours : Int
  credibleLevel : K
  interceptBps : Credible K
  phi : Credible K
  innovationVarianceBps2 : Credible K
  nonstationaryPhiProbability : K
  shape : K
  scaleBps2 : K
  covarianceFactor : Mat2 K
  deriving DecidableEq

/-- `Posterior.summary()`, at its default level. -/
def Posterior.summary (self : Posterior K) (numerics : Numerics K) : PosteriorSummary K :=
  let level : K := (0.95 : ℚ)
  let low := (1 - level) / (2 : Nat)
  let high := (1 + level) / (2 : Nat)
  let df := (2 : Nat) * self.shape
  let ratio := self.scale / self.shape
  let interceptScale := numerics.sqrt (ratio * self.covarianceFactor.1.1)
  let phiScale := numerics.sqrt (ratio * self.covarianceFactor.2.2)
  let interval (mean scale : K) : K × K :=
    (mean + scale * numerics.tPpf low df, mean + scale * numerics.tPpf high df)
  let stationaryMass := numerics.tCdf 1 df self.mean.2 phiScale -
    numerics.tCdf (-1) df self.mean.2 phiScale
  { observations := self.observations
    intervalHours := self.intervalHours
    credibleLevel := level
    interceptBps := ⟨some self.mean.1, interval self.mean.1 interceptScale⟩
    phi := ⟨some self.mean.2, interval self.mean.2 phiScale⟩
    innovationVarianceBps2 := {
      mean := if 1 < self.shape then some (self.scale / (self.shape - 1)) else none
      interval := (numerics.invgammaPpf low self.shape self.scale,
        numerics.invgammaPpf high self.shape self.scale) }
    nonstationaryPhiProbability := 1 - stationaryMass
    shape := self.shape
    scaleBps2 := self.scale
    covarianceFactor := self.covarianceFactor }

theorem fit_ok {rates : List K} {hours : Int} {prior : Prior K} {p : Posterior K}
    (h : fit rates hours prior = .ok p) :
    p.intervalHours = hours ∧ p.observations = rates.length - 1 ∧ 3 ≤ rates.length := by
  unfold fit validateRates at h
  simp only [bind_ok, pure_ok, raiseWhen_ok, not_lt] at h
  obtain ⟨_, _, bps, ⟨_, _, rfl⟩, _, hlength, rfl⟩ := h
  rw [List.length_map] at hlength
  refine ⟨rfl, ?_, hlength⟩
  simp only [List.length_zip, List.length_map, List.length_tail]
  omega

section Definite

/-- Symmetric, with positive leading minors. -/
def Mat2.Definite (m : Mat2 K) : Prop := m.1.2 = m.2.1 ∧ 0 < m.1.1 ∧ 0 < m.det

variable [IsStrictOrderedRing K]

/-- One more transition keeps the matrix definite. -/
theorem definite_row {m : Mat2 K} (h : m.Definite) (x : K) :
    Mat2.Definite (m + ((1, x), (x, x * x))) := by
  obtain ⟨hsymmetric, hcorner, hdet⟩ := h
  unfold Mat2.det at hdet
  refine ⟨?_, ?_, ?_⟩
  · show m.1.2 + x = m.2.1 + x
    rw [hsymmetric]
  · show 0 < m.1.1 + 1
    linarith
  · show 0 < (m.1.1 + 1) * (m.2.2 + x * x) - (m.1.2 + x) * (m.2.1 + x)
    rw [← hsymmetric] at hdet ⊢
    -- the form at `(x, -1)` is what the determinant grows by
    have hform : 0 < m.1.1 * (m.1.1 * x * x - 2 * m.1.2 * x + m.2.2) := by
      have hsquare := mul_self_nonneg (m.1.1 * x - m.1.2)
      linarith
    have hform' := pos_of_mul_pos_right hform hcorner.le
    linarith

theorem posterior_definite (prior : Prior K) (xs : List K) :
    Mat2.Definite (prior.precision + gram xs) := by
  induction xs with
  | nil =>
    have hzero : gram ([] : List K) = 0 := by simp [gram]
    rw [hzero, add_zero]
    exact ⟨prior.symmetric, prior.definite⟩
  | cons x xs ih =>
    rw [gram_cons, ← add_assoc]
    exact definite_row ih x

theorem fit_normal {rates : List K} {hours : Int} {prior : Prior K} {p : Posterior K}
    (h : fit rates hours prior = .ok p) :
    ∃ rows : List (K × K), rows.length = rates.length - 1 ∧
      Mat2.mulVec (prior.precision + gram (rows.map (·.1))) p.mean =
        Mat2.mulVec prior.precision prior.mean + moment rows := by
  unfold fit validateRates at h
  simp only [bind_ok, pure_ok, raiseWhen_ok, not_lt] at h
  obtain ⟨_, _, bps, ⟨_, _, rfl⟩, _, hlength, rfl⟩ := h
  refine ⟨_, ?_, Mat2.mulVec_solve (posterior_definite prior _).2.2.ne' _⟩
  simp

end Definite

end Models
end PerpCarry
