import Mathlib.Analysis.Real.Sqrt
import Mathlib.Tactic.FieldSimp
import Mathlib.Tactic.LinearCombination
import PerpCarry.Lib.QuadraticEnergy
import PerpCarry.Models.FundingModel

/-!
# Models.SequentialPosterior

Fitting at once and fitting in two steps.

A prior is an energy on the coefficients: its quadratic form around its mean, above twice its scale.
An observation adds its squared residual. `fit` completes the square, so its posterior is the centre
and the floor of the total energy, which does not depend on how the observations were grouped.

* `completing_square`: the energy after some rows, by the posterior of these rows.
* `transitions_split`: the rows of a list are those of its two parts that share one rate.
* `update_append`: hence two updates, the second from the first posterior, are one.
* `fit_sequential`: the same of `fit` on a list that is cut.
* `fit_sound`: the posterior precision is definite, and what is divided, rooted or factored is
  positive.
-/

namespace PerpCarry
namespace Models

open Lib
open Strategy (bind_ok pure_ok)

/-! ## Rows -/

/-- The pairs of a rate and the one after it. -/
def transitions {α : Type} (xs : List α) : List (α × α) := xs.zip xs.tail

/-- Two parts of a list that share one element have its transitions between them. -/
theorem transitions_split {α : Type} (k : Nat) (xs : List α) (hk : k < xs.length) :
    transitions xs = transitions (xs.take (k + 1)) ++ transitions (xs.drop k) := by
  induction k generalizing xs with
  | zero =>
    cases xs with
    | nil => cases hk
    | cons x xs => simp [transitions]
  | succ k ih =>
    cases xs with
    | nil => cases hk
    | cons x xs =>
      cases xs with
      | nil => simp at hk
      | cons y ys =>
        have hrest := ih (y :: ys) (by simpa using hk)
        have hcons : ∀ zs : List α, transitions (x :: y :: zs) = (x, y) :: transitions (y :: zs) :=
          fun _ => rfl
        rw [List.take_succ_cons, List.drop_succ_cons, List.take_succ_cons, hcons, hcons,
          List.cons_append, hrest, List.take_succ_cons]

section Forms

variable {K : Type} [Field K]

/-- `v @ m @ v`. -/
def Mat2.form (m : Mat2 K) (v : Vec2 K) : K := Vec2.dot v (m.mulVec v)

def Mat2.transpose (m : Mat2 K) : Mat2 K := ((m.1.1, m.2.1), (m.1.2, m.2.2))

def Mat2.mul (m n : Mat2 K) : Mat2 K :=
  ((m.1.1 * n.1.1 + m.1.2 * n.2.1, m.1.1 * n.1.2 + m.1.2 * n.2.2),
    (m.2.1 * n.1.1 + m.2.2 * n.2.1, m.2.1 * n.1.2 + m.2.2 * n.2.2))

/-- `residual @ residual`, at any coefficients. -/
def residuals (rows : List (K × K)) (v : Vec2 K) : K :=
  ((rows.map fun row => row.2 - Vec2.dot (1, row.1) v).map fun r => r * r).sum

theorem gram_append (xs ys : List K) : gram (xs ++ ys) = gram xs + gram ys := by
  induction xs with
  | nil =>
    have hzero : gram ([] : List K) = 0 := by simp [gram]
    rw [List.nil_append, hzero, zero_add]
  | cons x xs ih => rw [List.cons_append, gram_cons, ih, gram_cons, add_right_comm]

theorem residuals_cons (row : K × K) (rows : List (K × K)) (v : Vec2 K) :
    residuals (row :: rows) v =
      (row.2 - Vec2.dot (1, row.1) v) * (row.2 - Vec2.dot (1, row.1) v) + residuals rows v := by
  simp [residuals]

theorem residuals_append (xs ys : List (K × K)) (v : Vec2 K) :
    residuals (xs ++ ys) v = residuals xs v + residuals ys v := by
  simp [residuals]

/-- The squared residuals are quadratic in the coefficients. -/
theorem residuals_eq (rows : List (K × K)) (v : Vec2 K) :
    residuals rows v = (rows.map fun row => row.2 * row.2).sum - 2 * Vec2.dot v (moment rows) +
      (gram (rows.map (·.1))).form v := by
  induction rows with
  | nil => simp [residuals, moment, gram, Mat2.form, Mat2.mulVec, Vec2.dot]
  | cons row rows ih =>
    have hgram : gram ((row :: rows).map (·.1)) =
        gram (rows.map (·.1)) + ((1, row.1), (row.1, row.1 * row.1)) := gram_cons _ _
    rw [residuals_cons, ih, hgram]
    simp only [moment, Mat2.form, Mat2.mulVec, Vec2.dot, List.map_cons, List.sum_cons, Prod.fst_add,
      Prod.snd_add]
    ring

theorem Mat2.det_inverse (m : Mat2 K) : m.inverse.det = 1 / m.det := by
  unfold inverse det
  dsimp only
  field_simp

theorem Mat2.inverse_inverse {m : Mat2 K} (h : m.det ≠ 0) : m.inverse.inverse = m := by
  conv_lhs => rw [inverse]
  rw [det_inverse]
  unfold inverse
  refine Prod.ext (Prod.ext ?_ ?_) (Prod.ext ?_ ?_)
  all_goals
    dsimp only
    field_simp

theorem Mat2.mul_inverse {m : Mat2 K} (h : m.det ≠ 0) : m.mul m.inverse = ((1, 0), (0, 1)) := by
  unfold det at h
  unfold mul inverse det
  refine Prod.ext (Prod.ext ?_ ?_) (Prod.ext ?_ ?_)
  all_goals
    dsimp only
    rw [mul_div_assoc', mul_div_assoc', ← add_div, div_eq_iff h]
    ring

end Forms

/-! ## One posterior -/

variable {K : Type} [Field K] [LinearOrder K]

/-- The posterior that `fit` returns for these rows. -/
def Prior.update (prior : Prior K) (rows : List (K × K)) (intervalHours : Int) : Posterior K :=
  let precision : Mat2 K := prior.precision + gram (rows.map (·.1))
  let mean := precision.solve (Mat2.mulVec prior.precision prior.mean + moment rows)
  { mean
    covarianceFactor := precision.inverse
    shape := prior.shape + rows.length / (2 : Nat)
    scale := prior.scale +
      (residuals rows mean + Mat2.form prior.precision (mean - prior.mean)) / (2 : Nat)
    observations := rows.length
    intervalHours }

/-- What a prior says of the coefficients. -/
def Prior.energy (prior : Prior K) (v : Vec2 K) : K :=
  Mat2.form prior.precision (v - prior.mean) + (2 : Nat) * prior.scale

/-- The prior that takes its parameters from a posterior. -/
structure Posterior.Continues (first : Posterior K) (next : Prior K) : Prop where
  mean : next.mean = first.mean
  precision : next.precision = first.covarianceFactor.inverse
  shape : next.shape = first.shape
  scale : next.scale = first.scale

/-- `np.linalg.cholesky(m)`, which raises when a pivot is not positive. -/
def Mat2.cholesky (sqrt : K → K) (m : Mat2 K) : Option (Mat2 K) :=
  if m.1.1 ≤ 0 then none
  else
    let a := sqrt m.1.1
    let b := m.2.1 / a
    if m.2.2 - b * b ≤ 0 then none else some ((a, 0), (b, sqrt (m.2.2 - b * b)))

/-- What `predict` takes the root of, at a previous rate in bps. -/
def Posterior.predictive (self : Posterior K) (previous : K) : K :=
  self.scale / self.shape * (1 + self.covarianceFactor.form (1, previous))

theorem fit_update {rates : List K} {hours : Int} {prior : Prior K} :
    fit rates hours prior = if ¬ (1 ≤ hours ∧ hours ≤ 24) then
        .error ⟨.valueError, "integer settlement cadence in [1,24] hours required"⟩
      else if rates.isEmpty = true then
        .error ⟨.valueError, "rates must be a nonempty finite one-dimensional array"⟩
      else if rates.length < 3 then .error ⟨.valueError, "at least three settlements required"⟩
      else .ok (prior.update (transitions (rates.map fun rate => rate * (10000 : Nat))) hours) := by
  unfold fit validateRates raiseWhen
  by_cases hhours : 1 ≤ hours ∧ hours ≤ 24
  · by_cases hempty : rates.isEmpty = true
    · simp [hhours, hempty, bind, Except.bind]
    · by_cases hfew : rates.length < 3
      · simp [hhours, hempty, hfew, bind, Except.bind, pure, Except.pure]
      · simp only [not_true, hhours, hempty, hfew, bind, Except.bind, pure, Except.pure, if_false,
          List.length_map, and_self, Bool.false_eq_true]
        rfl
  · simp [hhours, bind, Except.bind]

/-- The rows of a fit. -/
def fitRows (rates : List K) : List (K × K) :=
  transitions (rates.map fun rate => rate * (10000 : Nat))

theorem fit_accepts {rates : List K} {hours : Int} {prior : Prior K} {p : Posterior K} :
    fit rates hours prior = .ok p ↔
      (1 ≤ hours ∧ hours ≤ 24) ∧ 3 ≤ rates.length ∧ p = prior.update (fitRows rates) hours := by
  rw [fit_update]
  split_ifs with hhours hempty hfew
  · have hnil : rates = [] := List.isEmpty_iff.mp hempty
    simp [hnil]
  · simp only [false_iff, not_and]
    intro _ hlength
    omega
  · rw [Except.ok.injEq, eq_comm]
    exact ⟨fun h => ⟨hhours, not_lt.mp hfew, h⟩, fun h => h.2.2⟩
  · simp [hhours]

/-- What the solves, the factor and the predictions need. -/
structure Posterior.Sound (sqrt : K → K) (prior : Prior K) (rows : List (K × K))
    (p : Posterior K) : Prop where
  precision : Mat2.Definite (prior.precision + gram (rows.map (·.1)))
  mean : Mat2.mulVec (prior.precision + gram (rows.map (·.1))) p.mean =
    Mat2.mulVec prior.precision prior.mean + moment rows
  factor : Mat2.mul (prior.precision + gram (rows.map (·.1))) p.covarianceFactor =
    ((1, 0), (0, 1))
  scale : prior.scale ≤ p.scale
  cholesky : ∃ l, Mat2.cholesky sqrt p.covarianceFactor = some l ∧
    l.mul l.transpose = p.covarianceFactor
  predictive : ∀ previous, 0 < p.predictive previous

theorem prior_definite (prior : Prior K) : Mat2.Definite prior.precision :=
  ⟨prior.symmetric, prior.definite⟩

section Definite

variable [IsStrictOrderedRing K]

theorem Mat2.Definite.form {m : Mat2 K} (h : m.Definite) : DefiniteForm m.form where
  zero := by simp [Mat2.form, Mat2.mulVec, Vec2.dot]
  pos := by
    obtain ⟨hsymmetric, hcorner, hdet⟩ := h
    rintro ⟨x, y⟩ hne
    unfold Mat2.det at hdet
    have hscaled : m.1.1 * m.form (x, y) = (m.1.1 * x + m.1.2 * y) * (m.1.1 * x + m.1.2 * y) +
        (m.1.1 * m.2.2 - m.1.2 * m.2.1) * (y * y) := by
      simp only [Mat2.form, Mat2.mulVec, Vec2.dot, ← hsymmetric]
      ring
    refine pos_of_mul_pos_right ?_ hcorner.le
    rw [hscaled]
    by_cases hy : y = 0
    · have hx : x ≠ 0 := by
        rintro rfl
        exact hne (by rw [hy]; rfl)
      have := mul_pos (mul_pos hcorner hcorner) (mul_self_pos.mpr hx)
      rw [hy]
      linarith
    · have hsquare := mul_self_nonneg (m.1.1 * x + m.1.2 * y)
      have := mul_pos hdet (mul_self_pos.mpr hy)
      linarith

theorem Mat2.Definite.inverse {m : Mat2 K} (h : m.Definite) : m.inverse.Definite := by
  obtain ⟨hsymmetric, hcorner, hdet⟩ := h
  have hother : 0 < m.2.2 := by
    unfold Mat2.det at hdet
    rw [← hsymmetric] at hdet
    have := mul_self_nonneg m.1.2
    exact pos_of_mul_pos_right (by linarith) hcorner.le
  refine ⟨?_, div_pos hother hdet, ?_⟩
  · show -m.1.2 / m.det = -m.2.1 / m.det
    rw [hsymmetric]
  · rw [Mat2.det_inverse]
    exact one_div_pos.mpr hdet

/-- A definite matrix has its pivots positive, and a root of each. -/
theorem Mat2.Definite.cholesky {sqrt : K → K}
    (hsqrt : ∀ x, 0 ≤ x → 0 ≤ sqrt x ∧ sqrt x * sqrt x = x) {m : Mat2 K} (h : m.Definite) :
    ∃ l, Mat2.cholesky sqrt m = some l ∧ l.mul l.transpose = m := by
  obtain ⟨hsymmetric, hcorner, hdet⟩ := h
  obtain ⟨-, hroot⟩ := hsqrt _ hcorner.le
  have hne : sqrt m.1.1 ≠ 0 := by
    intro hzero
    rw [hzero, mul_zero] at hroot
    exact hcorner.ne hroot
  -- the second pivot is the determinant over the first one
  have hpivot : 0 < m.2.2 - m.2.1 / sqrt m.1.1 * (m.2.1 / sqrt m.1.1) := by
    have hratio : m.2.2 - m.2.1 / sqrt m.1.1 * (m.2.1 / sqrt m.1.1) = m.det / m.1.1 := by
      rw [div_mul_div_comm, hroot, det, hsymmetric, eq_div_iff hcorner.ne', sub_mul,
        div_mul_cancel₀ _ hcorner.ne', mul_comm m.2.2]
    rw [hratio]
    exact div_pos hdet hcorner
  obtain ⟨-, hroot'⟩ := hsqrt _ hpivot.le
  refine ⟨_, by rw [Mat2.cholesky, if_neg hcorner.not_ge]; exact if_neg hpivot.not_ge, ?_⟩
  unfold mul transpose
  refine Prod.ext (Prod.ext ?_ ?_) (Prod.ext ?_ ?_)
  · dsimp only
    rw [mul_zero, add_zero, hroot]
  · dsimp only
    rw [zero_mul, add_zero, mul_div_cancel₀ _ hne, hsymmetric]
  · dsimp only
    rw [mul_zero, add_zero, div_mul_cancel₀ _ hne]
  · dsimp only
    rw [hroot', add_sub_cancel]

theorem residuals_nonneg (rows : List (K × K)) (v : Vec2 K) : 0 ≤ residuals rows v := by
  induction rows with
  | nil => exact le_refl _
  | cons row rows ih =>
    rw [residuals_cons]
    exact add_nonneg (mul_self_nonneg _) ih

variable (prior : Prior K) (rows : List (K × K)) (hours : Int)

theorem update_normal :
    Mat2.mulVec (prior.precision + gram (rows.map (·.1))) (prior.update rows hours).mean =
      Mat2.mulVec prior.precision prior.mean + moment rows :=
  Mat2.mulVec_solve (posterior_definite prior _).2.2.ne' _

/-- The energy after the rows has its centre at the posterior mean, and its floor at twice the
posterior scale. -/
theorem completing_square :
    Represents (Mat2.form (prior.precision + gram (rows.map (·.1))))
      (prior.update rows hours).mean ((2 : Nat) * (prior.update rows hours).scale)
      (fun v => prior.energy v + residuals rows v) := by
  intro v
  have hnormal := update_normal prior rows hours
  have hscale : ((2 : Nat) : K) * (prior.update rows hours).scale = (2 : Nat) * prior.scale +
      (residuals rows (prior.update rows hours).mean +
        Mat2.form prior.precision ((prior.update rows hours).mean - prior.mean)) := by
    show ((2 : Nat) : K) * (prior.scale + (residuals rows (prior.update rows hours).mean +
        Mat2.form prior.precision ((prior.update rows hours).mean - prior.mean)) / (2 : Nat)) = _
    push_cast
    ring
  have hsymmetric := prior.symmetric
  generalize (prior.update rows hours).mean = mean at hnormal hscale
  show prior.energy v + residuals rows v = _
  rw [hscale, Prior.energy, residuals_eq rows v, residuals_eq rows mean]
  have hgram : (gram (rows.map (·.1))).1.2 = (gram (rows.map (·.1))).2.1 := rfl
  obtain ⟨hfirst, hsecond⟩ := Prod.ext_iff.mp hnormal
  simp only [Mat2.mulVec, Vec2.dot, Prod.fst_add, Prod.snd_add] at hfirst hsecond
  simp only [Mat2.form, Mat2.mulVec, Vec2.dot, Prod.fst_add, Prod.snd_add, Prod.fst_sub,
    Prod.snd_sub]
  rw [← hsymmetric, ← hgram] at *
  linear_combination 2 * (v.1 - mean.1) * hfirst + 2 * (v.2 - mean.2) * hsecond

theorem energy_nonneg (v : Vec2 K) : 0 ≤ Mat2.form prior.precision v :=
  (prior_definite prior).form.nonneg v

theorem update_shape_pos : 0 < (prior.update rows hours).shape := by
  have hrows : (0 : K) ≤ (rows.length : K) / ((2 : Nat) : K) :=
    div_nonneg (Nat.cast_nonneg _) (Nat.cast_nonneg _)
  exact add_pos_of_pos_of_nonneg prior.shape_pos hrows

theorem le_update_scale : prior.scale ≤ (prior.update rows hours).scale := by
  have hresiduals := residuals_nonneg rows (prior.update rows hours).mean
  have hdisplacement := energy_nonneg prior ((prior.update rows hours).mean - prior.mean)
  exact le_add_of_nonneg_right
    (div_nonneg (add_nonneg hresiduals hdisplacement) (Nat.cast_nonneg _))

theorem update_sound {sqrt : K → K} (hsqrt : ∀ x, 0 ≤ x → 0 ≤ sqrt x ∧ sqrt x * sqrt x = x) :
    (prior.update rows hours).Sound sqrt prior rows := by
  have hdefinite := posterior_definite prior (rows.map (·.1))
  refine {
    precision := hdefinite
    mean := update_normal prior rows hours
    factor := Mat2.mul_inverse hdefinite.2.2.ne'
    scale := le_update_scale prior rows hours
    cholesky := hdefinite.inverse.cholesky hsqrt
    predictive := fun previous => ?_ }
  have hleverage := hdefinite.inverse.form.nonneg (1, previous)
  have hratio := div_pos (prior.scale_pos.trans_le (le_update_scale prior rows hours))
    (update_shape_pos prior rows hours)
  exact mul_pos hratio (add_pos_of_pos_of_nonneg one_pos hleverage)

/-! ## Two posteriors -/

/-- A posterior is a prior. -/
theorem exists_continues : ∃ next : Prior K, (prior.update rows hours).Continues next := by
  have hdefinite := posterior_definite prior (rows.map (·.1))
  have hinverse := Mat2.inverse_inverse hdefinite.2.2.ne'
  refine ⟨{
    mean := (prior.update rows hours).mean
    precision := prior.precision + gram (rows.map (·.1))
    shape := (prior.update rows hours).shape
    scale := (prior.update rows hours).scale
    symmetric := hdefinite.1
    definite := hdefinite.2
    shape_pos := update_shape_pos prior rows hours
    scale_pos := prior.scale_pos.trans_le (le_update_scale prior rows hours) },
    ⟨rfl, hinverse.symm, rfl, rfl⟩⟩

variable {prior rows hours}

theorem Posterior.Continues.precision_eq {next : Prior K}
    (h : (prior.update rows hours).Continues next) :
    next.precision = prior.precision + gram (rows.map (·.1)) := by
  rw [h.precision]
  exact Mat2.inverse_inverse (posterior_definite prior _).2.2.ne'

/-- The posterior of some rows says what the prior and these rows say. -/
theorem Posterior.Continues.energy_eq {next : Prior K}
    (h : (prior.update rows hours).Continues next) (v : Vec2 K) :
    next.energy v = prior.energy v + residuals rows v := by
  have hsquare := completing_square prior rows hours v
  rw [Prior.energy, h.precision_eq, h.mean, h.scale]
  exact hsquare.symm

theorem update_append {next : Prior K} (h : (prior.update rows hours).Continues next)
    (rows' : List (K × K)) :
    (next.update rows' hours).mean = (prior.update (rows ++ rows') hours).mean ∧
      (next.update rows' hours).covarianceFactor =
        (prior.update (rows ++ rows') hours).covarianceFactor ∧
      (next.update rows' hours).shape = (prior.update (rows ++ rows') hours).shape ∧
      (next.update rows' hours).scale = (prior.update (rows ++ rows') hours).scale := by
  have hprecision : next.precision + gram (rows'.map (·.1)) =
      prior.precision + gram ((rows ++ rows').map (·.1)) := by
    rw [h.precision_eq, List.map_append, gram_append, add_assoc]
  have henergy : (fun v => prior.energy v + residuals (rows ++ rows') v) =
      fun v => next.energy v + residuals rows' v := by
    funext v
    rw [h.energy_eq, residuals_append, add_assoc]
  have hboth := completing_square prior (rows ++ rows') hours
  have hsecond := completing_square next rows' hours
  rw [hprecision, ← henergy] at hsecond
  have hform := (posterior_definite prior ((rows ++ rows').map (·.1))).form
  have hunique := Represents.unique hform hsecond hboth
  refine ⟨hunique.1, congrArg Mat2.inverse hprecision, ?_, ?_⟩
  · show next.shape + (rows'.length : K) / ((2 : Nat) : K) =
      prior.shape + ((rows ++ rows').length : K) / ((2 : Nat) : K)
    have hshape : next.shape = prior.shape + (rows.length : K) / ((2 : Nat) : K) := h.shape
    rw [hshape, List.length_append, Nat.cast_add, add_div, add_assoc]
  · exact mul_left_cancel₀ (Nat.cast_ne_zero.mpr two_ne_zero) hunique.2

theorem fit_sequential {rates : List K} {k : Nat} {hours : Int} {prior : Prior K}
    (hhours : 1 ≤ hours ∧ hours ≤ 24) (hfirst : 3 ≤ (rates.take k).length)
    (hsecond : 3 ≤ (rates.drop (k - 1)).length) :
    ∃ whole first next second, fit rates hours prior = .ok whole ∧
      fit (rates.take k) hours prior = .ok first ∧ first.Continues next ∧
      fit (rates.drop (k - 1)) hours next = .ok second ∧ second.mean = whole.mean ∧
      second.covarianceFactor = whole.covarianceFactor ∧ second.shape = whole.shape ∧
      second.scale = whole.scale := by
  rw [List.length_take] at hfirst
  have hlength : 3 ≤ rates.length := by omega
  obtain ⟨k, rfl⟩ : ∃ j, k = j + 1 := ⟨k - 1, by omega⟩
  rw [Nat.add_sub_cancel] at hsecond ⊢
  have hrows : fitRows rates = fitRows (rates.take (k + 1)) ++ fitRows (rates.drop k) := by
    rw [List.length_drop] at hsecond
    unfold fitRows
    rw [List.map_take, List.map_drop, ← transitions_split k _ (by rw [List.length_map]; omega)]
  obtain ⟨next, hnext⟩ := exists_continues prior (fitRows (rates.take (k + 1))) hours
  have hsame := update_append hnext (fitRows (rates.drop k))
  rw [← hrows] at hsame
  refine ⟨_, _, next, _, fit_accepts.mpr ⟨hhours, hlength, rfl⟩, fit_accepts.mpr ⟨hhours, ?_, rfl⟩,
    hnext, fit_accepts.mpr ⟨hhours, hsecond, rfl⟩, hsame⟩
  rw [List.length_take]
  exact hfirst

theorem fit_sound {sqrt : K → K} (hsqrt : ∀ x, 0 ≤ x → 0 ≤ sqrt x ∧ sqrt x * sqrt x = x)
    {rates : List K} {hours : Int} {prior : Prior K} {p : Posterior K}
    (h : fit rates hours prior = .ok p) : p.Sound sqrt prior (fitRows rates) := by
  obtain ⟨-, -, rfl⟩ := fit_accepts.mp h
  exact update_sound prior (fitRows rates) hours hsqrt

end Definite

/-- A fit in one step and a fit in two, over the reals. -/
theorem fit_consistent (prior : Prior ℝ) (rates : List ℝ) (hours : Int)
    (hhours : 1 ≤ hours ∧ hours ≤ 24) :
    (∀ k, 3 ≤ (rates.take k).length → 3 ≤ (rates.drop (k - 1)).length →
      ∃ whole first next second, fit rates hours prior = .ok whole ∧
        fit (rates.take k) hours prior = .ok first ∧ first.Continues next ∧
        fit (rates.drop (k - 1)) hours next = .ok second ∧ second.mean = whole.mean ∧
        second.covarianceFactor = whole.covarianceFactor ∧ second.shape = whole.shape ∧
        second.scale = whole.scale) ∧
    ∀ p, fit rates hours prior = .ok p → p.Sound Real.sqrt prior (fitRows rates) := by
  refine ⟨fun k hfirst hsecond => fit_sequential hhours hfirst hsecond, fun p hp => ?_⟩
  exact fit_sound (fun x hx => ⟨Real.sqrt_nonneg x, Real.mul_self_sqrt hx⟩) hp

/-- A prior whose coefficients are correlated. -/
def correlatedPrior : Prior ℝ where
  mean := (1, 0)
  precision := (((2 : Nat), 1), (1, 1))
  shape := (3 : Nat)
  scale := (5 : Nat)
  symmetric := rfl
  definite := by norm_num
  shape_pos := by norm_num
  scale_pos := by norm_num

theorem fit_consistent_correlated : ∃ whole first next second,
    fit [0, 1, 3, 2, 5] 8 correlatedPrior = .ok whole ∧
      fit [0, 1, 3] 8 correlatedPrior = .ok first ∧ first.Continues next ∧
      fit [3, 2, 5] 8 next = .ok second ∧ second.mean = whole.mean ∧
      second.covarianceFactor = whole.covarianceFactor ∧ second.shape = whole.shape ∧
      second.scale = whole.scale :=
  (fit_consistent correlatedPrior [0, 1, 3, 2, 5] 8 (by omega)).1 3 (by simp) (by simp)

end Models
end PerpCarry
