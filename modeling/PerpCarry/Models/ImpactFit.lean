import Mathlib.Algebra.Order.Ring.Rat
import Mathlib.Algebra.Order.Group.Unbundled.Abs
import Mathlib.Tactic.NormNum
import PerpCarry.Models.ImpactModel

/-!
# Models.ImpactFit

The fits of the impact model: `fit` of `python/perpcarry/models/impact_model.py`.

A window goes from group to depth to size regime to form, and each level is a function of the rows
that reach it. What a level needs from training rows alone is computed from the training rows that
it is given, next to what it needs from all of them.

* `fitForm_evaluated`: an evaluated record holds what its training rows teach, `Taught`.
* `fitDepth_evaluated`, `fitGroup_evaluated`: which training rows these are, level by level.
* `fit_evaluated`: they are picked from `trainingWindow`, whatever else the frame holds.
* `fit_training_only`: two frames with the same training rows teach a stratum the same.
-/

namespace PerpCarry
namespace Models
namespace ImpactModel

open Lib
open Strategy (bind_ok pure_ok)

/-! ## The report -/

inductive Depth where
  | insideValidatedDepth
  | beyondValidatedDepth
  deriving DecidableEq

inductive Regime where
  | allSizes
  | trainingSizeBin (i : Nat)
  deriving DecidableEq

/-- What the records of a size regime share. -/
structure Base (F : Type) where
  identity : Identity
  depth : Depth
  sizeRegime : Regime
  sizeBinEdgesAdvFraction : List F
  trainRows : Nat
  testRows : Nat
  trainDays : List Int
  testDays : List Int

/-- The law of one training day, or why there is none. -/
structure Daily (F : Type) where
  date : Int
  rows : Nat
  law : Except ImpactModelError (FittedLaw F)

structure Evaluated (F : Type) where
  base : Base F
  form : Form
  model : FittedLaw F
  trainMetrics : Metrics F
  testMetrics : Metrics F
  perTrainingDay : List (Daily F)
  dailyCoefficientStd : Option F
  trainingSizeMin : F
  trainingSizeMax : F
  zeroTrainingTargets : Nat
  negativeTrainingTargets : Nat
  usableAsNonnegativeImpactLaw : Bool
  fitRowsUsed : Nat

/-- What a record is about. -/
structure Stratum where
  identity : Identity
  depth : Depth
  sizeRegime : Regime
  form : Form
  deriving DecidableEq

def Evaluated.stratum {F : Type} (r : Evaluated F) : Stratum :=
  ⟨r.base.identity, r.base.depth, r.base.sizeRegime, r.form⟩

inductive FitRecord (F : Type) where
  | insufficientRows (identity : Identity) (depth : Depth) (trainRows testRows : Nat)
  | insufficientRegime (base : Base F)
  | unavailable (base : Base F) (form : Form) (reason : String)
  | evaluated (record : Evaluated F)

/-- A row of `diagnostics`. -/
structure Residual (F : Type) where
  row : Entry F
  training : Bool
  depth : Depth
  sizeRegime : Regime
  form : Form
  fittedBps : F
  residualBps : F
  outsideTrainingSizeRange : Bool

inductive GroupStatus where
  | insufficientDays
  | evaluated
  | noEvaluableDepthRegime
  deriving DecidableEq

structure Group where
  identity : Identity
  trainDays : List Int
  testDays : List Int
  excludedRows : Nat
  status : GroupStatus

structure FitReport (F : Type) where
  trainStart : Int
  trainEndExclusive : Int
  testEndExclusive : Int
  inputRows : Nat
  outsideWindowRows : Nat
  excludedRows : Nat
  crossedRows : Nat
  exhaustedRows : Nat
  groups : List Group
  fits : List (FitRecord F)
  diagnostics : List (Residual F)

/-- The record of the primary form that counts as a fit. -/
def FitRecord.primary {F : Type} : FitRecord F → Bool
  | .evaluated record => record.form = .squareRoot
  | _ => false

/-- The configuration; its `target` has one value that passes, the column that `Row` has. -/
structure FitConfig (F : Type) [LinearOrder F] [Zero F] [One F] where
  trainDays : Int := 90
  sizeQuantiles : List F
  days_pos : 1 ≤ trainDays
  increasing : sizeQuantiles.Pairwise (· < ·)
  inside : ∀ q ∈ sizeQuantiles, 0 < q ∧ q < 1

/-! ## Picking rows -/

section Rows

variable {F : Type}

/-- The days of some rows. -/
def daysOf (rows : List (Entry F)) : List Int := unique (rows.map (·.date))

/-- The rows that are fitted. -/
def goodRows (rows : List (Entry F)) : List (Entry F) := rows.filter fun e => !e.excluded

/-- The rows on one side of the validated depth. -/
def depthRows (good : List (Entry F)) (depth : Depth) : List (Entry F) :=
  good.filter fun e => e.beyondValidatedDepth = decide (depth = .beyondValidatedDepth)

variable (np : Numpy F)

/-- `np.searchsorted(edges, size, side="left")`. -/
def sizeBin (edges : List F) (e : Entry F) : Nat := edges.countP fun edge => np.lt edge e.advFraction

/-- The rows of a size regime. -/
def regimeRows (edges : List F) (rows : List (Entry F)) : Regime → List (Entry F)
  | .allSizes => rows
  | .trainingSizeBin i => rows.filter fun e => sizeBin np edges e = i

theorem regimeRows_filter (edges : List F) (rows : List (Entry F)) (regime : Regime)
    (p : Entry F → Bool) :
    (regimeRows np edges rows regime).filter p = regimeRows np edges (rows.filter p) regime := by
  cases regime with
  | allSizes => rfl
  | trainingSizeBin i => exact List.filter_comm _ _ _

end Rows

/-! ## The fits -/

variable {F : Type} [LinearOrder F] [Zero F] [One F] [Sub F] [Mul F] [Div F]

section Fit

variable (np : Numpy F) (config : FitConfig F) (trainEnd : Int)

def perTrainingDay (tr : List (Entry F)) (form : Form) : List (Daily F) :=
  (groupby (·.date) tr).map fun g =>
    ⟨g.1, g.2.length, fitLaw np (g.2.map (·.advFraction)) (g.2.map (·.slippageVsTouchBps)) form⟩

/-- The metrics of a law over some rows. -/
def score (law : FittedLaw F) (rows : List (Entry F)) : Except ImpactModelError (Metrics F) := do
  let predicted ← law.predict np (rows.map (·.advFraction))
  metrics np (rows.map (·.slippageVsTouchBps)) predicted

/-- The spread of the daily coefficients, when there are two. -/
def dailyStd (daily : List (Daily F)) : Option F :=
  let coefficients := daily.filterMap fun d => d.law.toOption.map (·.coefficient)
  if 1 < coefficients.length then some (np.std coefficients) else none

def rowsUsed (form : Form) (y : List F) : Nat :=
  if form = .powerDiagnostic then y.countP fun v => np.lt 0 v else y.length

/-- One form over the rows of a size regime. -/
def fitForm (base : Base F) (rows : List (Entry F)) (form : Form) :
    FitRecord F × List (Residual F) :=
  let tr := rows.filter (Entry.training trainEnd)
  let te := rows.filter fun e => !e.training trainEnd
  let x := tr.map (·.advFraction)
  let y := tr.map (·.slippageVsTouchBps)
  let attempt : Except ImpactModelError (FittedLaw F × List F × Metrics F × Metrics F) := do
    let law ← fitLaw np x y form
    let predictions ← law.predict np (rows.map (·.advFraction))
    let train ← score np law tr
    let test ← score np law te
    return (law, predictions, train, test)
  match attempt with
  | .error e => (.unavailable base form e.message, [])
  | .ok (law, predictions, train, test) =>
    let daily := perTrainingDay np tr form
    let record : Evaluated F := {
      base, form
      model := law
      trainMetrics := train
      testMetrics := test
      perTrainingDay := daily
      dailyCoefficientStd := dailyStd np daily
      trainingSizeMin := np.min x
      trainingSizeMax := np.max x
      zeroTrainingTargets := y.countP fun v => v = 0
      negativeTrainingTargets := y.countP fun v => np.lt v 0
      usableAsNonnegativeImpactLaw := np.le 0 law.coefficient && np.lt 0 law.exponent
      fitRowsUsed := rowsUsed np form y }
    let residuals := (rows.zip predictions).map fun p => {
      row := p.1
      training := p.1.training trainEnd
      depth := base.depth
      sizeRegime := base.sizeRegime
      form
      fittedBps := p.2
      residualBps := p.1.slippageVsTouchBps - p.2
      outsideTrainingSizeRange :=
        np.lt p.1.advFraction (np.min x) || np.lt (np.max x) p.1.advFraction }
    (.evaluated record, residuals)

/-- All forms over the rows of a size regime. -/
def fitRegime (identity : Identity) (depth : Depth) (edges : List F) (regime : Regime)
    (rows : List (Entry F)) : List (FitRecord F × List (Residual F)) :=
  let tr := rows.filter (Entry.training trainEnd)
  let te := rows.filter fun e => !e.training trainEnd
  let base : Base F := {
    identity, depth
    sizeRegime := regime
    sizeBinEdgesAdvFraction := edges
    trainRows := tr.length
    testRows := te.length
    trainDays := daysOf tr
    testDays := daysOf te }
  if tr.isEmpty || te.isEmpty then [(.insufficientRegime base, [])]
  else FORMS.map (fitForm np trainEnd base rows)

/-- The edges of the size bins, quantiles of the distinct training sizes. -/
def sizeEdges (train : List (Entry F)) : List F :=
  if config.sizeQuantiles.isEmpty then []
  else unique (np.quantile (unique (train.map (·.advFraction))) config.sizeQuantiles)

def regimes (edges : List F) : List Regime :=
  .allSizes :: if config.sizeQuantiles.isEmpty then []
    else (List.range (edges.length + 1)).map .trainingSizeBin

def fitDepth (identity : Identity) (good : List (Entry F)) (depth : Depth) :
    List (FitRecord F × List (Residual F)) :=
  let subset := depthRows good depth
  let train := subset.filter (Entry.training trainEnd)
  let test := subset.filter fun e => !e.training trainEnd
  if train.isEmpty || test.isEmpty then
    [(.insufficientRows identity depth train.length test.length, [])]
  else
    let edges := sizeEdges np config train
    (regimes config edges).flatMap fun regime =>
      fitRegime np trainEnd identity depth edges regime (regimeRows np edges subset regime)

/-- One group of the window, with its excluded rows. -/
def fitGroup (identity : Identity) (original : List (Entry F)) :
    Group × List (FitRecord F × List (Residual F)) :=
  let good := goodRows original
  let training := good.filter (Entry.training trainEnd)
  let testing := good.filter fun e => !e.training trainEnd
  let group (status : GroupStatus) : Group :=
    ⟨identity, daysOf training, daysOf testing, original.length - good.length, status⟩
  if training.isEmpty || testing.isEmpty then (group .insufficientDays, [])
  else
    let fits := [.insideValidatedDepth, .beyondValidatedDepth].flatMap
      (fitDepth np config trainEnd identity good)
    (group (if fits.any (·.1.primary) then .evaluated else .noEvaluableDepthRegime), fits)

def fit (frame : List (Row F)) (testEnd : Int) : Except ImpactModelError (FitReport F) := do
  require (trainEnd < testEnd) "test_end must follow the exclusive training cutoff"
  let start := trainEnd - config.trainDays
  require (frame ≠ []) "empty or incomplete calibration data"
  let window ← validate np (frame.filter (Row.within start testEnd))
  let fitted := (groupby Entry.identity window).map fun g => fitGroup np config trainEnd g.1 g.2
  let fits := fitted.flatMap (·.2)
  require (fits.any (·.1.primary))
    "need eligible earlier training and later held-out days in the same group/depth"
  return {
    trainStart := start
    trainEndExclusive := trainEnd
    testEndExclusive := testEnd
    inputRows := frame.length
    outsideWindowRows := frame.length - window.length
    excludedRows := window.countP (·.excluded)
    crossedRows := window.countP (·.crossedAtEntry)
    exhaustedRows := window.countP (·.exhaustedBook)
    groups := fitted.map (·.1)
    fits := fits.map (·.1)
    diagnostics := fits.flatMap (·.2) }

end Fit

/-! ## What a record is taught -/

/-- The training part of a record, from the training rows of its stratum. -/
structure Taught (np : Numpy F) (tr : List (Entry F)) (r : Evaluated F) : Prop where
  model : fitLaw np (tr.map (·.advFraction)) (tr.map (·.slippageVsTouchBps)) r.form = .ok r.model
  train_metrics : score np r.model tr = .ok r.trainMetrics
  per_day : r.perTrainingDay = perTrainingDay np tr r.form
  daily_std : r.dailyCoefficientStd = dailyStd np r.perTrainingDay
  size_min : r.trainingSizeMin = np.min (tr.map (·.advFraction))
  size_max : r.trainingSizeMax = np.max (tr.map (·.advFraction))
  zero : r.zeroTrainingTargets = (tr.map (·.slippageVsTouchBps)).countP fun v => v = 0
  negative : r.negativeTrainingTargets =
    (tr.map (·.slippageVsTouchBps)).countP fun v => np.lt v 0
  usable : r.usableAsNonnegativeImpactLaw =
    (np.le 0 r.model.coefficient && np.lt 0 r.model.exponent)
  used : r.fitRowsUsed = rowsUsed np r.form (tr.map (·.slippageVsTouchBps))

theorem fitForm_evaluated {np : Numpy F} {trainEnd : Int} {base : Base F} {rows : List (Entry F)}
    {form : Form} {r : Evaluated F} (h : (fitForm np trainEnd base rows form).1 = .evaluated r) :
    r.base = base ∧ r.form = form ∧ Taught np (rows.filter (Entry.training trainEnd)) r := by
  unfold fitForm at h
  dsimp only at h
  split at h
  · cases h
  · rename_i law predictions train test hattempt
    simp only [bind_ok, pure_ok, Prod.mk.injEq] at hattempt
    obtain ⟨_, hlaw, _, _, _, htrain, _, _, rfl, _, rfl, _⟩ := hattempt
    cases h
    exact ⟨rfl, rfl, hlaw, htrain, rfl, rfl, rfl, rfl, rfl, rfl, rfl, rfl⟩

/-- The rows of a stratum among those of its group. -/
def stratumRows (np : Numpy F) (config : FitConfig F) (good : List (Entry F))
    (stratum : Stratum) : List (Entry F) :=
  let train := depthRows good stratum.depth
  regimeRows np (sizeEdges np config train) train stratum.sizeRegime

/-- What a record knows of its group's eligible training rows. -/
structure Learned (np : Numpy F) (config : FitConfig F) (good : List (Entry F)) (r : Evaluated F) :
    Prop where
  edges : r.base.sizeBinEdgesAdvFraction = sizeEdges np config (depthRows good r.base.depth)
  train_rows : r.base.trainRows = (stratumRows np config good r.stratum).length
  train_days : r.base.trainDays = daysOf (stratumRows np config good r.stratum)
  taught : Taught np (stratumRows np config good r.stratum) r

theorem fitRegime_evaluated {np : Numpy F} {trainEnd : Int} {identity : Identity} {depth : Depth}
    {edges : List F} {regime : Regime} {rows : List (Entry F)} {r : Evaluated F}
    {p : FitRecord F × List (Residual F)}
    (hp : p ∈ fitRegime np trainEnd identity depth edges regime rows) (hr : p.1 = .evaluated r) :
    r.base.identity = identity ∧ r.base.depth = depth ∧ r.base.sizeRegime = regime ∧
      r.base.sizeBinEdgesAdvFraction = edges ∧
      r.base.trainRows = (rows.filter (Entry.training trainEnd)).length ∧
      r.base.trainDays = daysOf (rows.filter (Entry.training trainEnd)) ∧
      Taught np (rows.filter (Entry.training trainEnd)) r := by
  unfold fitRegime at hp
  dsimp only at hp
  split at hp
  · rw [List.mem_singleton.mp hp] at hr
    cases hr
  · obtain ⟨form, _, rfl⟩ := List.mem_map.mp hp
    obtain ⟨hbase, _, htaught⟩ := fitForm_evaluated hr
    rw [hbase]
    exact ⟨rfl, rfl, rfl, rfl, rfl, rfl, htaught⟩

theorem fitDepth_evaluated {np : Numpy F} {config : FitConfig F} {trainEnd : Int}
    {identity : Identity} {good : List (Entry F)} {depth : Depth} {r : Evaluated F}
    {p : FitRecord F × List (Residual F)}
    (hp : p ∈ fitDepth np config trainEnd identity good depth) (hr : p.1 = .evaluated r) :
    r.base.identity = identity ∧
      Learned np config (good.filter (Entry.training trainEnd)) r := by
  unfold fitDepth at hp
  dsimp only at hp
  split at hp
  · rw [List.mem_singleton.mp hp] at hr
    cases hr
  · obtain ⟨regime, _, hp⟩ := List.mem_flatMap.mp hp
    obtain ⟨hidentity, rfl, rfl, hedges, hrows, hdays, htaught⟩ := fitRegime_evaluated hp hr
    have hdepth : (depthRows good r.base.depth).filter (Entry.training trainEnd) =
        depthRows (good.filter (Entry.training trainEnd)) r.base.depth := List.filter_comm _ _ _
    rw [regimeRows_filter, hdepth] at hrows hdays htaught
    rw [hdepth] at hedges
    exact ⟨hidentity, hedges, hrows, hdays, htaught⟩

theorem fitGroup_evaluated {np : Numpy F} {config : FitConfig F} {trainEnd : Int}
    {identity : Identity} {original : List (Entry F)} {r : Evaluated F}
    {p : FitRecord F × List (Residual F)}
    (hp : p ∈ (fitGroup np config trainEnd identity original).2) (hr : p.1 = .evaluated r) :
    r.base.identity = identity ∧
      Learned np config (goodRows (original.filter (Entry.training trainEnd))) r := by
  unfold fitGroup at hp
  dsimp only at hp
  split at hp
  · cases hp
  · obtain ⟨depth, _, hp⟩ := List.mem_flatMap.mp hp
    obtain ⟨hidentity, hlearned⟩ := fitDepth_evaluated hp hr
    have hgood : (goodRows original).filter (Entry.training trainEnd) =
        goodRows (original.filter (Entry.training trainEnd)) := List.filter_comm _ _ _
    rw [hgood] at hlearned
    exact ⟨hidentity, hlearned⟩

/-- The eligible rows of a group. -/
def groupRows (rows : List (Entry F)) (identity : Identity) : List (Entry F) :=
  goodRows (rows.filter fun e => e.identity = identity)

theorem fit_evaluated {np : Numpy F} {config : FitConfig F} {trainEnd testEnd : Int}
    {frame : List (Row F)} {report : FitReport F} {r : Evaluated F}
    (h : fit np config trainEnd frame testEnd = .ok report) (hr : .evaluated r ∈ report.fits) :
    Learned np config (groupRows (trainingWindow (trainEnd - config.trainDays) trainEnd frame)
      r.base.identity) r := by
  unfold fit at h
  simp only [bind_ok, pure_ok, require_ok] at h
  obtain ⟨_, horder, _, _, window, hwindow, _, _, rfl⟩ := h
  obtain ⟨rfl, _⟩ := validate_ok hwindow
  obtain ⟨p, hp, heq⟩ := List.mem_map.mp hr
  obtain ⟨fitted, hfitted, hp⟩ := List.mem_flatMap.mp hp
  obtain ⟨g, hg, rfl⟩ := List.mem_map.mp hfitted
  obtain ⟨hidentity, hlearned⟩ := fitGroup_evaluated hp heq
  rw [(mem_groupby.mp hg).2, List.filter_comm, training_window horder.le, ← hidentity] at hlearned
  unfold groupRows
  convert hlearned

/-- Two records taught by the same rows hold the same. -/
theorem Taught.unique {np : Numpy F} {tr : List (Entry F)} {x y : Evaluated F}
    (hx : Taught np tr x) (hy : Taught np tr y) (hform : x.form = y.form) :
    x.model = y.model ∧ x.trainMetrics = y.trainMetrics ∧ x.perTrainingDay = y.perTrainingDay := by
  have hmodel : x.model = y.model := by
    have := hx.model
    rw [hform, hy.model] at this
    exact (Except.ok.inj this).symm
  refine ⟨hmodel, ?_, ?_⟩
  · have := hx.train_metrics
    rw [hmodel, hy.train_metrics] at this
    exact (Except.ok.inj this).symm
  · rw [hx.per_day, hy.per_day, hform]

theorem fit_training_only (np : Numpy F) (config : FitConfig F) (trainEnd testEnd : Int)
    {a b : List (Row F)} {ra rb : FitReport F} {x y : Evaluated F}
    (hrows : (a.filter (Row.within (trainEnd - config.trainDays) trainEnd)).Perm
      (b.filter (Row.within (trainEnd - config.trainDays) trainEnd)))
    (ha : fit np config trainEnd a testEnd = .ok ra) (hb : fit np config trainEnd b testEnd = .ok rb)
    (hx : .evaluated x ∈ ra.fits) (hy : .evaluated y ∈ rb.fits) (hstratum : x.stratum = y.stratum) :
    x.model = y.model ∧
      x.base.sizeBinEdgesAdvFraction = y.base.sizeBinEdgesAdvFraction ∧
      (x.trainingSizeMin = y.trainingSizeMin ∧ x.trainingSizeMax = y.trainingSizeMax) ∧
      x.perTrainingDay = y.perTrainingDay ∧ x.dailyCoefficientStd = y.dailyCoefficientStd ∧
      (x.base.trainRows = y.base.trainRows ∧ x.base.trainDays = y.base.trainDays ∧
        x.zeroTrainingTargets = y.zeroTrainingTargets ∧
        x.negativeTrainingTargets = y.negativeTrainingTargets ∧ x.fitRowsUsed = y.fitRowsUsed) ∧
      x.usableAsNonnegativeImpactLaw = y.usableAsNonnegativeImpactLaw ∧
      x.trainMetrics = y.trainMetrics := by
  have hwindow : trainingWindow (trainEnd - config.trainDays) trainEnd a =
      trainingWindow (trainEnd - config.trainDays) trainEnd b :=
    sortValues_congr Entry.key_injective (hrows.filterMap _)
  have hidentity : x.base.identity = y.base.identity := congrArg Stratum.identity hstratum
  have hdepth : x.base.depth = y.base.depth := congrArg Stratum.depth hstratum
  have hform : x.form = y.form := congrArg Stratum.form hstratum
  have hlearned := fit_evaluated ha hx
  rw [hwindow, hidentity] at hlearned
  obtain ⟨hedges, hrows, hdays, htaught⟩ := hlearned
  obtain ⟨hedges', hrows', hdays', htaught'⟩ := fit_evaluated hb hy
  rw [hstratum] at hrows hdays htaught
  obtain ⟨hmodel, hmetrics, hdaily⟩ := htaught.unique htaught' hform
  refine ⟨hmodel, ?_, ⟨?_, ?_⟩, hdaily, ?_, ⟨?_, ?_, ?_, ?_, ?_⟩, ?_, hmetrics⟩
  · rw [hedges, hedges', hdepth]
  · rw [htaught.size_min, htaught'.size_min]
  · rw [htaught.size_max, htaught'.size_max]
  · rw [htaught.daily_std, htaught'.daily_std, hdaily]
  · rw [hrows, hrows']
  · rw [hdays, hdays']
  · rw [htaught.zero, htaught'.zero]
  · rw [htaught.negative, htaught'.negative]
  · rw [htaught.used, htaught'.used, hform]
  · rw [htaught.usable, htaught'.usable, hmodel]

/-! ## A changed test day -/

/-- The stratum of a record that was evaluated. -/
def FitRecord.stratum : FitRecord F → Option Stratum
  | .evaluated r => some r.stratum
  | _ => none

theorem exists_evaluated (np : Numpy F) (config : FitConfig F) (trainEnd testEnd : Int)
    (frame : List (Row F)) (s : Stratum)
    (h : ((fit np config trainEnd frame testEnd).toOption.any fun report =>
      report.fits.any fun record => record.stratum = some s) = true) :
    ∃ report r, fit np config trainEnd frame testEnd = .ok report ∧ .evaluated r ∈ report.fits ∧
      r.stratum = s := by
  cases hfit : fit np config trainEnd frame testEnd with
  | error e =>
    rw [hfit] at h
    cases h
  | ok report =>
    rw [hfit] at h
    obtain ⟨record, hmem, hrecord⟩ := List.any_eq_true.mp h
    cases record with
    | evaluated r => exact ⟨report, r, rfl, hmem, Option.some.inj (of_decide_eq_true hrecord)⟩
    | insufficientRows => cases of_decide_eq_true hrecord
    | insufficientRegime => cases of_decide_eq_true hrecord
    | unavailable => cases of_decide_eq_true hrecord

/-- Exact arithmetic, with the powers, roots and logarithms of one. -/
def unitNumpy : Numpy ℚ where
  lt := fun a b => a < b
  le := fun a b => a ≤ b
  isFinite := fun _ => true
  ofNat := Nat.cast
  half := 1 / 2
  power := fun size _ => size
  log := fun _ => 0
  exp := fun _ => 1
  sqrt := fun x => x
  abs := fun x => |x|
  min := fun xs => xs.foldr min (xs.headD 0)
  max := fun xs => xs.foldr max (xs.headD 0)
  mean := fun xs => xs.sum / xs.length
  std := fun _ => 0
  dot := fun xs ys => (xs.zipWith (· * ·) ys).sum
  quantile := fun _ _ => []

def unitConfig : FitConfig ℚ where
  trainDays := 30
  sizeQuantiles := []
  days_pos := by norm_num
  increasing := .nil
  inside := by simp

def unitRow (date : Int) (slippage : ℚ) : Row ℚ :=
  ⟨some "SOLUSDT", some "buy", some "static", some date, .ms (date * DAY_MS), 1, slippage,
    some false, some false, some false⟩

def unitStratum : Stratum :=
  ⟨toLex ("SOLUSDT", toLex (.buy, .static)), .insideValidatedDepth, .allSizes, .squareRoot⟩

/-- The mean stands for every quantile. -/
def meanNumpy : Numpy ℚ :=
  { unitNumpy with quantile := fun sizes quantiles => quantiles.map fun _ => sizes.sum / sizes.length }

def halvesConfig : FitConfig ℚ where
  trainDays := 30
  sizeQuantiles := [1 / 2]
  days_pos := by norm_num
  increasing := List.pairwise_singleton _ _
  inside := by norm_num

def sizedRow (date : Int) (size slippage : ℚ) : Row ℚ :=
  { unitRow date slippage with advFraction := size }

def trainingRows : List (Row ℚ) :=
  [sizedRow 97 1 40, sizedRow 98 2 41, sizedRow 98 4 44, sizedRow 99 5 47]

/-- The larger half of the sizes. -/
def largeStratum : Stratum := { unitStratum with sizeRegime := .trainingSizeBin 1 }

/-- The training rows in another order, behind other test rows. -/
theorem fit_training_only_changedDay :
    let before := trainingRows ++ [sizedRow 100 2 41, sizedRow 100 5 50]
    let after := [sizedRow 100 6 39, sizedRow 400 1 0] ++ trainingRows.reverse
    ∃ ra rb x y, fit meanNumpy halvesConfig 100 before 101 = .ok ra ∧
      fit meanNumpy halvesConfig 100 after 101 = .ok rb ∧
      .evaluated x ∈ ra.fits ∧ .evaluated y ∈ rb.fits ∧ x.stratum = largeStratum ∧
      x.model = y.model := by
  intro before after
  obtain ⟨ra, x, ha, hx, hxs⟩ := exists_evaluated meanNumpy halvesConfig 100 101 before
    largeStratum (by decide +kernel)
  obtain ⟨rb, y, hb, hy, hys⟩ := exists_evaluated meanNumpy halvesConfig 100 101 after
    largeStratum (by decide +kernel)
  have hrows : (before.filter (Row.within (100 - halvesConfig.trainDays) 100)).Perm
      (after.filter (Row.within (100 - halvesConfig.trainDays) 100)) := by
    decide +kernel
  exact ⟨ra, rb, x, y, ha, hb, hx, hy, hxs, (fit_training_only meanNumpy halvesConfig 100 101 hrows
    ha hb hx hy (hxs.trans hys.symm)).1⟩

end ImpactModel
end Models
end PerpCarry
