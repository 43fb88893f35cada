import PerpCarry.Core.Digest
import PerpCarry.Core.Raised
import PerpCarry.Lib.EventRun
import PerpCarry.Models.ImpactStrata

/-!
# Models.ImpactArtifact

The impact artifact and its checks: `python/perpcarry/models/impact_model_io.py`.

An artifact is a dictionary that was built or read elsewhere, so what it says is text and numbers
again: a side, a schedule or a size regime is any text here. A date is its day number, as in a
report; the fields and their types are those of the structures.

* `Regime.ofText_text`: a size regime is read back from its text.
* `validateFit_valid`: when a fitted law passes, `Fit.Valid`.
* `run_validateInput`, `run_validateStep`: the loops over the inputs and over the laws.
* `validateArtifact_valid`: when an artifact passes, `Artifact.Valid`.
* `law_mem`, `law_missing`: what is read from one that does.
-/

namespace PerpCarry
namespace Models
namespace ImpactModel

open Lib
open Strategy (bind_ok pure_ok)

/-! ## Texts -/

def Depth.text : Depth → String
  | .insideValidatedDepth => "inside_validated_depth"
  | .beyondValidatedDepth => "beyond_validated_depth"

def Form.text : Form → String
  | .squareRoot => "square_root"
  | .linear => "linear"
  | .powerDiagnostic => "power_diagnostic"

def Regime.text : Regime → String
  | .allSizes => "all_sizes"
  | .trainingSizeBin i => "training_size_bin_" ++ i.repr

/-- What is matched by `all_sizes|training_size_bin_\d+`, with the number read. The digits are the
ten of ASCII. -/
def Regime.ofText (text : String) : Option Regime :=
  let digits := text.toList.drop 18
  if text = "all_sizes" then some .allSizes
  else if text.toList.take 18 = "training_size_bin_".toList ∧ digits ≠ [] ∧
      digits.all Char.isDigit then
    some (.trainingSizeBin (Nat.ofDigitChars 10 digits 0))
  else none

theorem Regime.ofText_text (regime : Regime) : Regime.ofText regime.text = some regime := by
  cases regime with
  | allSizes => rfl
  | trainingSizeBin i =>
    have htext : (Regime.trainingSizeBin i).text = "training_size_bin_" ++ i.repr := rfl
    have hlist : (Regime.trainingSizeBin i).text.toList =
        "training_size_bin_".toList ++ Nat.toDigits 10 i := by
      rw [htext, String.toList_append, Nat.toList_repr]
    have hlength : "training_size_bin_".toList.length = 18 := by decide
    have htake : (Regime.trainingSizeBin i).text.toList.take 18 = "training_size_bin_".toList := by
      rw [hlist]
      exact List.take_left' hlength
    have hdrop : (Regime.trainingSizeBin i).text.toList.drop 18 = Nat.toDigits 10 i := by
      rw [hlist]
      exact List.drop_left' hlength
    have hne : (Regime.trainingSizeBin i).text ≠ "all_sizes" := by
      intro h
      rw [h] at htake
      cases htake
    have hdigits : (Nat.toDigits 10 i).all Char.isDigit = true := by
      rw [List.all_eq_true]
      exact fun c hc => Nat.isDigit_of_mem_toDigits (by decide) (by decide) hc
    have hnonempty : Nat.toDigits 10 i ≠ [] := Nat.toDigits_ne_nil
    simp only [Regime.ofText, htake, hdrop, if_neg hne, hdigits, hnonempty, ne_eq, not_false_iff,
      and_self, if_true, Nat.ofDigitChars_ten_toDigits]

theorem Depth.text_injective : Function.Injective Depth.text := by
  intro a b h
  cases a
  · cases b
    · rfl
    · exact absurd h (by decide)
  · cases b
    · exact absurd h (by decide)
    · rfl

def Form.ofText (text : String) : Option Form := FORMS.find? fun form => form.text = text

theorem Form.ofText_text (form : Form) : Form.ofText form.text = some form := by
  cases form <;> rfl

theorem Regime.text_injective : Function.Injective Regime.text :=
  injective_of_read Regime.ofText_text

theorem Form.text_injective : Function.Injective Form.text := injective_of_read Form.ofText_text

/-- `text.strip()` leaves something. -/
def nonblank (text : String) : Bool := text.toList.any fun c => !isSpace c

/-! ## The artifact -/

/-- `asdict` of a fitted law. -/
structure ModelDict (F : Type) where
  form : String
  coefficient : F
  exponent : F
  deriving DecidableEq

def FittedLaw.asdict {F : Type} (law : FittedLaw F) : ModelDict F :=
  ⟨law.form.text, law.coefficient, law.exponent⟩

/-- `FIT_FIELDS`. -/
structure Fit (F : Type) where
  side : String
  schedule : String
  depth : String
  sizeRegime : String
  sizeBinEdgesAdvFraction : List F
  model : ModelDict F
  trainRows : Int
  testRows : Int
  trainDays : List Int
  testDays : List Int
  trainingSizeMin : F
  trainingSizeMax : F
  usableAsNonnegativeImpactLaw : Bool
  zeroTrainingTargets : Int
  negativeTrainingTargets : Int
  fitRowsUsed : Int
  beyondValidatedDepthRows : Int

structure Input where
  symbol : String
  date : Int
  manifestSha256 : String

/-- `PROVENANCE_FIELDS`. -/
structure Provenance where
  kind : String
  fitDate : Int
  codeVersion : String
  fittingSourceSha256 : String
  inputs : List Input
  corpusDays : List Int
  supportingTrainRows : Int
  supportingTestRows : Int
  rowCountScope : String

/-- `ARTIFACT_FIELDS`. -/
structure Artifact (F : Type) where
  schemaVersion : Int
  symbol : String
  primaryForm : String
  target : String
  sizeUnit : String
  outputUnit : String
  trainStart : Int
  trainEndExclusive : Int
  testEndExclusive : Int
  provenance : Provenance
  caveats : List String
  fits : List (Fit F)

def TARGET : String := "slippage_vs_touch_bps"
def SCHEMA_VERSION : Int := 1
def SIZE_UNIT : String := "ADV fraction"
def ROW_COUNT_SCOPE : String :=
  "unique rows supporting all_sizes square_root fits; bins/forms overlap"

/-- Side, schedule, depth, size regime and form, as texts. -/
abbrev LawKey := String × String × String × String × String

namespace Fit

variable {F : Type}

def key (f : Fit F) : LawKey := (f.side, f.schedule, f.depth, f.sizeRegime, f.model.form)

/-- Whether this is a law that `supporting_train_rows` counts. -/
def primary (f : Fit F) : Bool := f.sizeRegime = "all_sizes" ∧ f.model.form = "square_root"

def days (f : Fit F) : List Int := f.trainDays ++ f.testDays

end Fit

/-! ## The checks -/

def requireText (value name : String) : Except ImpactModelError Unit :=
  require (nonblank value = true) s!"{name}: expected nonempty text"

def requireCount (value : Int) (name : String) : Except ImpactModelError Unit :=
  require (0 ≤ value) s!"{name}: expected nonnegative integer"

def requireDays (days : List Int) : Except ImpactModelError Unit :=
  require (days ≠ [] ∧ days = unique days) "days must be nonempty, sorted and unique"

def requireDigest (value : String) : Except ImpactModelError Unit :=
  require (isDigest value = true) "expected SHA-256 digest"

/-- `for value in values: check(value)`. -/
def requireAll {α : Type} (check : α → Except ImpactModelError Unit) :
    List α → Except ImpactModelError Unit
  | [] => .ok ()
  | value :: values => do
    check value
    requireAll check values

theorem requireAll_ok {α : Type} {check : α → Except ImpactModelError Unit} {values : List α}
    (h : ∀ value ∈ values, check value = .ok ()) : requireAll check values = .ok () := by
  induction values with
  | nil => rfl
  | cons value values ih =>
    obtain ⟨hvalue, hvalues⟩ := List.forall_mem_cons.mp h
    rw [requireAll, hvalue]
    exact ih hvalues

/-- One of the inputs; the state is the days of those before. -/
def validateInput (symbol : String) (start finish : Int) (inputDays : List Int) (item : Input) :
    Except ImpactModelError (List Int) := do
  require (item.symbol = symbol) "input symbol mismatch"
  require ((start ≤ item.date ∧ item.date < finish) ∧ item.date ∉ inputDays)
    "duplicate or out-of-fold input"
  requireDigest item.manifestSha256
  return inputDays ++ [item.date]

/-- `_validate_provenance`. -/
def validateProvenance (p : Provenance) (symbol : String) (start finish : Int) :
    Except ImpactModelError (List Int) := do
  require (p.kind = "synthetic" ∨ p.kind = "verified_calibration") "unknown provenance kind"
  requireText p.codeVersion "code_version"
  requireDigest p.fittingSourceSha256
  require (p.rowCountScope = ROW_COUNT_SCOPE) "unsupported row count scope"
  requireCount p.supportingTrainRows "supporting_train_rows"
  requireCount p.supportingTestRows "supporting_test_rows"
  requireDays p.corpusDays
  require (∀ day ∈ p.corpusDays, start ≤ day ∧ day < finish) "corpus day outside fold"
  let inputDays ← run (validateInput symbol start finish) [] p.inputs
  require (p.kind = "verified_calibration" → ∀ day ∈ p.corpusDays, day ∈ inputDays)
    "missing calibration evidence for corpus days"
  return p.corpusDays

/-- The days of one side of the split. -/
def validateSplit (low high : Int) (rows : Int) (days : List Int) :
    Except ImpactModelError Unit := do
  requireDays days
  require (∀ day ∈ days, low ≤ day ∧ day < high) "fit days violate chronological split"
  require ((days.length : Int) ≤ rows) "more days than rows"

/-- What the loop over the fitted laws collects. -/
structure Tally where
  identities : List LawKey
  days : List Int
  trainRows : Int
  testRows : Int
  hasPrimary : Bool

/-- The tally after some valid laws. -/
def Tally.add {F : Type} (tally : Tally) (fits : List (Fit F)) : Tally where
  identities := tally.identities ++ fits.map Fit.key
  days := tally.days ++ fits.flatMap Fit.days
  trainRows := tally.trainRows + ((fits.filter Fit.primary).map Fit.trainRows).sum
  testRows := tally.testRows + ((fits.filter Fit.primary).map Fit.testRows).sum
  hasPrimary := tally.hasPrimary || fits.any Fit.primary

theorem Tally.add_cons {F : Type} (tally : Tally) (f : Fit F) (fits : List (Fit F)) :
    (tally.add [f]).add fits = tally.add (f :: fits) := by
  cases hprimary : f.primary with
  | true => simp [Tally.add, hprimary, Int.add_assoc]
  | false => simp [Tally.add, hprimary]

section Fit

variable {F : Type} [LinearOrder F] [Zero F] [One F] (np : Numpy F)

def requireNumber (value : F) (name : String) : Except ImpactModelError Unit :=
  require (np.isFinite value = true) s!"{name}: expected finite number"

def requireSize (size : F) : Except ImpactModelError Unit := do
  requireNumber np size "size"
  require (np.le size 0 = false) "size must be positive ADV fraction"

/-- `regime == "all_sizes" or int(regime.rsplit("_", 1)[1]) <= edges`. -/
def binInside (edges : Nat) : Option Regime → Bool
  | some (.trainingSizeBin i) => i ≤ edges
  | _ => true

/-- `fixed`. -/
def fixedExponent (form : String) : Option F :=
  if form = "square_root" then some np.half else if form = "linear" then some 1 else none

/-- `_validate_fit`. -/
def validateFit (start cutoff finish : Int) (f : Fit F) :
    Except ImpactModelError (LawKey × List Int) := do
  require ((Form.ofText f.model.form).isSome ∧
      (f.depth = "inside_validated_depth" ∨ f.depth = "beyond_validated_depth") ∧
      (f.side = "buy" ∨ f.side = "sell")) "unsupported fit identity"
  requireText f.schedule "schedule"
  require (Regime.ofText f.sizeRegime).isSome "unsupported size regime"
  requireNumber np f.model.coefficient "coefficient"
  requireNumber np f.model.exponent "exponent"
  require (∀ exponent ∈ fixedExponent np f.model.form, f.model.exponent = exponent)
    "exponent disagrees with form"
  require (f.usableAsNonnegativeImpactLaw =
      (np.le 0 f.model.coefficient && np.lt 0 f.model.exponent)) "incorrect usability flag"
  requireCount f.trainRows "train_rows"
  requireCount f.testRows "test_rows"
  requireCount f.zeroTrainingTargets "zero_training_targets"
  requireCount f.negativeTrainingTargets "negative_training_targets"
  requireCount f.fitRowsUsed "fit_rows_used"
  requireCount f.beyondValidatedDepthRows "beyond_validated_depth_rows"
  require (f.trainRows ≠ 0 ∧ f.testRows ≠ 0) "evaluated fit requires training and test rows"
  require (f.zeroTrainingTargets + f.negativeTrainingTargets ≤ f.trainRows) "invalid target counts"
  require (f.fitRowsUsed = f.trainRows - if f.model.form = "power_diagnostic" then
      f.zeroTrainingTargets + f.negativeTrainingTargets else 0) "invalid fitted row count"
  require (f.beyondValidatedDepthRows = if f.depth = "beyond_validated_depth" then
      f.trainRows + f.testRows else 0) "incorrect beyond-depth count"
  validateSplit start cutoff f.trainRows f.trainDays
  validateSplit cutoff finish f.testRows f.testDays
  requireAll (requireSize np) (f.sizeBinEdgesAdvFraction ++ [f.trainingSizeMin, f.trainingSizeMax])
  require (f.sizeBinEdgesAdvFraction = unique f.sizeBinEdgesAdvFraction ∧
      np.lt f.trainingSizeMax f.trainingSizeMin = false) "invalid size boundaries"
  require (binInside f.sizeBinEdgesAdvFraction.length (Regime.ofText f.sizeRegime) = true)
    "size bin outside edges"
  return (f.key, f.days)

def validateStep (start cutoff finish : Int) (tally : Tally) (f : Fit F) :
    Except ImpactModelError Tally := do
  let (identity, fitDays) ← validateFit np start cutoff finish f
  require (identity ∉ tally.identities) "duplicate fitted law"
  return {
    identities := tally.identities ++ [identity]
    days := tally.days ++ fitDays
    trainRows := tally.trainRows + if f.primary then f.trainRows else 0
    testRows := tally.testRows + if f.primary then f.testRows else 0
    hasPrimary := tally.hasPrimary || f.primary }

/-- `validate`. -/
def validateArtifact (a : Artifact F) : Except ImpactModelError Unit := do
  require (a.schemaVersion = SCHEMA_VERSION) "unknown schema version"
  requireText a.symbol "symbol"
  require (a.primaryForm = "square_root" ∧ a.target = TARGET ∧ a.sizeUnit = SIZE_UNIT ∧
    a.outputUnit = "bps") "unsupported form, target or units"
  require (a.trainStart < a.trainEndExclusive ∧ a.trainEndExclusive < a.testEndExclusive)
    "invalid chronological window"
  let corpusDays ← validateProvenance a.provenance a.symbol a.trainStart a.testEndExclusive
  require (a.caveats ≠ []) "caveats required"
  requireAll (requireText · "caveat") a.caveats
  require (a.fits.isEmpty = false) "no fitted laws"
  let tally ← run (validateStep np a.trainStart a.trainEndExclusive a.testEndExclusive)
    ⟨[], [], 0, 0, false⟩ a.fits
  require (tally.hasPrimary = true ∧ unique tally.days = corpusDays ∧
      tally.trainRows = a.provenance.supportingTrainRows ∧
      tally.testRows = a.provenance.supportingTestRows)
    "primary law or provenance counts/days disagree"

/-- `law`. -/
def Artifact.law (a : Artifact F) (key : LawKey) : Except ImpactModelError (ModelDict F) := do
  validateArtifact np a
  match a.fits.find? fun f => f.key = key with
  | some f => .ok f.model
  | none => .error ⟨"requested fitted stratum is unavailable"⟩

/-! ## What passes -/

/-- What `_validate_fit` asks of a law. -/
structure Fit.Valid (start cutoff finish : Int) (f : Fit F) : Prop where
  form : (Form.ofText f.model.form).isSome
  depth : f.depth = "inside_validated_depth" ∨ f.depth = "beyond_validated_depth"
  side : f.side = "buy" ∨ f.side = "sell"
  schedule : nonblank f.schedule = true
  regime : (Regime.ofText f.sizeRegime).isSome
  finite : np.isFinite f.model.coefficient = true ∧ np.isFinite f.model.exponent = true
  fixed : ∀ exponent ∈ fixedExponent np f.model.form, f.model.exponent = exponent
  usable : f.usableAsNonnegativeImpactLaw =
    (np.le 0 f.model.coefficient && np.lt 0 f.model.exponent)
  targets : 0 ≤ f.zeroTrainingTargets ∧ 0 ≤ f.negativeTrainingTargets ∧
    f.zeroTrainingTargets + f.negativeTrainingTargets ≤ f.trainRows
  used : f.fitRowsUsed = f.trainRows - if f.model.form = "power_diagnostic" then
    f.zeroTrainingTargets + f.negativeTrainingTargets else 0
  deep : f.beyondValidatedDepthRows = if f.depth = "beyond_validated_depth" then
    f.trainRows + f.testRows else 0
  train : ∃ rows : Nat, f.trainRows = rows ∧ Days start cutoff rows f.trainDays
  test : ∃ rows : Nat, f.testRows = rows ∧ Days cutoff finish rows f.testDays
  sizes : ∀ size ∈ f.sizeBinEdgesAdvFraction ++ [f.trainingSizeMin, f.trainingSizeMax],
    Positive np size
  edges : f.sizeBinEdgesAdvFraction.Pairwise (· < ·)
  bounds : np.lt f.trainingSizeMax f.trainingSizeMin = false
  bin : binInside f.sizeBinEdgesAdvFraction.length (Regime.ofText f.sizeRegime) = true

variable {np} {start cutoff finish : Int} {f : Fit F}

theorem require_of {ok : Prop} [Decidable ok] {message : String} (h : ok) :
    require ok message = .ok () := require_ok.mpr h

theorem requireDays_of {days : List Int} (hnonempty : days ≠ [])
    (hincreasing : days.Pairwise (· < ·)) : requireDays days = .ok () :=
  require_of ⟨hnonempty, (unique_of_increasing hincreasing).symm⟩

theorem Days.length_pos {low high : Int} {rows : Nat} {days : List Int}
    (h : Days low high rows days) : 0 < rows :=
  (List.length_pos_iff.mpr h.nonempty).trans_le h.few

theorem validateSplit_of {low high : Int} {rows : Nat} {days : List Int}
    (h : Days low high rows days) : validateSplit low high rows days = .ok () := by
  unfold validateSplit
  rw [requireDays_of h.nonempty h.increasing, require_of h.inside,
    require_of (Int.ofNat_le.mpr h.few)]
  rfl

theorem validateFit_valid (h : f.Valid np start cutoff finish) :
    validateFit np start cutoff finish f = .ok (f.key, f.days) := by
  obtain ⟨trainRows, htrainRows, htrain⟩ := h.train
  obtain ⟨testRows, htestRows, htest⟩ := h.test
  have htrainPos := htrain.length_pos
  have htestPos := htest.length_pos
  have hused : 0 ≤ f.fitRowsUsed := by
    rw [h.used]
    split
    · have := h.targets.2.2
      omega
    · omega
  have hdeep : 0 ≤ f.beyondValidatedDepthRows := by
    rw [h.deep]
    split
    · omega
    · omega
  have hsizes : requireAll (requireSize np)
      (f.sizeBinEdgesAdvFraction ++ [f.trainingSizeMin, f.trainingSizeMax]) = .ok () := by
    refine requireAll_ok fun size hsize => ?_
    obtain ⟨hfinite, hpositive⟩ := h.sizes size hsize
    unfold requireSize requireNumber
    rw [require_of hfinite, require_of hpositive]
    rfl
  unfold validateFit requireText requireNumber requireCount
  rw [require_of ⟨h.form, h.depth, h.side⟩, require_of h.schedule, require_of h.regime,
    require_of h.finite.1, require_of h.finite.2, require_of h.fixed, require_of h.usable,
    require_of (by omega), require_of (by omega), require_of h.targets.1,
    require_of h.targets.2.1, require_of hused, require_of hdeep,
    require_of (by omega), require_of h.targets.2.2, require_of h.used, require_of h.deep,
    htrainRows, htestRows, validateSplit_of htrain, validateSplit_of htest, hsizes,
    require_of ⟨(unique_of_increasing h.edges).symm, h.bounds⟩, require_of h.bin]
  rfl

theorem validateStep_valid {tally : Tally} (h : f.Valid np start cutoff finish)
    (hfresh : f.key ∉ tally.identities) :
    validateStep np start cutoff finish tally f = .ok (tally.add [f]) := by
  unfold validateStep
  rw [validateFit_valid h]
  simp only [bind_ok, pure_ok]
  refine ⟨_, rfl, (), require_of hfresh, ?_⟩
  cases hprimary : f.primary with
  | true => simp [Tally.add, hprimary]
  | false => simp [Tally.add, hprimary]

/-- By induction on the laws: no identity comes twice. -/
theorem run_validateStep (fits : List (Fit F)) :
    ∀ tally : Tally, (∀ f ∈ fits, f.Valid np start cutoff finish) → (fits.map Fit.key).Nodup →
      (∀ f ∈ fits, f.key ∉ tally.identities) →
      run (validateStep np start cutoff finish) tally fits = .ok (tally.add fits) := by
  induction fits with
  | nil =>
    intro tally _ _ _
    simp [Tally.add]
  | cons f fits ih =>
    intro tally hvalid hnodup hfresh
    obtain ⟨hf, hvalid⟩ := List.forall_mem_cons.mp hvalid
    obtain ⟨hfirst, hfresh⟩ := List.forall_mem_cons.mp hfresh
    rw [List.map_cons, List.nodup_cons] at hnodup
    refine run_cons_ok.mpr ⟨_, validateStep_valid hf hfirst, ?_⟩
    rw [← Tally.add_cons tally f fits]
    refine ih (tally.add [f]) hvalid hnodup.2 fun g hg hmem => ?_
    simp only [Tally.add, List.map_cons, List.map_nil, List.mem_append, List.mem_singleton] at hmem
    rcases hmem with hmem | hmem
    · exact hfresh g hg hmem
    · exact hnodup.1 (hmem ▸ List.mem_map_of_mem hg)

end Fit

/-- What is asked of the inputs. -/
structure Evidence (symbol : String) (start finish : Int) (inputs : List Input) : Prop where
  symbol : ∀ item ∈ inputs, item.symbol = symbol
  inside : ∀ item ∈ inputs, start ≤ item.date ∧ item.date < finish
  distinct : (inputs.map (·.date)).Nodup
  digests : ∀ item ∈ inputs, isDigest item.manifestSha256 = true

theorem run_validateInput {symbol : String} {start finish : Int} (inputs : List Input) :
    ∀ seen : List Int, Evidence symbol start finish inputs →
      (∀ item ∈ inputs, item.date ∉ seen) →
      run (validateInput symbol start finish) seen inputs = .ok (seen ++ inputs.map (·.date)) := by
  induction inputs with
  | nil =>
    intro seen _ _
    simp
  | cons item inputs ih =>
    intro seen hevidence hfresh
    obtain ⟨hsymbol, hsymbols⟩ := List.forall_mem_cons.mp hevidence.symbol
    obtain ⟨hinside, hinsides⟩ := List.forall_mem_cons.mp hevidence.inside
    obtain ⟨hdigest, hdigests⟩ := List.forall_mem_cons.mp hevidence.digests
    obtain ⟨hfirst, hfresh⟩ := List.forall_mem_cons.mp hfresh
    have hdistinct := hevidence.distinct
    rw [List.map_cons, List.nodup_cons] at hdistinct
    have hstep : validateInput symbol start finish seen item = .ok (seen ++ [item.date]) := by
      unfold validateInput requireDigest
      rw [require_of hsymbol, require_of ⟨hinside, hfirst⟩, require_of hdigest]
      rfl
    have hrest := ih (seen ++ [item.date]) ⟨hsymbols, hinsides, hdistinct.2, hdigests⟩ (by
      intro other hother hmem
      rcases List.mem_append.mp hmem with hmem | hmem
      · exact hfresh other hother hmem
      · exact hdistinct.1 (List.mem_singleton.mp hmem ▸ List.mem_map_of_mem hother))
    refine run_cons_ok.mpr ⟨_, hstep, ?_⟩
    rw [hrest, List.append_assoc]
    rfl

/-- What `_validate_provenance` asks. -/
structure Provenance.Valid (symbol : String) (start finish : Int) (p : Provenance) : Prop where
  kind : p.kind = "synthetic" ∨ p.kind = "verified_calibration"
  code_version : nonblank p.codeVersion = true
  source : isDigest p.fittingSourceSha256 = true
  scope : p.rowCountScope = ROW_COUNT_SCOPE
  train_rows : 0 ≤ p.supportingTrainRows
  test_rows : 0 ≤ p.supportingTestRows
  nonempty : p.corpusDays ≠ []
  increasing : p.corpusDays.Pairwise (· < ·)
  inside : ∀ day ∈ p.corpusDays, start ≤ day ∧ day < finish
  evidence : Evidence symbol start finish p.inputs
  covered : ∀ day ∈ p.corpusDays, day ∈ p.inputs.map (·.date)

theorem validateProvenance_valid {symbol : String} {start finish : Int} {p : Provenance}
    (h : p.Valid symbol start finish) :
    validateProvenance p symbol start finish = .ok p.corpusDays := by
  have hinputs := run_validateInput p.inputs [] h.evidence fun _ _ => List.not_mem_nil
  rw [List.nil_append] at hinputs
  unfold validateProvenance requireText requireDigest requireCount
  simp only [bind_ok, pure_ok, require_ok]
  exact ⟨(), h.kind, (), h.code_version, (), h.source, (), h.scope, (), h.train_rows, (),
    h.test_rows, (), requireDays_of h.nonempty h.increasing, (), h.inside, _, hinputs, (),
    fun _ => h.covered, trivial⟩

section Artifact

variable {F : Type} [LinearOrder F] [Zero F] [One F] {np : Numpy F} {a : Artifact F}

/-- What `validate` asks of an artifact. -/
structure Artifact.Valid (np : Numpy F) (a : Artifact F) : Prop where
  schema : a.schemaVersion = SCHEMA_VERSION
  symbol : nonblank a.symbol = true
  units : a.primaryForm = "square_root" ∧ a.target = TARGET ∧ a.sizeUnit = SIZE_UNIT ∧
    a.outputUnit = "bps"
  window : a.trainStart < a.trainEndExclusive ∧ a.trainEndExclusive < a.testEndExclusive
  provenance : a.provenance.Valid a.symbol a.trainStart a.testEndExclusive
  caveats : a.caveats ≠ [] ∧ ∀ caveat ∈ a.caveats, nonblank caveat = true
  fits : ∀ f ∈ a.fits, f.Valid np a.trainStart a.trainEndExclusive a.testEndExclusive
  distinct : (a.fits.map Fit.key).Nodup
  primary : a.fits.any Fit.primary = true
  days : unique (a.fits.flatMap Fit.days) = a.provenance.corpusDays
  train_rows : ((a.fits.filter Fit.primary).map Fit.trainRows).sum =
    a.provenance.supportingTrainRows
  test_rows : ((a.fits.filter Fit.primary).map Fit.testRows).sum = a.provenance.supportingTestRows

theorem validateArtifact_valid (h : a.Valid np) : validateArtifact np a = .ok () := by
  have hcaveats : requireAll (requireText · "caveat") a.caveats = .ok () :=
    requireAll_ok fun caveat hcaveat => require_of (h.caveats.2 caveat hcaveat)
  have hfits : a.fits.isEmpty = false := by
    have hprimary := h.primary
    cases hfits : a.fits with
    | nil => simp [hfits] at hprimary
    | cons f fits => rfl
  have htally := run_validateStep a.fits ⟨[], [], 0, 0, false⟩ h.fits h.distinct
    fun _ _ => List.not_mem_nil
  unfold validateArtifact requireText
  simp only [bind_ok, require_ok]
  refine ⟨(), h.schema, (), h.symbol, (), h.units, (), h.window, _,
    validateProvenance_valid h.provenance, (), h.caveats.1, (), hcaveats, (), hfits, _, htally, ?_⟩
  simp [Tally.add, h.primary, h.days, h.train_rows, h.test_rows]

/-- The laws of an artifact are found by their keys. -/
theorem law_mem (h : a.Valid np) {f : Fit F} (hf : f ∈ a.fits) : a.law np f.key = .ok f.model := by
  unfold Artifact.law
  rw [validateArtifact_valid h]
  cases hfound : a.fits.find? fun g => g.key = f.key with
  | none =>
    have hnone := List.find?_eq_none.mp hfound f hf
    simp at hnone
  | some g =>
    have hkey : g.key = f.key := by simpa using List.find?_some hfound
    rw [List.inj_on_of_nodup_map h.distinct (List.mem_of_find?_eq_some hfound) hf hkey]
    rfl

theorem law_missing (h : a.Valid np) {key : LawKey} (hkey : ∀ f ∈ a.fits, f.key ≠ key) :
    a.law np key = .error ⟨"requested fitted stratum is unavailable"⟩ := by
  unfold Artifact.law
  have hfound : (a.fits.find? fun f => f.key = key) = none := by
    rw [List.find?_eq_none]
    intro f hf
    simpa using hkey f hf
  rw [validateArtifact_valid h, hfound]
  rfl

end Artifact

end ImpactModel
end Models
end PerpCarry
