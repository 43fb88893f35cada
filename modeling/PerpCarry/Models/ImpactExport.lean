import Mathlib.Algebra.Order.BigOperators.Group.List
import PerpCarry.Models.ImpactArtifact

/-!
# Models.ImpactExport

The export of a fit: `from_fit_report` of `python/perpcarry/models/impact_model_io.py`.

What the checks of an artifact ask is derived again from a report that never met them. The counts
and the days of a law come from the rows of its stratum (`fit_described`), its identity from the
fit's strata (`strata_nodup`), and the days of the corpus are the union of the laws' days.

* `exported_valid`: an exported record passes `_validate_fit`.
* `symbolFits_distinct`, `symbolFits_days`: of the laws of a symbol no two are of one stratum, and
  their days are days of its rows.
* `artifactOf_valid`: the artifact passes.
* `export_faithful`: it is made, and what is read from it is what was fitted.
-/

namespace PerpCarry
namespace Models
namespace ImpactModel

open Lib
open Strategy (bind_ok pure_ok)

/-! ## The export -/

namespace Stratum

def symbol (s : Stratum) : String := (ofLex s.identity).1

def key (s : Stratum) : LawKey :=
  ((ofLex (ofLex s.identity).2).1.text, (ofLex (ofLex s.identity).2).2.text, s.depth.text,
    s.sizeRegime.text, s.form.text)

/-- The strata of a symbol have distinct texts. -/
theorem key_injective {s t : Stratum} (hsymbol : s.symbol = t.symbol) (hkey : s.key = t.key) :
    s = t := by
  obtain ⟨identity, depth, regime, form⟩ := s
  obtain ⟨identity', depth', regime', form'⟩ := t
  simp only [key, Prod.mk.injEq] at hkey
  obtain ⟨hside, hschedule, hdepth, hregime, hform⟩ := hkey
  have hidentity : identity = identity' :=
    Prod.ext hsymbol (Prod.ext (Side.text_injective hside) (Schedule.text_injective hschedule))
  rw [hidentity, Depth.text_injective hdepth, Regime.text_injective hregime,
    Form.text_injective hform]

end Stratum

/-- The law of an evaluated record, with the count that an artifact adds. -/
def Evaluated.exported {F : Type} (r : Evaluated F) : Fit F where
  side := (ofLex (ofLex r.base.identity).2).1.text
  schedule := (ofLex (ofLex r.base.identity).2).2.text
  depth := r.base.depth.text
  sizeRegime := r.base.sizeRegime.text
  sizeBinEdgesAdvFraction := r.base.sizeBinEdgesAdvFraction
  model := r.model.asdict
  trainRows := r.base.trainRows
  testRows := r.base.testRows
  trainDays := r.base.trainDays
  testDays := r.base.testDays
  trainingSizeMin := r.trainingSizeMin
  trainingSizeMax := r.trainingSizeMax
  usableAsNonnegativeImpactLaw := r.usableAsNonnegativeImpactLaw
  zeroTrainingTargets := r.zeroTrainingTargets
  negativeTrainingTargets := r.negativeTrainingTargets
  fitRowsUsed := r.fitRowsUsed
  beyondValidatedDepthRows :=
    if r.base.depth.text = "beyond_validated_depth" then r.base.trainRows + r.base.testRows else 0

def FitRecord.exported {F : Type} : FitRecord F → Option (Fit F)
  | .evaluated r => some r.exported
  | _ => none

/-- `json.dumps(value, sort_keys=True, allow_nan=False)`, where it does not raise. -/
structure Json (F : Type) where
  record : FitRecord F → String
  group : Group → String

/-- The summary of a report, with what `main` adds to it. The texts and the names that every report
has are `primaryForm`, `TARGET` and `summaryTexts`. -/
structure Summary (F : Type) where
  report : FitReport F
  inputs : Option (List Input)
  fittingSourceSha256 : String

def primaryForm : String := "square_root"

/-- `caveat`, `weighting`, `size_regimes`, `signed_targets`, `power_diagnostic` and
`exclusion_note`. -/
def summaryTexts : List String := [
  "fill rows are correlated; held-out days do not establish year-round execution",
  "equal eligible rows; event-grid samples weight busy periods more heavily",
  "quantiles of unique eligible training sizes, per group and depth",
  "retain favorable sliced price movement and static rounding residuals; " ++
    "negative fitted costs are reported, not clipped or usable as a nonnegative impact law",
  "log-OLS on positive training targets; original-bps scoring includes zero and negative targets",
  "reason counts overlap; excluded_rows is their union"]

/-- The records of a symbol. -/
def symbolRecords {F : Type} (report : FitReport F) (symbol : String) : List (FitRecord F) :=
  report.fits.filter fun record => (ofLex record.identity).1 = symbol

/-- Its laws. -/
def symbolFits {F : Type} (report : FitReport F) (symbol : String) : List (Fit F) :=
  (symbolRecords report symbol).filterMap FitRecord.exported

section Export

variable {F : Type} [LinearOrder F] [Zero F] [One F] (np : Numpy F) (json : Json F)

/-- A record that is no law, as text. Its numbers are the edges. -/
def dumpsRecord (record : FitRecord F) : Except Raised String :=
  if (record.base.all fun base => base.sizeBinEdgesAdvFraction.all np.isFinite) then
    .ok (json.record record)
  else .error ⟨.valueError, "Out of range float values are not JSON compliant"⟩

/-- The artifact of a symbol, with the records that are no laws as texts. -/
def artifactOf (s : Summary F) (symbol : String) (fitDate : Int) (codeVersion kind : String)
    (unavailable : List String) : Artifact F where
  schemaVersion := SCHEMA_VERSION
  symbol := symbol
  primaryForm := primaryForm
  target := TARGET
  sizeUnit := SIZE_UNIT
  outputUnit := "bps"
  trainStart := s.report.trainStart
  trainEndExclusive := s.report.trainEndExclusive
  testEndExclusive := s.report.testEndExclusive
  provenance := {
    kind, fitDate, codeVersion
    fittingSourceSha256 := s.fittingSourceSha256
    inputs := (s.inputs.getD []).filter fun item => item.symbol = symbol
    corpusDays := unique ((symbolFits s.report symbol).flatMap Fit.days)
    supportingTrainRows := (((symbolFits s.report symbol).filter Fit.primary).map Fit.trainRows).sum
    supportingTestRows := (((symbolFits s.report symbol).filter Fit.primary).map Fit.testRows).sum
    rowCountScope := ROW_COUNT_SCOPE }
  caveats := summaryTexts ++ unavailable.map ("Unsupported stratum: " ++ ·) ++
    (s.report.groups.filter fun g => (ofLex g.identity).1 = symbol).map
      ("Group coverage: " ++ json.group ·)
  fits := symbolFits s.report symbol

/-- `from_fit_report`. -/
def fromFitReport (s : Summary F) (symbol : String) (fitDate : Int) (codeVersion kind : String) :
    Except Raised (Artifact F) := do
  let unavailable ← ((symbolRecords s.report symbol).filter fun record =>
    record.exported.isNone).mapM (dumpsRecord np json)
  let a := artifactOf json s symbol fitDate codeVersion kind unavailable
  (validateArtifact np a).mapError fun e => ⟨.impactModelError, e.message⟩
  return a

end Export

/-! ## Exported records -/

theorem exported_key {F : Type} {r : Evaluated F} (h : r.model.form = r.form) :
    r.exported.key = r.stratum.key := by
  simp [Evaluated.exported, Fit.key, Stratum.key, Evaluated.stratum, FittedLaw.asdict, h]

section Valid

variable {F : Type} [LinearOrder F] [Zero F] [One F] {np : Numpy F} {start trainEnd finish : Int}
  {frame : List (Row F)} {r : Evaluated F}

theorem exported_fixed (h : Described np start trainEnd finish frame r) :
    ∀ exponent ∈ fixedExponent np r.exported.model.form,
      r.exported.model.exponent = exponent := by
  intro exponent hexponent
  have hform : r.exported.model.form = r.form.text := congrArg Form.text h.form
  rw [hform] at hexponent
  cases hr : r.form with
  | squareRoot =>
    rw [hr] at hexponent
    exact (h.root hr).trans (Option.some.inj hexponent)
  | linear =>
    rw [hr] at hexponent
    exact (h.line hr).trans (Option.some.inj hexponent)
  | powerDiagnostic =>
    rw [hr] at hexponent
    cases hexponent

theorem exported_used (h : Described np start trainEnd finish frame r) :
    r.exported.fitRowsUsed = r.exported.trainRows -
      if r.exported.model.form = "power_diagnostic" then
        r.exported.zeroTrainingTargets + r.exported.negativeTrainingTargets else 0 := by
  have hform : r.exported.model.form = r.form.text := congrArg Form.text h.form
  have hpower : r.exported.model.form = "power_diagnostic" ↔ r.form = .powerDiagnostic := by
    rw [hform]
    exact Form.text_injective.eq_iff' rfl
  have hcounts := h.counts
  have hused := h.used
  by_cases hr : r.form = .powerDiagnostic
  · rw [if_pos hr] at hused
    rw [if_pos (hpower.mpr hr)]
    simp only [Evaluated.exported]
    omega
  · rw [if_neg hr] at hused
    rw [if_neg fun hform => hr (hpower.mp hform)]
    simp only [Evaluated.exported]
    omega

/-- Every record of a fit is a law that passes. -/
theorem exported_valid (hnp : np.Lawful) (h : Described np start trainEnd finish frame r) :
    r.exported.Valid np start trainEnd finish where
  form := by
    have hform : Form.ofText r.exported.model.form = some r.model.form := Form.ofText_text _
    rw [hform]
    rfl
  depth := by
    cases hdepth : r.base.depth with
    | insideValidatedDepth => exact .inl (congrArg Depth.text hdepth)
    | beyondValidatedDepth => exact .inr (congrArg Depth.text hdepth)
  side := by
    cases hside : (ofLex (ofLex r.base.identity).2).1 with
    | buy => exact .inl (congrArg Side.text hside)
    | sell => exact .inr (congrArg Side.text hside)
  schedule := by
    have hblank : ∀ schedule : Schedule, nonblank schedule.text = true := by
      intro schedule
      cases schedule
      · decide
      · decide
    exact hblank _
  regime := by
    have hregime : Regime.ofText r.exported.sizeRegime = some r.base.sizeRegime :=
      Regime.ofText_text _
    rw [hregime]
    rfl
  finite := h.finite
  fixed := exported_fixed h
  usable := h.usable
  targets := ⟨Int.natCast_nonneg _, Int.natCast_nonneg _, by
    have hcounts := h.counts
    simp only [Evaluated.exported]
    omega⟩
  used := exported_used h
  deep := rfl
  train := ⟨_, rfl, h.train⟩
  test := ⟨_, rfl, h.test⟩
  sizes := by
    intro size hsize
    apply hnp.positive_iff.mpr
    rcases List.mem_append.mp hsize with hedge | hbound
    · exact h.edges_positive size hedge
    · rcases List.mem_pair.mp hbound with rfl | rfl
      · exact h.size_min
      · exact h.size_max
  edges := h.edges_increasing
  bounds := by
    have hlt := hnp.lt_finite _ _ h.size_max.1 h.size_min.1
    exact hlt.trans (decide_eq_false h.sizes.not_gt)
  bin := by
    have hregime : Regime.ofText r.exported.sizeRegime = some r.base.sizeRegime :=
      Regime.ofText_text _
    rw [hregime]
    cases hr : r.base.sizeRegime with
    | allSizes => rfl
    | trainingSizeBin i => exact decide_eq_true (h.bin i hr)

end Valid

/-! ## What main adds -/

/-- The digest of the fitting source, and one input for each day of the symbol in the window. -/
structure Recorded {F : Type} (s : Summary F) (symbol : String) (start finish : Int)
    (frame : List (Row F)) : Prop where
  source : isDigest s.fittingSourceSha256 = true
  evidence : Evidence symbol start finish
    ((s.inputs.getD []).filter fun item => item.symbol = symbol)
  covered : ∀ row ∈ frame, row.symbol = some symbol → ∀ day, row.date = some day →
    start ≤ day → day < finish → ∃ item ∈ s.inputs.getD [], item.symbol = symbol ∧ item.date = day

theorem mem_symbolFits {F : Type} {report : FitReport F} {symbol : String} {f : Fit F} :
    f ∈ symbolFits report symbol ↔
      ∃ r, .evaluated r ∈ report.fits ∧ r.stratum.symbol = symbol ∧ r.exported = f := by
  unfold symbolFits
  rw [List.mem_filterMap]
  constructor
  · rintro ⟨record, hrecord, hf⟩
    obtain ⟨hmem, hsymbol⟩ := List.mem_filter.mp hrecord
    cases record with
    | evaluated r => exact ⟨r, hmem, of_decide_eq_true hsymbol, Option.some.inj hf⟩
    | insufficientRows => cases hf
    | insufficientRegime => cases hf
    | unavailable => cases hf
  · rintro ⟨r, hmem, hsymbol, rfl⟩
    exact ⟨.evaluated r, List.mem_filter.mpr ⟨hmem, decide_eq_true hsymbol⟩, rfl⟩

/-- A law of the whole range of sizes, of the primary form. -/
def HasPrimary {F : Type} (report : FitReport F) (symbol : String) : Prop :=
  ∃ r, .evaluated r ∈ report.fits ∧ r.stratum.symbol = symbol ∧
    r.stratum.sizeRegime = .allSizes ∧ r.stratum.form = .squareRoot

theorem nonblank_append {a : String} (h : nonblank a = true) (b : String) :
    nonblank (a ++ b) = true := by
  unfold nonblank at h ⊢
  rw [String.toList_append, List.any_append, h, Bool.true_or]

/-- A text that begins with a letter is not blank. -/
theorem nonblank_head {c : Char} {cs : List Char} (h : isSpace c = false) :
    nonblank (String.ofList (c :: cs)) = true := by
  simp [nonblank, h]

theorem summaryTexts_nonblank : ∀ text ∈ summaryTexts, nonblank text = true := by
  refine List.forall_mem_cons.mpr ⟨nonblank_head (c := 'f') (by decide), ?_⟩
  refine List.forall_mem_cons.mpr ⟨nonblank_head (c := 'e') (by decide), ?_⟩
  refine List.forall_mem_cons.mpr ⟨nonblank_head (c := 'q') (by decide), ?_⟩
  refine List.forall_mem_cons.mpr ⟨nonblank_append (nonblank_head (c := 'r') (by decide)) _, ?_⟩
  refine List.forall_mem_cons.mpr ⟨nonblank_head (c := 'l') (by decide), ?_⟩
  exact List.forall_mem_cons.mpr ⟨nonblank_head (c := 'r') (by decide), nofun⟩

theorem artifactOf_caveats {F : Type} (json : Json F) (s : Summary F) (symbol : String)
    (fitDate : Int) (codeVersion kind : String) (unavailable : List String) :
    ∀ caveat ∈ (artifactOf json s symbol fitDate codeVersion kind unavailable).caveats,
      nonblank caveat = true := by
  intro caveat hcaveat
  rcases List.mem_append.mp hcaveat with hcaveat | hgroup
  · rcases List.mem_append.mp hcaveat with htext | hunavailable
    · exact summaryTexts_nonblank caveat htext
    · obtain ⟨text, _, rfl⟩ := List.mem_map.mp hunavailable
      exact nonblank_append (nonblank_head (c := 'U') (by decide)) text
  · obtain ⟨g, _, rfl⟩ := List.mem_map.mp hgroup
    exact nonblank_append (nonblank_head (c := 'G') (by decide)) _

theorem sum_nonneg {F : Type} {f : Fit F → Int} {fits : List (Fit F)} (h : ∀ g ∈ fits, 0 ≤ f g) :
    0 ≤ (fits.map f).sum := by
  refine List.sum_nonneg fun x hx => ?_
  obtain ⟨g, hg, rfl⟩ := List.mem_map.mp hx
  exact h g hg

section Report

variable {F : Type} [LinearOrder F] [Zero F] [One F] [Sub F] [Mul F] [Div F] {np : Numpy F}
  {config : FitConfig F} {trainEnd testEnd : Int} {frame : List (Row F)} {report : FitReport F}
  {symbol : String}

theorem symbolFits_valid (hnp : np.Lawful)
    (h : fit np config trainEnd frame testEnd = .ok report) (symbol : String) :
    ∀ f ∈ symbolFits report symbol, f.Valid np (trainEnd - config.trainDays) trainEnd testEnd := by
  intro f hf
  obtain ⟨r, hr, _, rfl⟩ := mem_symbolFits.mp hf
  exact exported_valid hnp (fit_described hnp h hr)

/-- The keys of a symbol's laws are those of its strata. -/
theorem symbolFits_key (hnp : np.Lawful)
    (h : fit np config trainEnd frame testEnd = .ok report) :
    (symbolFits report symbol).map Fit.key =
      ((symbolRecords report symbol).filterMap FitRecord.stratum).map Stratum.key := by
  unfold symbolFits
  rw [List.map_filterMap, List.map_filterMap]
  refine List.filterMap_congr fun record hrecord => ?_
  cases record with
  | evaluated r =>
    have hdescribed := fit_described hnp h (List.mem_filter.mp hrecord).1
    exact congrArg some (exported_key hdescribed.form)
  | insufficientRows => rfl
  | insufficientRegime => rfl
  | unavailable => rfl

theorem symbolFits_distinct (hnp : np.Lawful)
    (h : fit np config trainEnd frame testEnd = .ok report) :
    ((symbolFits report symbol).map Fit.key).Nodup := by
  rw [symbolFits_key hnp h]
  have hsublist : (symbolRecords report symbol).Sublist report.fits := List.filter_sublist
  have hstrata := (strata_nodup h).sublist (hsublist.filterMap FitRecord.stratum)
  refine List.Nodup.map_on ?_ hstrata
  intro s hs t ht hkey
  have hsymbol : ∀ s ∈ (symbolRecords report symbol).filterMap FitRecord.stratum,
      s.symbol = symbol := by
    intro s hs
    obtain ⟨record, hrecord, hs⟩ := List.mem_filterMap.mp hs
    cases record with
    | evaluated r =>
      cases hs
      exact of_decide_eq_true (List.mem_filter.mp hrecord).2
    | insufficientRows => cases hs
    | insufficientRegime => cases hs
    | unavailable => cases hs
  exact Stratum.key_injective ((hsymbol s hs).trans (hsymbol t ht).symm) hkey

/-- The days of the symbol's laws are days of its rows. -/
theorem symbolFits_days (hnp : np.Lawful)
    (h : fit np config trainEnd frame testEnd = .ok report) (symbol : String) :
    ∀ day ∈ (symbolFits report symbol).flatMap Fit.days,
      (trainEnd - config.trainDays ≤ day ∧ day < testEnd) ∧
        ∃ row ∈ frame, row.symbol = some symbol ∧ row.date = some day := by
  intro day hday
  obtain ⟨f, hf, hday⟩ := List.mem_flatMap.mp hday
  obtain ⟨r, hr, rfl, rfl⟩ := mem_symbolFits.mp hf
  have hdescribed := fit_described hnp h hr
  have horder := (fit_window h).1
  have hdays : day ∈ r.base.trainDays ∨ day ∈ r.base.testDays := List.mem_append.mp hday
  have hpos := config.days_pos
  refine ⟨?_, hdescribed.source day hdays⟩
  rcases hdays with htrain | htest
  · have hinside := hdescribed.train.inside day htrain
    omega
  · have hinside := hdescribed.test.inside day htest
    omega

/-- No record holds a number that JSON has not. -/
theorem dumpsRecord_fit (hnp : np.Lawful)
    (h : fit np config trainEnd frame testEnd = .ok report) (json : Json F)
    {record : FitRecord F} (hrecord : record ∈ report.fits) :
    dumpsRecord np json record = .ok (json.record record) := by
  unfold dumpsRecord
  rw [if_pos]
  rw [Option.all_eq_true]
  intro base hbase
  rw [List.all_eq_true]
  intro edge hedge
  exact (fit_edges hnp h hrecord hbase edge hedge).1

theorem symbolFits_primary (hnp : np.Lawful)
    (h : fit np config trainEnd frame testEnd = .ok report) (hprimary : HasPrimary report symbol) :
    (symbolFits report symbol).any Fit.primary = true := by
  obtain ⟨r, hr, hsymbol, hregime, hform⟩ := hprimary
  refine List.any_eq_true.mpr ⟨r.exported, mem_symbolFits.mpr ⟨r, hr, hsymbol, rfl⟩, ?_⟩
  have hmodel := (fit_described hnp h hr).form
  have hregime : r.exported.sizeRegime = "all_sizes" := congrArg Regime.text hregime
  have hform : r.exported.model.form = "square_root" := congrArg Form.text (hmodel.trans hform)
  exact decide_eq_true ⟨hregime, hform⟩

theorem artifactOf_valid (hnp : np.Lawful) {s : Summary F}
    (h : fit np config trainEnd frame testEnd = .ok s.report)
    (hsymbol : nonblank symbol = true) {codeVersion kind : String}
    (hversion : nonblank codeVersion = true)
    (hkind : kind = "synthetic" ∨ kind = "verified_calibration")
    (hrecorded : Recorded s symbol (trainEnd - config.trainDays) testEnd frame)
    (hprimary : HasPrimary s.report symbol) (json : Json F) (fitDate : Int)
    (unavailable : List String) :
    (artifactOf json s symbol fitDate codeVersion kind unavailable).Valid np := by
  obtain ⟨horder, hstart, hcutoff, hfinish, _⟩ := fit_window h
  have hany := symbolFits_primary hnp h hprimary
  have hvalid := symbolFits_valid hnp h symbol
  have hdays := symbolFits_days hnp h symbol
  have hcounts : ∀ f ∈ (symbolFits s.report symbol).filter Fit.primary,
      0 ≤ f.trainRows ∧ 0 ≤ f.testRows := by
    intro f hf
    obtain ⟨r, _, _, rfl⟩ := mem_symbolFits.mp (List.mem_filter.mp hf).1
    exact ⟨Int.natCast_nonneg _, Int.natCast_nonneg _⟩
  have hcorpus : (symbolFits s.report symbol).flatMap Fit.days ≠ [] := by
    obtain ⟨f, hf, _⟩ := List.any_eq_true.mp hany
    obtain ⟨rows, _, htrain⟩ := (hvalid f hf).train
    obtain ⟨day, hday⟩ := List.exists_mem_of_ne_nil _ htrain.nonempty
    exact List.ne_nil_of_mem (List.mem_flatMap.mpr ⟨f, hf, List.mem_append_left _ hday⟩)
  have hprovenance : Provenance.Valid symbol (trainEnd - config.trainDays) testEnd
      (artifactOf json s symbol fitDate codeVersion kind unavailable).provenance := {
    kind := hkind
    code_version := hversion
    source := hrecorded.source
    scope := rfl
    train_rows := sum_nonneg fun f hf => (hcounts f hf).1
    test_rows := sum_nonneg fun f hf => (hcounts f hf).2
    nonempty := unique_ne_nil hcorpus
    increasing := unique_increasing _
    inside := fun day hday => (hdays day (mem_unique.mp hday)).1
    evidence := hrecorded.evidence
    covered := by
      intro day hday
      obtain ⟨hinside, row, hrow, hsymbol, hdate⟩ := hdays day (mem_unique.mp hday)
      obtain ⟨item, hitem, hsame, rfl⟩ :=
        hrecorded.covered row hrow hsymbol day hdate hinside.1 hinside.2
      exact List.mem_map_of_mem (List.mem_filter.mpr ⟨hitem, decide_eq_true hsame⟩) }
  have hpos := config.days_pos
  refine {
    schema := rfl, symbol := hsymbol, units := ⟨rfl, rfl, rfl, rfl⟩, window := ?_
    provenance := ?_
    caveats := ⟨List.cons_ne_nil _ _, artifactOf_caveats json s symbol fitDate codeVersion kind _⟩
    fits := ?_, distinct := symbolFits_distinct hnp h, primary := hany
    days := rfl, train_rows := rfl, test_rows := rfl }
  · simp only [artifactOf, hstart, hcutoff, hfinish]
    omega
  · simpa only [artifactOf, hstart, hfinish] using hprovenance
  · simpa only [artifactOf, hstart, hcutoff, hfinish] using hvalid

/-- The main result: a fit that succeeds is exported, and the artifact says what the fit says. -/
theorem export_faithful (hnp : np.Lawful) {s : Summary F}
    (h : fit np config trainEnd frame testEnd = .ok s.report)
    (hsymbol : nonblank symbol = true) {codeVersion kind : String}
    (hversion : nonblank codeVersion = true)
    (hkind : kind = "synthetic" ∨ kind = "verified_calibration")
    (hrecorded : Recorded s symbol (trainEnd - config.trainDays) testEnd frame)
    (hprimary : HasPrimary s.report symbol) (json : Json F) (fitDate : Int) :
    ∃ a, fromFitReport np json s symbol fitDate codeVersion kind = .ok a ∧
      validateArtifact np a = .ok () ∧
      (∀ r, .evaluated r ∈ s.report.fits → r.stratum.symbol = symbol →
        a.law np r.stratum.key = .ok r.model.asdict) ∧
      ∀ stratum : Stratum, stratum.symbol = symbol →
        (∀ r, .evaluated r ∈ s.report.fits → r.stratum ≠ stratum) →
        a.law np stratum.key = .error ⟨"requested fitted stratum is unavailable"⟩ := by
  obtain ⟨unavailable, hdumps⟩ : ∃ unavailable,
      ((symbolRecords s.report symbol).filter fun record => record.exported.isNone).mapM
        (dumpsRecord np json) = .ok unavailable := by
    refine ⟨_, mapM_of_ok (g := json.record) fun record hrecord => ?_⟩
    exact dumpsRecord_fit hnp h json (List.mem_filter.mp (List.mem_filter.mp hrecord).1).1
  have hvalid := artifactOf_valid hnp h hsymbol hversion hkind hrecorded hprimary json fitDate
    unavailable
  refine ⟨artifactOf json s symbol fitDate codeVersion kind unavailable, ?_,
    validateArtifact_valid hvalid, ?_, ?_⟩
  · unfold fromFitReport
    rw [hdumps]
    simp only [bind_ok, pure_ok]
    refine ⟨_, rfl, (), ?_, rfl⟩
    rw [validateArtifact_valid hvalid]
    rfl
  · intro r hr hsame
    rw [← exported_key (fit_described hnp h hr).form]
    exact law_mem hvalid (mem_symbolFits.mpr ⟨r, hr, hsame, rfl⟩)
  · intro stratum hsame hmissing
    refine law_missing hvalid fun f hf hkey => ?_
    obtain ⟨r, hr, hrs, rfl⟩ := mem_symbolFits.mp hf
    rw [exported_key (fit_described hnp h hr).form] at hkey
    exact hmissing r hr (Stratum.key_injective (hrs.trans hsame.symm) hkey)

end Report

theorem foldr_mem {f : ℚ → ℚ → ℚ} (hf : ∀ a b, f a b = a ∨ f a b = b) (first : ℚ) (xs : List ℚ) :
    xs.foldr f first ∈ first :: xs := by
  induction xs with
  | nil => exact List.mem_cons_self
  | cons x xs ih =>
    rw [List.foldr_cons]
    rcases hf x (xs.foldr f first) with h | h
    · rw [h]
      simp
    · rw [h]
      rcases List.mem_cons.mp ih with h | h
      · rw [h]
        simp
      · simp [h]

theorem headD_mem {first : ℚ} {xs : List ℚ} (h : xs ≠ []) {x : ℚ}
    (hx : x ∈ xs.headD first :: xs) : x ∈ xs := by
  cases xs with
  | nil => exact absurd rfl h
  | cons y ys => simpa using hx

theorem foldr_min_le (first : ℚ) (xs : List ℚ) : ∀ x ∈ xs, xs.foldr min first ≤ x := by
  induction xs with
  | nil => exact nofun
  | cons y ys ih =>
    intro x hx
    rcases List.mem_cons.mp hx with rfl | hx
    · exact min_le_left _ _
    · exact (min_le_right _ _).trans (ih x hx)

theorem le_foldr_max (first : ℚ) (xs : List ℚ) : ∀ x ∈ xs, x ≤ xs.foldr max first := by
  induction xs with
  | nil => exact nofun
  | cons y ys ih =>
    intro x hx
    rcases List.mem_cons.mp hx with rfl | hx
    · exact le_max_left _ _
    · exact (ih x hx).trans (le_max_right _ _)

theorem unitNumpy_lawful : unitNumpy.Lawful where
  zero_finite := rfl
  lt_finite _ _ _ _ := rfl
  le_finite _ _ _ _ := rfl
  min_mem xs hxs _ := headD_mem hxs (foldr_mem min_choice _ xs)
  min_le xs _ := foldr_min_le _ xs
  max_mem xs hxs _ := headD_mem hxs (foldr_mem max_choice _ xs)
  le_max xs _ := le_foldr_max _ xs
  quantile_positive _ _ _ _ _ := nofun

def unitDigest : String := "e3b0c44298fc1c149afbf4c8996fb92427ae41e4649b934ca495991b7852b855"

def unitInputs : List Input := [⟨"SOLUSDT", 99, unitDigest⟩, ⟨"SOLUSDT", 100, unitDigest⟩]

theorem unitDigest_digest : isDigest unitDigest = true := by decide +kernel

theorem unitInputs_evidence : Evidence "SOLUSDT" 70 101
    (unitInputs.filter fun item => item.symbol = "SOLUSDT") where
  symbol := by decide +kernel
  inside := by decide +kernel
  distinct := by decide +kernel
  digests item hitem := by
    rcases List.mem_pair.mp (List.mem_filter.mp hitem).1 with rfl | rfl
    · exact unitDigest_digest
    · exact unitDigest_digest

theorem export_faithful_unit : ∃ report r a,
    fit unitNumpy unitConfig 100 [unitRow 99 40, unitRow 100 41] 101 = .ok report ∧
    .evaluated r ∈ report.fits ∧
    fromFitReport unitNumpy ⟨fun _ => "record", fun _ => "group"⟩
      ⟨report, some unitInputs, unitDigest⟩ "SOLUSDT" 102 "0a1b+working-tree"
      "verified_calibration" = .ok a ∧
    a.law unitNumpy unitStratum.key = .ok r.model.asdict := by
  obtain ⟨report, r, hfit, hr, hstratum⟩ := exists_evaluated unitNumpy unitConfig 100 101
    [unitRow 99 40, unitRow 100 41] unitStratum (by decide +kernel)
  have hsame : r.stratum.symbol = "SOLUSDT" := by rw [hstratum]; rfl
  have hrecorded : Recorded (⟨report, some unitInputs, unitDigest⟩ : Summary ℚ) "SOLUSDT"
      (100 - unitConfig.trainDays) 101 [unitRow 99 40, unitRow 100 41] := {
    source := unitDigest_digest
    evidence := unitInputs_evidence
    covered := by
      intro row hrow _ day hday _ _
      rcases List.mem_pair.mp hrow with rfl | rfl
      · cases hday
        exact ⟨⟨"SOLUSDT", 99, unitDigest⟩, by simp [unitInputs], rfl, rfl⟩
      · cases hday
        exact ⟨⟨"SOLUSDT", 100, unitDigest⟩, by simp [unitInputs], rfl, rfl⟩ }
  have hprimary : HasPrimary report "SOLUSDT" := by
    refine ⟨r, hr, hsame, ?_, ?_⟩
    · rw [hstratum]
      rfl
    · rw [hstratum]
      rfl
  have hsymbol : nonblank "SOLUSDT" = true := nonblank_head (c := 'S') (by decide)
  have hversion : nonblank "0a1b+working-tree" = true := nonblank_head (c := '0') (by decide)
  obtain ⟨a, ha, _, hlaw, _⟩ := export_faithful unitNumpy_lawful
    (s := ⟨report, some unitInputs, unitDigest⟩) hfit hsymbol hversion (.inr rfl) hrecorded hprimary
    ⟨fun _ => "record", fun _ => "group"⟩ 102
  refine ⟨report, r, a, hfit, hr, ha, ?_⟩
  rw [← hstratum]
  exact hlaw r hr hsame

end ImpactModel
end Models
end PerpCarry
