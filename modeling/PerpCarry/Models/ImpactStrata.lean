import PerpCarry.Models.ImpactFit

/-!
# Models.ImpactStrata

Which records a fit makes, and of which rows.

`fit` never meets a stratum twice, and what it says of one is counted in rows that have passed
`_validate`. numpy is assumed to be `Lawful` here: to compare finite numbers as numbers, to find the
least and the greatest of some, and to put quantiles between them.

* `validate_eligible`: what is known of a row that is fitted.
* `fit_records`: every record is `fitDepth`'s, for eligible rows of its group.
* `strata_nodup`: no stratum is evaluated twice.
* `fit_described`: what an evaluated record says of its rows, `Described`.
-/

namespace PerpCarry
namespace Models
namespace ImpactModel

open Lib
open Strategy (bind_ok pure_ok)

variable {F : Type} [LinearOrder F] [Zero F]

/-! ## Eligible rows -/

/-- A size that `_validate` lets through. -/
def Positive (np : Numpy F) (size : F) : Prop := np.isFinite size = true ∧ np.le size 0 = false

theorem Row.entry_symbol {F : Type} {row : Row F} {e : Entry F} (h : row.entry = some e) :
    row.symbol = some e.symbol := by
  unfold Row.entry at h
  simp only [Option.bind_eq_bind, Option.bind_eq_some_iff] at h
  obtain ⟨symbol, hsymbol, _, _, _, _, _, _, h⟩ := h
  split at h
  · simp only [Option.bind_eq_some_iff] at h
    obtain ⟨_, _, _, _, _, _, h⟩ := h
    cases h
    exact hsymbol
  · cases h

/-- A row that is fitted. -/
structure Eligible (np : Numpy F) (start finish : Int) (frame : List (Row F)) (e : Entry F) :
    Prop where
  source : ∃ row ∈ frame, row.entry = some e
  from_start : start ≤ e.date
  before_finish : e.date < finish
  size : Positive np e.advFraction
  target : np.isFinite e.slippageVsTouchBps = true

theorem validate_eligible {np : Numpy F} {start finish : Int} {frame : List (Row F)}
    {window : List (Entry F)}
    (h : validate np (frame.filter (Row.within start finish)) = .ok window) :
    ∀ e ∈ goodRows window, Eligible np start finish frame e := by
  unfold validate at h
  simp only [bind_ok, pure_ok, require_ok] at h
  obtain ⟨_, _, _, _, _, _, _, _, _, _, _, _, _, _, _, _, _, heligible, rfl⟩ := h
  intro e he
  obtain ⟨hmem, hgood⟩ := List.mem_filter.mp he
  have hentries := (sortValues_perm Entry.key _).subset hmem
  have hnumbers := List.all_eq_true.mp heligible e hentries
  rw [Bool.not_eq_true'] at hgood
  simp only [hgood, Bool.false_or, Bool.and_eq_true, Bool.not_eq_true'] at hnumbers
  obtain ⟨⟨hsize, htarget⟩, hpositive⟩ := hnumbers
  obtain ⟨row, hrow, hentry⟩ := List.mem_filterMap.mp hentries
  obtain ⟨hrow, hwithin⟩ := List.mem_filter.mp hrow
  rw [Row.within, Row.entry_date hentry, Option.any_some, decide_eq_true_eq] at hwithin
  exact ⟨⟨row, hrow, hentry⟩, hwithin.1, hwithin.2, ⟨hsize, hpositive⟩, htarget⟩

/-! ## numpy -/

variable [One F]

/-- What is relied on of numpy. Infinities and NaN are not finite; the zeros are one. -/
structure Numpy.Lawful (np : Numpy F) : Prop where
  zero_finite : np.isFinite 0 = true
  lt_finite : ∀ a b, np.isFinite a = true → np.isFinite b = true → np.lt a b = decide (a < b)
  le_finite : ∀ a b, np.isFinite a = true → np.isFinite b = true → np.le a b = decide (a ≤ b)
  min_mem : ∀ xs, xs ≠ [] → (∀ x ∈ xs, np.isFinite x = true) → np.min xs ∈ xs
  min_le : ∀ xs, (∀ x ∈ xs, np.isFinite x = true) → ∀ x ∈ xs, np.min xs ≤ x
  max_mem : ∀ xs, xs ≠ [] → (∀ x ∈ xs, np.isFinite x = true) → np.max xs ∈ xs
  le_max : ∀ xs, (∀ x ∈ xs, np.isFinite x = true) → ∀ x ∈ xs, x ≤ np.max xs
  quantile_positive : ∀ xs qs, xs ≠ [] → (∀ x ∈ xs, np.isFinite x = true ∧ 0 < x) →
    (∀ q ∈ qs, 0 < q ∧ q < 1) → ∀ v ∈ np.quantile xs qs, np.isFinite v = true ∧ 0 < v

theorem Numpy.Lawful.positive_iff {np : Numpy F} (hnp : np.Lawful) {size : F} :
    Positive np size ↔ np.isFinite size = true ∧ 0 < size := by
  refine and_congr_right fun hfinite => ?_
  rw [hnp.le_finite size 0 hfinite hnp.zero_finite, decide_eq_false_iff_not, not_le]

/-- Of finite targets each is zero, negative or positive. -/
theorem Numpy.Lawful.sign_counts {np : Numpy F} (hnp : np.Lawful) {ys : List F}
    (h : ∀ y ∈ ys, np.isFinite y = true) :
    (ys.countP fun v => v = 0) + (ys.countP fun v => np.lt v 0) +
      (ys.countP fun v => np.lt 0 v) = ys.length := by
  induction ys with
  | nil => rfl
  | cons y ys ih =>
    obtain ⟨hy, hys⟩ := List.forall_mem_cons.mp h
    have hcounts := ih hys
    have hnegative := hnp.lt_finite y 0 hy hnp.zero_finite
    have hpositive := hnp.lt_finite 0 y hnp.zero_finite hy
    simp only [List.countP_cons, List.length_cons, hnegative, hpositive, decide_eq_true_eq]
    rcases lt_trichotomy y 0 with hlt | rfl | hgt
    · simp only [hlt, hlt.ne, hlt.not_gt, if_true, if_false]
      omega
    · simp only [lt_irrefl, if_true, if_false]
      omega
    · simp only [hgt, hgt.ne', hgt.not_gt, if_true, if_false]
      omega

/-! ## Records -/

/-- What the records of a size regime share, if this is a record of one. -/
def FitRecord.base {F : Type} : FitRecord F → Option (Base F)
  | .insufficientRows .. => none
  | .insufficientRegime base => some base
  | .unavailable base .. => some base
  | .evaluated record => some record.base

def FitRecord.identity {F : Type} : FitRecord F → Identity
  | .insufficientRows identity .. => identity
  | .insufficientRegime base => base.identity
  | .unavailable base .. => base.identity
  | .evaluated record => record.base.identity

/-- What is evaluated, stratum by stratum. -/
def strata {F : Type} (ps : List (FitRecord F × List (Residual F))) : List Stratum :=
  ps.filterMap fun p => p.1.stratum

theorem strata_flatMap {F α : Type} {f : α → List (FitRecord F × List (Residual F))}
    (xs : List α) : strata (xs.flatMap f) = xs.flatMap fun x => strata (f x) :=
  List.filterMap_flatMap ..

theorem stratum_of_base {F : Type} {record : FitRecord F} {base : Base F} {s : Stratum}
    (hbase : record.base = some base) (hs : record.stratum = some s) :
    s.identity = base.identity ∧ s.depth = base.depth ∧ s.sizeRegime = base.sizeRegime := by
  cases record with
  | insufficientRows identity depth trainRows testRows => cases hbase
  | insufficientRegime base' => cases hs
  | unavailable base' form reason => cases hs
  | evaluated record =>
    cases hbase
    cases hs
    exact ⟨rfl, rfl, rfl⟩

theorem mem_strata {F : Type} {ps : List (FitRecord F × List (Residual F))} {s : Stratum} :
    s ∈ strata ps ↔ ∃ p ∈ ps, p.1.stratum = some s :=
  List.mem_filterMap

theorem regimes_nodup (config : FitConfig F) (edges : List F) : (regimes config edges).Nodup := by
  unfold regimes
  rw [List.nodup_cons]
  split
  · exact ⟨List.not_mem_nil, List.nodup_nil⟩
  · constructor
    · intro hmem
      obtain ⟨i, _, hi⟩ := List.mem_map.mp hmem
      cases hi
    · refine List.nodup_range.map ?_
      intro i j hij
      cases hij
      rfl

/-! ## What a record says -/

/-- Some days of a fit: sorted, of one side of the split, no more than the rows. -/
structure Days (low high : Int) (rows : Nat) (days : List Int) : Prop where
  nonempty : days ≠ []
  increasing : days.Pairwise (· < ·)
  inside : ∀ day ∈ days, low ≤ day ∧ day < high
  few : days.length ≤ rows

theorem mem_daysOf {F : Type} {rows : List (Entry F)} {day : Int} :
    day ∈ daysOf rows ↔ ∃ e ∈ rows, e.date = day := by
  unfold daysOf
  rw [mem_unique, List.mem_map]

theorem daysOf_days {F : Type} {low high : Int} {rows : List (Entry F)} (hrows : rows ≠ [])
    (h : ∀ e ∈ rows, low ≤ e.date ∧ e.date < high) :
    Days low high rows.length (daysOf rows) where
  nonempty := unique_ne_nil (by simpa using hrows)
  increasing := unique_increasing _
  inside day hday := by
    obtain ⟨e, he, rfl⟩ := mem_daysOf.mp hday
    exact h e he
  few := by simpa [daysOf] using unique_length (rows.map (·.date))

/-- The days on the two sides of the split. -/
theorem split_days {F : Type} [Zero F] {np : Numpy F} {start trainEnd finish : Int}
    {frame : List (Row F)} {rows : List (Entry F)}
    (htrain : rows.filter (Entry.training trainEnd) ≠ [])
    (htest : (rows.filter fun e => !e.training trainEnd) ≠ [])
    (h : ∀ e ∈ rows, Eligible np start finish frame e) :
    Days start trainEnd (rows.filter (Entry.training trainEnd)).length
        (daysOf (rows.filter (Entry.training trainEnd))) ∧
      Days trainEnd finish (rows.filter fun e => !e.training trainEnd).length
        (daysOf (rows.filter fun e => !e.training trainEnd)) := by
  constructor
  · refine daysOf_days htrain fun e he => ?_
    obtain ⟨he, hdate⟩ := List.mem_filter.mp he
    exact ⟨(h e he).from_start, of_decide_eq_true hdate⟩
  · refine daysOf_days htest fun e he => ?_
    obtain ⟨he, hdate⟩ := List.mem_filter.mp he
    rw [Entry.training, Bool.not_eq_true', decide_eq_false_iff_not, not_lt] at hdate
    exact ⟨hdate, (h e he).before_finish⟩

theorem mem_regimeRows {F : Type} {np : Numpy F} {edges : List F} {rows : List (Entry F)}
    {regime : Regime} {e : Entry F} (he : e ∈ regimeRows np edges rows regime) : e ∈ rows := by
  cases regime with
  | allSizes => exact he
  | trainingSizeBin i => exact (List.mem_filter.mp he).1

/-- What an evaluated record says of the rows it was fitted to and scored on. -/
structure Described (np : Numpy F) (start trainEnd finish : Int) (frame : List (Row F))
    (r : Evaluated F) : Prop where
  train : Days start trainEnd r.base.trainRows r.base.trainDays
  test : Days trainEnd finish r.base.testRows r.base.testDays
  /-- Its days are days of its symbol. -/
  source : ∀ day, day ∈ r.base.trainDays ∨ day ∈ r.base.testDays → ∃ row ∈ frame,
    row.symbol = some (ofLex r.base.identity).1 ∧ row.date = some day
  counts : r.zeroTrainingTargets + r.negativeTrainingTargets ≤ r.base.trainRows
  used : r.fitRowsUsed = r.base.trainRows -
    if r.form = .powerDiagnostic then r.zeroTrainingTargets + r.negativeTrainingTargets else 0
  edges_increasing : r.base.sizeBinEdgesAdvFraction.Pairwise (· < ·)
  edges_positive : ∀ edge ∈ r.base.sizeBinEdgesAdvFraction, np.isFinite edge = true ∧ 0 < edge
  bin : ∀ i, r.base.sizeRegime = .trainingSizeBin i → i ≤ r.base.sizeBinEdgesAdvFraction.length
  size_min : np.isFinite r.trainingSizeMin = true ∧ 0 < r.trainingSizeMin
  size_max : np.isFinite r.trainingSizeMax = true ∧ 0 < r.trainingSizeMax
  sizes : r.trainingSizeMin ≤ r.trainingSizeMax
  form : r.model.form = r.form
  finite : np.isFinite r.model.coefficient = true ∧ np.isFinite r.model.exponent = true
  root : r.form = .squareRoot → r.model.exponent = np.half
  line : r.form = .linear → r.model.exponent = 1
  usable : r.usableAsNonnegativeImpactLaw =
    (np.le 0 r.model.coefficient && np.lt 0 r.model.exponent)

/-- The edges of the size bins are finite, positive and in order. -/
theorem sizeEdges_positive {np : Numpy F} (hnp : np.Lawful) (config : FitConfig F)
    {train : List (Entry F)} (htrain : train ≠ []) (h : ∀ e ∈ train, Positive np e.advFraction) :
    (sizeEdges np config train).Pairwise (· < ·) ∧
      ∀ edge ∈ sizeEdges np config train, np.isFinite edge = true ∧ 0 < edge := by
  unfold sizeEdges
  split
  · exact ⟨.nil, nofun⟩
  · refine ⟨unique_increasing _, ?_⟩
    intro edge hedge
    refine hnp.quantile_positive _ _ ?_ ?_ config.inside edge (mem_unique.mp hedge)
    · exact unique_ne_nil (by simpa using htrain)
    · intro size hsize
      obtain ⟨e, he, rfl⟩ := List.mem_map.mp (mem_unique.mp hsize)
      exact hnp.positive_iff.mp (h e he)

theorem depthEdges_positive {np : Numpy F} (hnp : np.Lawful) (config : FitConfig F) {trainEnd : Int}
    {good : List (Entry F)} {depth : Depth}
    (htrain : (depthRows good depth).filter (Entry.training trainEnd) ≠ [])
    (h : ∀ e ∈ good, Positive np e.advFraction) :
    (sizeEdges np config ((depthRows good depth).filter (Entry.training trainEnd))).Pairwise
        (· < ·) ∧
      ∀ edge ∈ sizeEdges np config ((depthRows good depth).filter (Entry.training trainEnd)),
        np.isFinite edge = true ∧ 0 < edge := by
  refine sizeEdges_positive hnp config htrain fun e he => ?_
  obtain ⟨hdepth, _⟩ := List.mem_filter.mp he
  exact h e (List.mem_filter.mp hdepth).1

theorem bin_le {config : FitConfig F} {edges : List F} {i : Nat}
    (h : .trainingSizeBin i ∈ regimes config edges) : i ≤ edges.length := by
  unfold regimes at h
  rcases List.mem_cons.mp h with hall | hbin
  · cases hall
  · split at hbin
    · cases hbin
    · obtain ⟨j, hj, hij⟩ := List.mem_map.mp hbin
      cases hij
      exact Nat.le_of_lt_succ (List.mem_range.mp hj)

variable [Sub F] [Mul F] [Div F] {np : Numpy F} {config : FitConfig F} {trainEnd : Int}
  {identity : Identity} {depth : Depth} {regime : Regime} {edges : List F}
  {good rows : List (Entry F)} {p : FitRecord F × List (Residual F)} {r : Evaluated F}

/-- What the records of a size regime say of its rows. -/
def baseOf (trainEnd : Int) (identity : Identity) (depth : Depth) (edges : List F)
    (regime : Regime) (rows : List (Entry F)) : Base F where
  identity := identity
  depth := depth
  sizeRegime := regime
  sizeBinEdgesAdvFraction := edges
  trainRows := (rows.filter (Entry.training trainEnd)).length
  testRows := (rows.filter fun e => !e.training trainEnd).length
  trainDays := daysOf (rows.filter (Entry.training trainEnd))
  testDays := daysOf (rows.filter fun e => !e.training trainEnd)

theorem fitForm_base {base : Base F} {form : Form} :
    (fitForm np trainEnd base rows form).1.base = some base := by
  unfold fitForm
  dsimp only
  split
  · rfl
  · rfl

theorem fitRegime_base (hp : p ∈ fitRegime np trainEnd identity depth edges regime rows) :
    p.1.base = some (baseOf trainEnd identity depth edges regime rows) := by
  unfold fitRegime at hp
  dsimp only at hp
  split at hp
  · rw [List.mem_singleton.mp hp]
    rfl
  · obtain ⟨form, _, rfl⟩ := List.mem_map.mp hp
    exact fitForm_base

theorem fitRegime_split (hp : p ∈ fitRegime np trainEnd identity depth edges regime rows)
    (hr : p.1 = .evaluated r) : rows.filter (Entry.training trainEnd) ≠ [] ∧
      (rows.filter fun e => !e.training trainEnd) ≠ [] := by
  unfold fitRegime at hp
  dsimp only at hp
  split at hp
  · rw [List.mem_singleton.mp hp] at hr
    cases hr
  · rename_i hempty
    simpa only [Bool.or_eq_true, List.isEmpty_iff, not_or] using hempty

/-- The records of a depth: one that says why there are no others, or those of its regimes. -/
theorem mem_fitDepth (hp : p ∈ fitDepth np config trainEnd identity good depth) :
    (∃ trainRows testRows, p.1 = .insufficientRows identity depth trainRows testRows) ∨
      (depthRows good depth).filter (Entry.training trainEnd) ≠ [] ∧
      ∃ edges regime, edges =
          sizeEdges np config ((depthRows good depth).filter (Entry.training trainEnd)) ∧
        regime ∈ regimes config edges ∧
        p ∈ fitRegime np trainEnd identity depth edges regime
          (regimeRows np edges (depthRows good depth) regime) := by
  unfold fitDepth at hp
  dsimp only at hp
  split at hp
  · rw [List.mem_singleton.mp hp]
    exact .inl ⟨_, _, rfl⟩
  · rename_i hempty
    simp only [Bool.or_eq_true, List.isEmpty_iff, not_or] at hempty
    obtain ⟨regime, hregime, hp⟩ := List.mem_flatMap.mp hp
    exact .inr ⟨hempty.1, _, regime, rfl, hregime, hp⟩

theorem mem_fitGroup {original : List (Entry F)}
    (hp : p ∈ (fitGroup np config trainEnd identity original).2) :
    ∃ depth, p ∈ fitDepth np config trainEnd identity (goodRows original) depth := by
  unfold fitGroup at hp
  dsimp only at hp
  split at hp
  · cases hp
  · obtain ⟨depth, _, hp⟩ := List.mem_flatMap.mp hp
    exact ⟨depth, hp⟩

theorem fit_window {testEnd : Int} {frame : List (Row F)} {report : FitReport F}
    (h : fit np config trainEnd frame testEnd = .ok report) :
    trainEnd < testEnd ∧ report.trainStart = trainEnd - config.trainDays ∧
      report.trainEndExclusive = trainEnd ∧ report.testEndExclusive = testEnd ∧
      ∃ window, validate np (frame.filter (Row.within (trainEnd - config.trainDays) testEnd)) =
          .ok window ∧
        report.fits = (groupby Entry.identity window).flatMap fun g =>
          (fitGroup np config trainEnd g.1 g.2).2.map Prod.fst := by
  unfold fit at h
  simp only [bind_ok, pure_ok, require_ok] at h
  obtain ⟨_, horder, _, _, window, hwindow, _, _, rfl⟩ := h
  refine ⟨horder, rfl, rfl, rfl, window, hwindow, ?_⟩
  dsimp only
  rw [List.flatMap_map, List.map_flatMap]

/-- A record is of one depth of one group, and all it is about are eligible rows of the group. -/
theorem fit_records {testEnd : Int} {frame : List (Row F)} {report : FitReport F}
    (h : fit np config trainEnd frame testEnd = .ok report) {record : FitRecord F}
    (hrecord : record ∈ report.fits) : ∃ identity depth good residuals,
      (record, residuals) ∈ fitDepth np config trainEnd identity good depth ∧
      ∀ e ∈ good, e.identity = identity ∧
        Eligible np (trainEnd - config.trainDays) testEnd frame e := by
  obtain ⟨_, _, _, _, window, hwindow, hfits⟩ := fit_window h
  rw [hfits] at hrecord
  obtain ⟨g, hg, hrecord⟩ := List.mem_flatMap.mp hrecord
  obtain ⟨⟨record, residuals⟩, hp, rfl⟩ := List.mem_map.mp hrecord
  obtain ⟨depth, hp⟩ := mem_fitGroup hp
  refine ⟨g.1, depth, _, residuals, hp, ?_⟩
  intro e he
  rw [(mem_groupby.mp hg).2] at he
  obtain ⟨he, hgood⟩ := List.mem_filter.mp he
  obtain ⟨he, hidentity⟩ := List.mem_filter.mp he
  have heligible := validate_eligible hwindow e (List.mem_filter.mpr ⟨he, hgood⟩)
  exact ⟨by simpa using hidentity, heligible⟩

theorem fitLaw_ok {x y : List F} {form : Form} {law : FittedLaw F}
    (h : fitLaw np x y form = .ok law) :
    law.form = form ∧ np.isFinite law.coefficient = true ∧ np.isFinite law.exponent = true ∧
      (form = .squareRoot → law.exponent = np.half) ∧ (form = .linear → law.exponent = 1) := by
  unfold fitLaw at h
  simp only [bind_ok, pure_ok, require_ok] at h
  obtain ⟨_, _, ⟨coefficient, exponent⟩, hsolve, _, hfinite, rfl⟩ := h
  refine ⟨rfl, hfinite.1, hfinite.2, ?_, ?_⟩
  · rintro rfl
    cases hsolve
    rfl
  · rintro rfl
    cases hsolve
    rfl

/-- Every target that was learned from is counted once, by its sign. -/
theorem Taught.counts {tr : List (Entry F)} (h : Taught np tr r) (hnp : np.Lawful)
    (hfinite : ∀ e ∈ tr, np.isFinite e.slippageVsTouchBps = true) :
    r.zeroTrainingTargets + r.negativeTrainingTargets ≤ tr.length ∧
      r.fitRowsUsed = tr.length -
        if r.form = .powerDiagnostic then r.zeroTrainingTargets + r.negativeTrainingTargets
        else 0 := by
  have htargets : ∀ y ∈ tr.map (·.slippageVsTouchBps), np.isFinite y = true :=
    List.forall_mem_map.mpr hfinite
  have hsigns := hnp.sign_counts htargets
  rw [h.used, h.zero, h.negative]
  simp only [rowsUsed, List.length_map] at hsigns ⊢
  constructor
  · omega
  · split
    · omega
    · omega

theorem Taught.sizes {tr : List (Entry F)} (h : Taught np tr r) (hnp : np.Lawful) (htr : tr ≠ [])
    (hsize : ∀ e ∈ tr, Positive np e.advFraction) :
    (np.isFinite r.trainingSizeMin = true ∧ 0 < r.trainingSizeMin) ∧
      (np.isFinite r.trainingSizeMax = true ∧ 0 < r.trainingSizeMax) ∧
      r.trainingSizeMin ≤ r.trainingSizeMax := by
  have hpositive : ∀ size ∈ tr.map (·.advFraction), np.isFinite size = true ∧ 0 < size :=
    List.forall_mem_map.mpr fun e he => hnp.positive_iff.mp (hsize e he)
  have hfinite := fun size hmem => (hpositive size hmem).1
  have hsizes : tr.map (·.advFraction) ≠ [] := by simpa using htr
  have hmin := hnp.min_mem _ hsizes hfinite
  rw [h.size_min, h.size_max]
  exact ⟨hpositive _ hmin, hpositive _ (hnp.max_mem _ hsizes hfinite), hnp.le_max _ hfinite _ hmin⟩

/-- The rows of a record, split, are eligible rows of its group. -/
theorem fit_described (hnp : np.Lawful) {testEnd : Int} {frame : List (Row F)}
    {report : FitReport F} (h : fit np config trainEnd frame testEnd = .ok report)
    (hr : .evaluated r ∈ report.fits) :
    Described np (trainEnd - config.trainDays) trainEnd testEnd frame r := by
  obtain ⟨identity, depth, good, residuals, hp, hgood⟩ := fit_records h hr
  rcases mem_fitDepth hp with ⟨_, _, hnone⟩ | ⟨hdeep, edges, regime, hedges, hregime, hp⟩
  · cases hnone
  have hrows : ∀ e ∈ regimeRows np edges (depthRows good depth) regime, e ∈ good :=
    fun e he => (List.mem_filter.mp (mem_regimeRows he)).1
  have hbase : r.base = _ := Option.some.inj (fitRegime_base hp)
  obtain ⟨htrain, htest⟩ := fitRegime_split hp rfl
  obtain ⟨_, _, _, _, _, _, htaught⟩ := fitRegime_evaluated hp rfl
  generalize regimeRows np edges (depthRows good depth) regime = rows at *
  have heligible : ∀ e ∈ rows, Eligible np (trainEnd - config.trainDays) testEnd frame e :=
    fun e he => (hgood e (hrows e he)).2
  have htr : ∀ e ∈ rows.filter (Entry.training trainEnd), e ∈ rows :=
    fun e he => (List.mem_filter.mp he).1
  obtain ⟨hform, hcoefficient, hexponent, hroot, hline⟩ := fitLaw_ok htaught.model
  obtain ⟨htrainDays, htestDays⟩ := split_days htrain htest heligible
  obtain ⟨hcounts, hused⟩ := htaught.counts hnp fun e he => (heligible e (htr e he)).target
  obtain ⟨hmin, hmax, hle⟩ := htaught.sizes hnp htrain fun e he => (heligible e (htr e he)).size
  have hedge := depthEdges_positive hnp config hdeep fun e he => (hgood e he).2.size
  rw [← hedges] at hedge
  refine {
    train := ?_, test := ?_, source := ?_, counts := ?_, used := ?_
    edges_increasing := ?_, edges_positive := ?_, bin := ?_
    size_min := hmin, size_max := hmax, sizes := hle
    form := hform, finite := ⟨hcoefficient, hexponent⟩, root := hroot, line := hline
    usable := htaught.usable }
  all_goals rw [hbase]
  · exact htrainDays
  · exact htestDays
  · intro day hday
    obtain ⟨e, he, rfl⟩ : ∃ e ∈ rows, e.date = day := by
      rcases hday with hday | hday
      · obtain ⟨e, he, hdate⟩ := mem_daysOf.mp hday
        exact ⟨e, htr e he, hdate⟩
      · obtain ⟨e, he, hdate⟩ := mem_daysOf.mp hday
        exact ⟨e, (List.mem_filter.mp he).1, hdate⟩
    obtain ⟨row, hrow, hentry⟩ := (heligible e he).source
    refine ⟨row, hrow, ?_, Row.entry_date hentry⟩
    rw [Row.entry_symbol hentry]
    exact congrArg some (congrArg (fun i => (ofLex i).1) (hgood e (hrows e he)).1)
  · exact hcounts
  · exact hused
  · exact hedge.1
  · exact hedge.2
  · rintro i rfl
    exact bin_le hregime

theorem fit_edges (hnp : np.Lawful) {testEnd : Int} {frame : List (Row F)} {report : FitReport F}
    (h : fit np config trainEnd frame testEnd = .ok report) {record : FitRecord F}
    (hrecord : record ∈ report.fits) {base : Base F} (hbase : record.base = some base) :
    ∀ edge ∈ base.sizeBinEdgesAdvFraction, np.isFinite edge = true ∧ 0 < edge := by
  obtain ⟨identity, depth, good, residuals, hp, hgood⟩ := fit_records h hrecord
  rcases mem_fitDepth hp with ⟨_, _, hnone⟩ | ⟨hdeep, edges, regime, hedges, _, hp⟩
  · dsimp only at hnone
    rw [hnone] at hbase
    cases hbase
  · obtain rfl : base = _ := Option.some.inj (hbase.symm.trans (fitRegime_base hp))
    have hedge := depthEdges_positive hnp config hdeep fun e he => (hgood e he).2.size
    rw [← hedges] at hedge
    exact hedge.2

/-! ## No stratum twice -/

theorem fitForm_form {base : Base F} {form : Form} {s : Stratum}
    (h : (fitForm np trainEnd base rows form).1.stratum = some s) : s.form = form := by
  unfold fitForm at h
  dsimp only at h
  split at h
  · cases h
  · cases h
    rfl

theorem fitRegime_strata :
    (strata (fitRegime np trainEnd identity depth edges regime rows)).Nodup := by
  unfold fitRegime strata
  dsimp only
  split
  · exact List.nodup_nil
  · rw [List.filterMap_map]
    refine List.Nodup.filterMap ?_ (by decide)
    intro form form' s hs hs'
    exact (fitForm_form hs).symm.trans (fitForm_form hs')

theorem fitDepth_strata : (strata (fitDepth np config trainEnd identity good depth)).Nodup := by
  unfold fitDepth
  dsimp only
  split
  · exact List.nodup_nil
  · rw [strata_flatMap]
    refine nodup_flatMap_of_key Stratum.sizeRegime (regimes_nodup config _) ?_ ?_
    · intro regime _
      exact fitRegime_strata
    · intro regime _ s hs
      obtain ⟨p, hp, hs⟩ := mem_strata.mp hs
      exact (stratum_of_base (fitRegime_base hp) hs).2.2

theorem fitDepth_stratum {s : Stratum}
    (hs : s ∈ strata (fitDepth np config trainEnd identity good depth)) :
    s.identity = identity ∧ s.depth = depth := by
  obtain ⟨p, hp, hs⟩ := mem_strata.mp hs
  rcases mem_fitDepth hp with ⟨trainRows, testRows, hnone⟩ | ⟨_, edges, regime, _, _, hp⟩
  · rw [hnone] at hs
    cases hs
  · obtain ⟨hidentity, hdepth, _⟩ := stratum_of_base (fitRegime_base hp) hs
    exact ⟨hidentity, hdepth⟩

theorem fitGroup_strata {original : List (Entry F)} :
    (strata (fitGroup np config trainEnd identity original).2).Nodup := by
  unfold fitGroup
  dsimp only
  split
  · exact List.nodup_nil
  · dsimp only
    rw [strata_flatMap]
    refine nodup_flatMap_of_key Stratum.depth (by decide) ?_ ?_
    · intro depth _
      exact fitDepth_strata
    · intro depth _ s hs
      exact (fitDepth_stratum hs).2

theorem strata_nodup {testEnd : Int} {frame : List (Row F)} {report : FitReport F}
    (h : fit np config trainEnd frame testEnd = .ok report) :
    (report.fits.filterMap FitRecord.stratum).Nodup := by
  obtain ⟨_, _, _, _, window, _, hfits⟩ := fit_window h
  rw [hfits, groupby, List.flatMap_map, List.filterMap_flatMap]
  have hunique : (unique (window.map Entry.identity)).Nodup :=
    (unique_increasing _).imp fun hlt => hlt.ne
  refine nodup_flatMap_of_key Stratum.identity hunique ?_ ?_
  · intro identity _
    rw [List.filterMap_map]
    exact fitGroup_strata
  · intro identity _ s hs
    rw [List.filterMap_map] at hs
    obtain ⟨p, hp, hs⟩ := mem_strata.mp hs
    obtain ⟨depth, hp⟩ := mem_fitGroup hp
    exact (fitDepth_stratum (mem_strata.mpr ⟨p, hp, hs⟩)).1

end ImpactModel
end Models
end PerpCarry
