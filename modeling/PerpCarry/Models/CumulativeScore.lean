import Mathlib.Data.List.Nodup
import PerpCarry.Lib.EventRun
import PerpCarry.Models.FundingWindow

/-!
# Models.CumulativeScore

Forecasts of settlement sums against what was settled: `score_cumulative` of
`python/perpcarry/models/funding_walk_forward.py`.

The records of a stream and the observations meet by their times only. A position that `emit` gives a
record is the position that `lookup` finds for it.

* `scoreRecords_tallied`: what is scored, and that every record is counted once.
* `forecast_cumulative`: a forecast has every horizon, at the cadence of its training.
* `forecastStream_sound`: a record is made from rows before its own.
* `scoreCumulative_aligned`: the sum scored for a forecast is of the settlements it was about.
-/

namespace PerpCarry
namespace Models
namespace FundingWalkForward

open Lib
open Strategy (bind_ok pure_ok)

/-! ## Observations -/

/-- A `float64` rate. -/
inductive Rate (K : Type) where
  | finite (value : K)
  | infinity (negative : Bool)
  | nan
  deriving DecidableEq

namespace Rate

variable {K : Type} [Field K] [LinearOrder K]

def cell : Rate K → Cell K
  | .finite value => .float value
  | .infinity negative => .infinity negative
  | .nan => .nan

def add : Rate K → Rate K → Rate K
  | .finite a, .finite b => .finite (a + b)
  | .infinity s, .infinity t => if s = t then .infinity s else .nan
  | .infinity s, .finite _ => .infinity s
  | .finite _, .infinity t => .infinity t
  | _, _ => .nan

/-- `rates.sum()`. -/
def sum (rates : List (Rate K)) : Rate K := rates.foldl add (.finite 0)

/-- `self < bound`. -/
def below : Rate K → K → Bool
  | .finite value, bound => value < bound
  | .infinity negative, _ => negative
  | .nan, _ => false

/-- `bound < self`. -/
def above : Rate K → K → Bool
  | .finite value, bound => bound < value
  | .infinity negative, _ => !negative
  | .nan, _ => false

/-- `low <= self <= high`. -/
def within : Rate K → K → K → Bool
  | .finite value, low, high => low ≤ value && value ≤ high
  | _, _, _ => false

end Rate

/-- A row of an observation frame. -/
structure Settlement (K : Type) where
  fundingTime : Int
  symbol : Label
  fundingRate : Rate K
  fundingIntervalHours : Int
  deriving DecidableEq

variable {K : Type}

/-- The settlements from a position on, as many as the horizon. -/
def ahead (observations : List (Settlement K)) (horizon i : Nat) : List (Settlement K) :=
  (observations.drop i).take horizon

/-- With distinct times no settlement before a position has the time of one from there on. -/
theorem ahead_later {observations : List (Settlement K)} {horizon i : Nat}
    (hdistinct : (observations.map (·.fundingTime)).Nodup) {earlier settlement : Settlement K}
    (hearlier : earlier ∈ observations.take i)
    (hsettlement : settlement ∈ ahead observations horizon i) :
    settlement.fundingTime ≠ earlier.fundingTime := by
  rw [← List.take_append_drop i observations, List.map_append, List.nodup_append] at hdistinct
  have hdrop : settlement ∈ observations.drop i := List.mem_of_mem_take hsettlement
  exact (hdistinct.2.2 _ (List.mem_map_of_mem hearlier) _ (List.mem_map_of_mem hdrop)).symm

variable [Field K]

/-- The row as the stream reads it. -/
def Settlement.row (self : Settlement K) : Row K :=
  ⟨.int self.fundingTime, self.symbol, self.fundingRate.cell, .int self.fundingIntervalHours⟩

/-! ## `score_cumulative` -/

section Definition

variable [LinearOrder K]

/-- The `KeyError` of a time that was not observed, or of a horizon that was not forecast. -/
inductive ScoreError (K : Type) where
  | time (cell : Cell K)
  | horizon (horizon : Nat)
  deriving DecidableEq

/-- `cell == time`. -/
def equalsTime (cell : Cell K) (time : Int) : Bool :=
  match cell with
  | .int value => value = time
  | .float value => value = (time : K)
  | .bool value => (if value then 1 else 0) = time
  | _ => false

/-- `{int(value): i for i, value in enumerate(times)}[cell]`: of equal times the last one stays. -/
def lookup (times : List Int) (cell : Cell K) : Option Nat :=
  (times.zipIdx.reverse.find? fun entry => equalsTime cell entry.1).map Prod.snd

/-- The four lists and the three counters. -/
structure Scoring (K : Type) where
  actual : List (Rate K) := []
  low : List K := []
  high : List K := []
  positive : List K := []
  incomplete : Nat := 0
  cadenceExcluded : Nat := 0
  unavailable : Nat := 0
  deriving DecidableEq

section Score

variable (observations : List (Settlement K)) (horizon : Nat)

/-- One pass of the loop. -/
def scoreRecord (s : Scoring K) (record : Record K) : Except (ScoreError K) (Scoring K) :=
  match record.status with
  | .unavailable _ => .ok { s with unavailable := s.unavailable + 1 }
  | .forecast body =>
    match lookup (observations.map (·.fundingTime)) record.fundingTime with
    | none => .error (.time record.fundingTime)
    | some i =>
      match body.cumulative.lookup (horizon : Int) with
      | none => .error (.horizon horizon)
      | some forecast =>
        if observations.length < i + horizon then .ok { s with incomplete := s.incomplete + 1 }
        else if ∃ settlement ∈ ahead observations horizon i,
            settlement.fundingIntervalHours ≠ forecast.intervalHours then
          .ok { s with cadenceExcluded := s.cadenceExcluded + 1 }
        else
          .ok { s with
            actual := s.actual ++ [.sum ((ahead observations horizon i).map (·.fundingRate))]
            low := s.low ++ [forecast.interval95Fraction.1]
            high := s.high ++ [forecast.interval95Fraction.2]
            positive := s.positive ++ [forecast.positiveProbability] }

def scoreRecords (records : List (Record K)) : Except (ScoreError K) (Scoring K) :=
  run (scoreRecord observations horizon) {} records

end Score

/-- What is reported when something was scored. -/
structure Diagnostics (K : Type) where
  coverage95 : K
  lower95Misses : Nat
  upper95Misses : Nat
  positiveProbabilityBrier : K
  deriving DecidableEq

structure CumulativeScore (K : Type) where
  horizonSettlements : Nat
  rows : Nat
  incompleteEndpoints : Nat
  cadenceExcluded : Nat
  unavailable : Nat
  caveat : String :=
    "overlapping conditional forecasts; dependent scores, diagnostic horizon only"
  diagnostics : Option (Diagnostics K)
  deriving DecidableEq

def Scoring.diagnostics (s : Scoring K) : Diagnostics K :=
  let rows : K := (s.actual.length : Nat)
  let covered := (s.actual.zip (s.low.zip s.high)).countP fun r => r.1.within r.2.1 r.2.2
  let errors := (s.actual.zip s.positive).map fun r =>
    (r.2 - if r.1.above 0 then 1 else 0) ^ 2
  { coverage95 := (covered : Nat) / rows
    lower95Misses := (s.actual.zip s.low).countP fun r => r.1.below r.2
    upper95Misses := (s.actual.zip s.high).countP fun r => r.1.above r.2
    positiveProbabilityBrier := errors.sum / rows }

def Scoring.result (s : Scoring K) (horizon : Nat) : CumulativeScore K where
  horizonSettlements := horizon
  rows := s.actual.length
  incompleteEndpoints := s.incomplete
  cadenceExcluded := s.cadenceExcluded
  unavailable := s.unavailable
  diagnostics := if s.actual = [] then none else some s.diagnostics

def scoreCumulative (records : List (Record K)) (observations : List (Settlement K))
    (horizon : Nat) : Except (ScoreError K) (CumulativeScore K) :=
  (scoreRecords observations horizon records).map (·.result horizon)

end Definition

/-! ## What a position is scored as -/

/-- The sum and the forecast that are compared, when the record at a position is scored. -/
def scoredAs (observations : List (Settlement K)) (horizon : Nat) (y : Nat × Yielded K) :
    Option (Rate K × CumulativeSummary K) :=
  match y.2.record.status with
  | .unavailable _ => none
  | .forecast body =>
    match body.cumulative.lookup (horizon : Int) with
    | none => none
    | some forecast =>
      if y.1 + horizon ≤ observations.length ∧ ∀ settlement ∈ ahead observations horizon y.1,
          settlement.fundingIntervalHours = forecast.intervalHours then
        some (.sum ((ahead observations horizon y.1).map (·.fundingRate)), forecast)
      else none

/-- After the records `ys`: what was scored, in order, and what was not, by its reason. -/
structure Tallied (observations : List (Settlement K)) (horizon : Nat) (ys : List (Nat × Yielded K))
    (s : Scoring K) : Prop where
  actual : s.actual = (ys.filterMap (scoredAs observations horizon)).map Prod.fst
  low : s.low = (ys.filterMap (scoredAs observations horizon)).map (·.2.interval95Fraction.1)
  high : s.high = (ys.filterMap (scoredAs observations horizon)).map (·.2.interval95Fraction.2)
  positive : s.positive =
    (ys.filterMap (scoredAs observations horizon)).map (·.2.positiveProbability)
  total : s.actual.length + s.incomplete + s.cadenceExcluded + s.unavailable = ys.length

/-- A forecast record stands at the position of its settlement, with a forecast for the horizon. -/
def Placed (observations : List (Settlement K)) (horizon : Nat) (y : Nat × Yielded K) : Prop :=
  ∀ body, y.2.record.status = .forecast body →
    (∃ settlement, observations[y.1]? = some settlement ∧
      y.2.record.fundingTime = .int settlement.fundingTime) ∧
    ∃ forecast, body.cumulative.lookup (horizon : Int) = some forecast

section Tally

variable {observations : List (Settlement K)} {horizon : Nat} {ys : List (Nat × Yielded K)}
  {y : Nat × Yielded K} {s : Scoring K}

/-- A record that only moves a counter. -/
theorem Tallied.skip {s' : Scoring K} (h : Tallied observations horizon ys s)
    (hnone : scoredAs observations horizon y = none) (hactual : s'.actual = s.actual)
    (hlow : s'.low = s.low) (hhigh : s'.high = s.high) (hpositive : s'.positive = s.positive)
    (hcount : s'.incomplete + s'.cadenceExcluded + s'.unavailable =
      s.incomplete + s.cadenceExcluded + s.unavailable + 1) :
    Tallied observations horizon (ys ++ [y]) s' := by
  have hsame : (ys ++ [y]).filterMap (scoredAs observations horizon) =
      ys.filterMap (scoredAs observations horizon) := by
    simp [hnone]
  have htotal := h.total
  refine ⟨?_, ?_, ?_, ?_, ?_⟩
  · rw [hactual, hsame, h.actual]
  · rw [hlow, hsame, h.low]
  · rw [hhigh, hsame, h.high]
  · rw [hpositive, hsame, h.positive]
  · rw [hactual, List.length_append, List.length_singleton]
    omega

theorem Tallied.add {rate : Rate K} {forecast : CumulativeSummary K}
    (h : Tallied observations horizon ys s)
    (hsome : scoredAs observations horizon y = some (rate, forecast)) :
    Tallied observations horizon (ys ++ [y]) { s with
      actual := s.actual ++ [rate]
      low := s.low ++ [forecast.interval95Fraction.1]
      high := s.high ++ [forecast.interval95Fraction.2]
      positive := s.positive ++ [forecast.positiveProbability] } := by
  have hmore : (ys ++ [y]).filterMap (scoredAs observations horizon) =
      ys.filterMap (scoredAs observations horizon) ++ [(rate, forecast)] := by
    simp [hsome]
  have htotal := h.total
  refine ⟨?_, ?_, ?_, ?_, ?_⟩
  · rw [hmore, List.map_append, h.actual]
    rfl
  · rw [hmore, List.map_append, h.low]
    rfl
  · rw [hmore, List.map_append, h.high]
    rfl
  · rw [hmore, List.map_append, h.positive]
    rfl
  · simp only [List.length_append, List.length_singleton]
    omega

variable [LinearOrder K]

/-- With distinct times a settlement is found where it stands. -/
theorem lookup_position {times : List Int} (h : times.Nodup) {i : Nat} {time : Int}
    (hi : times[i]? = some time) : lookup times (.int time : Cell K) = some i := by
  have hentry : ∀ entry ∈ times.zipIdx, entry.1 = time → entry.2 = i := by
    rintro ⟨value, j⟩ hmem rfl
    have hj := List.mem_zipIdx_iff_getElem?.mp hmem
    obtain ⟨hj', hvalue⟩ := List.getElem?_eq_some_iff.mp hj
    obtain ⟨hi', hvalue'⟩ := List.getElem?_eq_some_iff.mp hi
    exact (h.getElem_inj_iff).mp (hvalue.trans hvalue'.symm)
  unfold lookup
  cases hfind : times.zipIdx.reverse.find? fun entry => equalsTime (.int time : Cell K) entry.1 with
  | none =>
    have hnone := List.find?_eq_none.mp hfind (time, i)
      (List.mem_reverse.mpr (List.mem_zipIdx_iff_getElem?.mpr hi))
    simp [equalsTime] at hnone
  | some entry =>
    have hmem := List.mem_reverse.mp (List.mem_of_find?_eq_some hfind)
    have hequal : time = entry.1 := by simpa [equalsTime] using List.find?_some hfind
    exact congrArg some (hentry entry hmem hequal.symm)

/-- One record: scored, or counted under the reason why not. -/
theorem scoreRecord_tallied (hdistinct : (observations.map (·.fundingTime)).Nodup)
    (hplaced : Placed observations horizon y) (h : Tallied observations horizon ys s) :
    ∃ s', scoreRecord observations horizon s y.2.record = .ok s' ∧
      Tallied observations horizon (ys ++ [y]) s' := by
  cases hstatus : y.2.record.status with
  | unavailable reason =>
    have hnone : scoredAs observations horizon y = none := by simp only [scoredAs, hstatus]
    refine ⟨{ s with unavailable := s.unavailable + 1 }, ?_, ?_⟩
    · simp only [scoreRecord, hstatus]
    · exact h.skip hnone rfl rfl rfl rfl rfl
  | forecast body =>
    obtain ⟨⟨settlement, hposition, htime⟩, forecast, hforecast⟩ := hplaced body hstatus
    have hlookup : lookup (observations.map (·.fundingTime)) y.2.record.fundingTime = some y.1 := by
      rw [htime]
      exact lookup_position hdistinct (by simp [hposition])
    unfold scoreRecord
    simp only [hstatus, hlookup, hforecast]
    by_cases hend : observations.length < y.1 + horizon
    · have hnone : scoredAs observations horizon y = none := by
        simp only [scoredAs, hstatus, hforecast]
        exact if_neg fun hscored => absurd hscored.1 (not_le.mpr hend)
      rw [if_pos hend]
      refine ⟨_, rfl, h.skip hnone rfl rfl rfl rfl ?_⟩
      dsimp only
      omega
    · rw [if_neg hend]
      by_cases hcadence : ∃ settlement ∈ ahead observations horizon y.1,
          settlement.fundingIntervalHours ≠ forecast.intervalHours
      · have hnone : scoredAs observations horizon y = none := by
          simp only [scoredAs, hstatus, hforecast]
          refine if_neg fun hscored => ?_
          obtain ⟨other, hother, hne⟩ := hcadence
          exact hne (hscored.2 other hother)
        rw [if_pos hcadence]
        refine ⟨_, rfl, h.skip hnone rfl rfl rfl rfl ?_⟩
        dsimp only
        omega
      · have hsome : scoredAs observations horizon y =
            some (.sum ((ahead observations horizon y.1).map (·.fundingRate)), forecast) := by
          simp only [scoredAs, hstatus, hforecast]
          refine if_pos ⟨not_lt.mp hend, ?_⟩
          intro other hother
          by_contra hne
          exact hcadence ⟨other, hother, hne⟩
        rw [if_neg hcadence]
        exact ⟨_, rfl, h.add hsome⟩

theorem scoreRecords_tallied (hdistinct : (observations.map (·.fundingTime)).Nodup)
    (hplaced : ∀ y ∈ ys, Placed observations horizon y) :
    ∃ s, scoreRecords observations horizon (ys.map (·.2.record)) = .ok s ∧
      Tallied observations horizon ys s := by
  have hstart : Tallied observations horizon [] {} := ⟨rfl, rfl, rfl, rfl, rfl⟩
  obtain ⟨s, hrun, htallied⟩ := run_progress (Tallied observations horizon)
    (fun y hy past s h => scoreRecord_tallied hdistinct (hplaced y hy) h) [] hstart
  refine ⟨s, ?_, htallied⟩
  unfold scoreRecords
  rw [run_list_map]
  exact hrun

end Tally

/-! ## What the stream forecasts -/

section Stream

variable [LinearOrder K] {numerics : Numerics K} {config : Config} {s s' : State K} {row : Row K}
  {body : Forecast K} {start finish : Int}

theorem lookup_of_forall₂ {V : Type} {P : V → Prop} {keys : List Int} {entries : List (Int × V)}
    (h : List.Forall₂ (fun key entry => entry.1 = key ∧ P entry.2) keys entries) {key : Int}
    (hkey : key ∈ keys) : ∃ value, entries.lookup key = some value ∧ P value := by
  induction h with
  | nil => cases hkey
  | @cons head entry keys entries hentry _ ih =>
    obtain ⟨entryKey, value⟩ := entry
    obtain ⟨rfl, hvalue⟩ := hentry
    by_cases hsame : key = entryKey
    · subst hsame
      exact ⟨value, by simp, hvalue⟩
    · have hbeq : (key == entryKey) = false := beq_false_of_ne hsame
      obtain ⟨found, hfound, hP⟩ := ih ((List.mem_cons.mp hkey).resolve_left hsame)
      exact ⟨found, by rw [List.lookup_cons, hbeq, hfound], hP⟩

/-- A forecast has an entry for every horizon, at the cadence of its training. -/
theorem forecast_cumulative {timestamp : Cell K}
    (h : (forecast numerics config s timestamp).1 = .ok body) :
    ∀ horizon ∈ config.horizons, ∃ summary, body.cumulative.lookup horizon = some summary ∧
      summary.intervalHours = body.training.intervalHours := by
  intro horizon hhorizon
  unfold forecast at h
  dsimp only at h
  split at h
  · cases h
  · rename_i posterior training htrained
    simp only [bind_ok, pure_ok, Prod.mk.injEq] at htrained
    obtain ⟨_, _, _, htraining, _, rfl⟩ := htrained
    simp only [bind_ok, pure_ok] at h
    obtain ⟨cumulative, hcumulative, rfl⟩ := h
    refine lookup_of_forall₂ ((mapM_ok_iff.mp hcumulative).imp ?_) hhorizon
    rintro key entry hentry
    simp only [bind_ok, pure_ok] at hentry
    obtain ⟨f, hf, rfl⟩ := hentry
    refine ⟨rfl, ?_⟩
    -- The window of the training is the window of the paths.
    unfold RollingFundingModel.trainingSummary at htraining
    simp only [bind_ok, pure_ok] at htraining
    obtain ⟨⟨decision, selected⟩, hselected, rfl⟩ := htraining
    unfold RollingFundingModel.selectionAt at hselected
    split at hselected
    · cases hselected
    · simp only [bind_ok, pure_ok, Prod.mk.injEq] at hselected
      obtain ⟨_, _, _, hselection, rfl, rfl⟩ := hselected
      unfold RollingFundingModel.predictCumulativeFunding at hf
      simp only [bind_ok, pure_ok] at hf
      obtain ⟨_, _, _, _, _, _, again, hagain, _, _, rfl⟩ := hf
      rw [hselection] at hagain
      cases hagain
      rfl

/-- Looking at a row leaves the model alone. A record is for the row's time, and its forecast is the
one of the state before the row. -/
theorem lookAt_go {out : Option (Yielded K)}
    (h : lookAt numerics config start finish s row = .go out s') :
    s'.model = s.model ∧ ∀ y ∈ out, y.record.fundingTime = row.fundingTime ∧
      ∀ body, y.record.status = .forecast body →
        (forecast numerics config s row.fundingTime).1 = .ok body := by
  unfold lookAt at h
  dsimp only at h
  generalize (if s.symbol = .missing then row.symbol else s.symbol) = symbol at h
  split at h
  · cases h
  · cases h
  · split at h
    · cases h
    · split at h
      · cases h
      · cases h
        refine ⟨rfl, ?_⟩
        rintro _ ⟨⟩
      · split at h
        · rename_i hbody
          cases h
          refine ⟨rfl, ?_⟩
          rintro _ ⟨⟩
          refine ⟨rfl, ?_⟩
          rintro _ ⟨⟩
          exact hbody
        · split at h
          · cases h
            refine ⟨rfl, ?_⟩
            rintro _ ⟨⟩
            refine ⟨rfl, ?_⟩
            rintro _ ⟨⟩
          · cases h

/-- Every row of the model's history was read from an observation. -/
def ReadFrom (past : List (Row K)) (s : State K) : Prop :=
  ∀ observed ∈ s.model.history, ∃ row ∈ past,
    Update.read ⟨row.fundingTime, row.fundingRate, row.fundingIntervalHours⟩ = .ok observed

theorem observe_readFrom {past : List (Row K)} (hpast : ReadFrom past s)
    (h : observe s row = .ok s') : ReadFrom (past ++ [row]) s' := by
  unfold observe at h
  simp only [bind_ok, pure_ok] at h
  obtain ⟨model, hmodel, rfl⟩ := h
  have hread := RollingFundingModel.updateCells_read s.model
    ⟨row.fundingTime, row.fundingRate, row.fundingIntervalHours⟩
  rw [hread, bind_ok] at hmodel
  obtain ⟨newest, hnewest, hupdate⟩ := hmodel
  intro observed hobserved
  rcases RollingFundingModel.update_rows hupdate observed hobserved with hkept | rfl
  · obtain ⟨earlier, hearlier, hsame⟩ := hpast observed hkept
    exact ⟨earlier, List.mem_append_left _ hearlier, hsame⟩
  · exact ⟨row, List.mem_append_right _ (List.mem_singleton_self _), hnewest⟩

/-- A record is made at its row, from rows before it. -/
theorem forecastStream_sound {prior : Prior K} {frame : List (Row K)} {studyStart studyEnd : Int} :
    ∀ y ∈ (forecastStream numerics config frame studyStart studyEnd prior).1, ∃ row t,
      frame[y.1]? = some row ∧ y.2.record.fundingTime = row.fundingTime ∧
      ReadFrom (frame.take y.1) t ∧ ∀ body, y.2.record.status = .forecast body →
        (forecast numerics config t row.fundingTime).1 = .ok body := by
  intro y hy
  unfold forecastStream at hy
  split at hy
  · cases hy
  · have hlook : ∀ past s row out s', ReadFrom past s →
        lookAt numerics config (utcMs studyStart) (utcMs studyEnd) s row = .go out s' →
        ReadFrom past s' := by
      intro past s row out s' hpast hgo
      unfold ReadFrom
      rw [(lookAt_go hgo).1]
      exact hpast
    have hstart : ∀ model : RollingFundingModel K, model.history = [] →
        ReadFrom [] { model := model } := by
      intro model hempty observed hobserved
      rw [hempty] at hobserved
      cases hobserved
    obtain ⟨row, t, t', hrow, hread, hgo⟩ :=
      emit_sound ReadFrom hlook (fun past s row s' => observe_readFrom) [] (hstart _ rfl) y hy
    obtain ⟨htime, hforecast⟩ := (lookAt_go hgo).2 y.2 rfl
    exact ⟨row, t, hrow, htime, hread, hforecast⟩

end Stream

/-! ## Aligned -/

section Aligned

theorem Settlement.read_row {settlement : Settlement K} {observed : Observation K}
    (h : Update.read ⟨settlement.row.fundingTime, settlement.row.fundingRate,
      settlement.row.fundingIntervalHours⟩ = .ok observed) :
    settlement =
      ⟨observed.timeMs, settlement.symbol, .finite observed.rate, observed.intervalHours⟩ := by
  obtain ⟨time, symbol, rate, hours⟩ := settlement
  simp only [Update.read, Settlement.row, Cell.toInteger, bind_ok, pure_ok] at h
  obtain ⟨_, ⟨_, _, rfl⟩, _, ⟨_, _, rfl⟩, value, hvalue, rfl⟩ := h
  cases rate with
  | finite value' =>
    cases hvalue
    rfl
  | infinity negative => cases hvalue
  | nan => cases hvalue

variable [LinearOrder K]

/-- A forecast beside what it is scored against: from the record's own settlement on, at the cadence
of the forecast's training, and with none of the settlements that were trained on. -/
structure Aligned (numerics : Numerics K) (config : Config) (observations : List (Settlement K))
    (horizon : Nat) (y : Nat × Yielded K) (body : Forecast K) : Prop where
  own : ∃ settlement, (ahead observations horizon y.1).head? = some settlement ∧
    y.2.record.fundingTime = .int settlement.fundingTime
  cadence : ∃ summary, body.cumulative.lookup (horizon : Int) = some summary ∧
    summary.intervalHours = body.training.intervalHours
  unseen : ∃ t, (forecast numerics config t y.2.record.fundingTime).1 = .ok body ∧
    ∀ row ∈ t.model.history,
      (∃ earlier ∈ observations.take y.1,
        earlier = ⟨row.timeMs, earlier.symbol, .finite row.rate, row.intervalHours⟩) ∧
      ∀ settlement ∈ ahead observations horizon y.1, settlement.fundingTime ≠ row.timeMs

variable {numerics : Numerics K} {config : Config} {prior : Prior K} {studyStart studyEnd : Int}
  {observations : List (Settlement K)} {horizon : Nat}

theorem forecastStream_aligned (hdistinct : (observations.map (·.fundingTime)).Nodup)
    (hhorizon : (horizon : Int) ∈ config.horizons) :
    ∀ y ∈ (forecastStream numerics config (observations.map (·.row)) studyStart studyEnd prior).1,
      ∀ body, y.2.record.status = .forecast body →
        Aligned numerics config observations horizon y body := by
  intro y hy body hbody
  obtain ⟨row, t, hrow, htime, hread, hforecast⟩ := forecastStream_sound y hy
  rw [List.getElem?_map, Option.map_eq_some_iff] at hrow
  obtain ⟨settlement, hposition, rfl⟩ := hrow
  have hmade := hforecast body hbody
  have hpositive : 1 ≤ (horizon : Int) := config.horizons_pos _ hhorizon
  refine ⟨⟨settlement, ?_, htime⟩, forecast_cumulative hmade _ hhorizon, t, htime ▸ hmade, ?_⟩
  · unfold ahead
    rw [List.head?_take, if_neg (by omega), List.head?_drop, hposition]
  · intro observed hobserved
    obtain ⟨row, hmem, hsame⟩ := hread observed hobserved
    rw [← List.map_take] at hmem
    obtain ⟨earlier, hearlier, rfl⟩ := List.mem_map.mp hmem
    have hequal := Settlement.read_row hsame
    refine ⟨⟨earlier, hearlier, hequal⟩, ?_⟩
    intro later hlater
    have hne := ahead_later hdistinct hearlier hlater
    rw [hequal] at hne
    exact hne

/-- The records are scored against the settlements that they forecast, and all are accounted for. -/
theorem scoreCumulative_aligned (numerics : Numerics K) (config : Config) (prior : Prior K)
    (studyStart studyEnd : Int) {observations : List (Settlement K)} {horizon : Nat}
    {ys : List (Nat × Yielded K)} (hdistinct : (observations.map (·.fundingTime)).Nodup)
    (hhorizon : (horizon : Int) ∈ config.horizons)
    (hys : ys <+: (forecastStream numerics config (observations.map (·.row)) studyStart studyEnd
      prior).1) :
    ∃ s, scoreCumulative (ys.map (·.2.record)) observations horizon = .ok (s.result horizon) ∧
      Tallied observations horizon ys s ∧ ∀ y ∈ ys, ∀ body, y.2.record.status = .forecast body →
        Aligned numerics config observations horizon y body := by
  have haligned : ∀ y ∈ ys, ∀ body, y.2.record.status = .forecast body →
      Aligned numerics config observations horizon y body :=
    fun y hy => forecastStream_aligned hdistinct hhorizon y (hys.subset hy)
  have hplaced : ∀ y ∈ ys, Placed observations horizon y := by
    intro y hy body hbody
    have h := haligned y hy body hbody
    obtain ⟨settlement, hhead, htime⟩ := h.own
    obtain ⟨summary, hsummary, _⟩ := h.cadence
    refine ⟨⟨settlement, ?_, htime⟩, summary, hsummary⟩
    unfold ahead at hhead
    rw [List.head?_take] at hhead
    split at hhead
    · cases hhead
    · rwa [List.head?_drop] at hhead
  obtain ⟨s, hrun, htallied⟩ := scoreRecords_tallied hdistinct hplaced
  refine ⟨s, ?_, htallied, haligned⟩
  unfold scoreCumulative
  rw [hrun]
  rfl

end Aligned

/-! ## Twelve settlements, the last after half the cadence -/

/-- Every path repeats the last rate. -/
def steadyNumerics : Numerics ℚ :=
  { flatNumerics with
    paths := fun rates _ _ horizon draws _ =>
      .ok (List.replicate draws.toNat (horizon * rates.getLast?.getD 0)) }

def twelve : List (Settlement ℚ) :=
  (List.range 11).map (fun i => ⟨28800000 * i, .text "BTCUSDT", .finite (1 / 10000), 8⟩) ++
    [⟨302400000, .text "BTCUSDT", .finite (1 / 10000), 4⟩]

theorem scoreCumulative_twelve :
    let ys := (forecastStream steadyNumerics flatConfig (twelve.map (·.row)) 0 4 flatPrior).1
    ∃ s, scoreCumulative (ys.map (·.2.record)) twelve 6 = .ok (s.result 6) ∧
      Tallied twelve 6 ys s ∧ ∀ y ∈ ys, ∀ body, y.2.record.status = .forecast body →
        Aligned steadyNumerics flatConfig twelve 6 y body :=
  scoreCumulative_aligned steadyNumerics flatConfig flatPrior 0 4 (by decide) (by decide)
    (List.prefix_refl _)

example : (scoreCumulative ((forecastStream steadyNumerics flatConfig (twelve.map (·.row)) 0 4
      flatPrior).1.map (·.2.record)) twelve 6).map
    (fun r => (r.rows, r.incompleteEndpoints, r.cadenceExcluded, r.unavailable)) =
      .ok (1, 5, 1, 5) := by
  decide +kernel

end FundingWalkForward
end Models
end PerpCarry
