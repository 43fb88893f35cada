import PerpCarry.Ingestion.FundingSeries
import PerpCarry.Lib.EventRun
import PerpCarry.Models.FundingWindow

/-!
# Models.SeriesAdmission

A validated funding series and the model that it is fed to.

`validate` tests whole columns, `update` one row against the last row of its history. The history is
cleared and evicted, but its last row is always the row before.

* `feedRow_accepts`: when a row is admitted, by the time of the row before it only.
* `admitted_iff_regular`: which frames a fresh model admits.
* `validate_iff_admitted`: the validator and the model accept the same frames.
-/

namespace PerpCarry
namespace Models

open Ingestion.FetchFunding
open Ingestion.FundingSeries
open Lib
open Strategy (bind_ok pure_ok)

/-- A double as a cell. -/
def ofDouble : Double → Cell ℚ
  | .finite q => .float q
  | .infinity negative => .infinity negative
  | .nan => .nan

/-- The call of `update` for a row of a frame. -/
def rowUpdate (row : FundingRow) : Update ℚ :=
  ⟨.int row.fundingTime, ofDouble row.fundingRate, .int row.fundingIntervalHours⟩

def feedRow (m : RollingFundingModel ℚ) (row : FundingRow) :
    Except Raised (RollingFundingModel ℚ) :=
  let u := rowUpdate row
  m.updateCells u.fundingTime u.fundingRate u.intervalHours

/-- The rows of a frame, in order. -/
def feed (m : RollingFundingModel ℚ) (frame : List FundingRow) :
    Except Raised (RollingFundingModel ℚ) :=
  run feedRow m frame

/-- The time of the newest row. -/
def newestTime (m : RollingFundingModel ℚ) : Option Int := m.history.getLast?.map (·.timeMs)

/-! ## One row -/

namespace RollingFundingModel

variable {K : Type} [Field K] [LinearOrder K]

/-- When `update` admits a row. -/
theorem update_accepts (m : RollingFundingModel K) {time hours : Int} {rate : K} :
    (∃ m', m.update time rate hours = .ok m') ↔
      (0 ≤ time ∧ 1 ≤ hours ∧ hours ≤ 24 ∧ |rate| ≤ 3602879701896397 / 2 ^ 56) ∧
        ∀ previous ∈ m.history.getLast?, previous.timeMs < time ∧
          |time - previous.timeMs - hours * HOUR_MS| ≤ JITTER_MS := by
  unfold update follows integer
  simp only [bind_ok, pure_ok, raiseWhen_ok, not_lt, not_or, Nat.cast_ofNat, Nat.cast_pow]
  cases hlast : m.history.getLast? with
  | none =>
    constructor
    · rintro ⟨_, _, htime, _, hhours, _, ⟨hlong, hrate⟩, _⟩
      exact ⟨⟨htime, hhours, hlong, hrate⟩, nofun⟩
    · rintro ⟨⟨htime, hhours, hlong, hrate⟩, -⟩
      exact ⟨_, (), htime, (), hhours, (), ⟨hlong, hrate⟩, (), rfl, rfl⟩
  | some previous =>
    simp only [bind_ok, raiseWhen_ok, not_lt, not_le]
    constructor
    · rintro ⟨_, _, htime, _, hhours, _, ⟨hlong, hrate⟩, _, ⟨_, hlater, hspaced⟩, _⟩
      refine ⟨⟨htime, hhours, hlong, hrate⟩, ?_⟩
      rintro _ ⟨⟩
      exact ⟨hlater, hspaced⟩
    · rintro ⟨⟨htime, hhours, hlong, hrate⟩, hfollows⟩
      obtain ⟨hlater, hspaced⟩ := hfollows previous rfl
      exact ⟨_, (), htime, (), hhours, (), ⟨hlong, hrate⟩, (), ⟨(), hlater, hspaced⟩, rfl⟩

/-- The newest row is never evicted by its own admission. -/
theorem update_newest {m m' : RollingFundingModel K} {time hours : Int} {rate : K}
    (h : m.update time rate hours = .ok m') : m'.history.getLast? = some ⟨time, rate, hours⟩ := by
  unfold update at h
  simp only [bind_ok, pure_ok] at h
  obtain ⟨_, _, _, _, _, _, _, _, rfl⟩ := h
  have hdays := m.rolling_pos
  have hyoung : ¬ time < time - m.rollingDays * DAY_MS := by
    unfold DAY_MS
    omega
  dsimp only
  generalize (if m.resets hours = true then [] else m.history) = kept
  rw [List.dropWhile_append]
  split
  · simp [hyoung]
  · rw [List.getLast?_concat]

end RollingFundingModel

theorem rowUpdate_read {row : FundingRow} {observed : Observation ℚ} :
    (rowUpdate row).read = .ok observed ↔ 0 ≤ row.fundingTime ∧ 1 ≤ row.fundingIntervalHours ∧
      ∃ q, row.fundingRate = .finite q ∧
        observed = ⟨row.fundingTime, q, row.fundingIntervalHours⟩ := by
  unfold Update.read rowUpdate
  simp only [Cell.toInteger, integer, bind_ok, pure_ok, raiseWhen_ok, not_lt]
  cases hrate : row.fundingRate with
  | finite q =>
    constructor
    · rintro ⟨_, ⟨_, htime, rfl⟩, _, ⟨_, hhours, rfl⟩, _, ⟨⟩, rfl⟩
      exact ⟨htime, hhours, q, rfl, rfl⟩
    · rintro ⟨htime, hhours, _, ⟨⟩, rfl⟩
      exact ⟨_, ⟨(), htime, rfl⟩, _, ⟨(), hhours, rfl⟩, q, rfl, rfl⟩
  | infinity negative =>
    constructor
    · rintro ⟨_, -, _, -, _, ⟨⟩, -⟩
    · rintro ⟨-, -, _, ⟨⟩, -⟩
  | nan =>
    constructor
    · rintro ⟨_, -, _, -, _, ⟨⟩, -⟩
    · rintro ⟨-, -, _, ⟨⟩, -⟩

/-- What a row itself must be. -/
def RowOk (row : FundingRow) : Prop :=
  0 ≤ row.fundingTime ∧ Plausible row.fundingRate ∧
    1 ≤ row.fundingIntervalHours ∧ row.fundingIntervalHours ≤ 24

/-- What it must be after a row of a given time. -/
def StepOk (previousTime : Int) (row : FundingRow) : Prop :=
  previousTime < row.fundingTime ∧ |row.fundingTime - previousTime - row.step| ≤ TOLERANCE_MS

theorem feedRow_accepts (m : RollingFundingModel ℚ) (row : FundingRow) :
    (∃ m', feedRow m row = .ok m') ↔ RowOk row ∧ ∀ time ∈ newestTime m, StepOk time row := by
  have hnewest : (∀ time ∈ newestTime m, StepOk time row) ↔
      ∀ previous ∈ m.history.getLast?, StepOk previous.timeMs row := by
    unfold newestTime
    cases m.history.getLast? with
    | none => exact ⟨fun _ => nofun, fun _ => nofun⟩
    | some previous => simp
  rw [hnewest]
  unfold feedRow
  rw [RollingFundingModel.updateCells_read]
  simp only [bind_ok]
  constructor
  · rintro ⟨m', observed, hread, hupdate⟩
    obtain ⟨htime, hhours, q, hq, rfl⟩ := rowUpdate_read.mp hread
    obtain ⟨⟨-, -, hlong, hrate⟩, hfollows⟩ := m.update_accepts.mp ⟨m', hupdate⟩
    exact ⟨⟨htime, ⟨q, hq, hrate⟩, hhours, hlong⟩, hfollows⟩
  · rintro ⟨⟨htime, ⟨q, hq, hrate⟩, hhours, hlong⟩, hfollows⟩
    obtain ⟨m', hm'⟩ := m.update_accepts.mpr ⟨⟨htime, hhours, hlong, hrate⟩, hfollows⟩
    exact ⟨m', _, rowUpdate_read.mpr ⟨htime, hhours, q, hq, rfl⟩, hm'⟩

theorem feedRow_newest {m m' : RollingFundingModel ℚ} {row : FundingRow}
    (h : feedRow m row = .ok m') : newestTime m' = some row.fundingTime := by
  unfold feedRow at h
  rw [RollingFundingModel.updateCells_read, bind_ok] at h
  obtain ⟨observed, hread, hupdate⟩ := h
  obtain ⟨-, -, q, -, rfl⟩ := rowUpdate_read.mp hread
  unfold newestTime
  rw [RollingFundingModel.update_newest hupdate]
  rfl

theorem integer_raises (value minimum : Int) (name : String) :
    RaisesOnly .fundingHistoryError (integer value name minimum) :=
  .raiseWhen _ _

theorem update_raises {K : Type} [Field K] [LinearOrder K] (m : RollingFundingModel K)
    (time hours : Int) (rate : K) : RaisesOnly .fundingHistoryError (m.update time rate hours) := by
  unfold RollingFundingModel.update
  refine .bind (integer_raises _ _ _) fun _ => .bind (integer_raises _ _ _) fun _ =>
    .bind (.raiseWhen _ _) fun _ => .bind ?_ fun _ => .ok _
  unfold RollingFundingModel.follows
  split
  · exact .ok ()
  · exact .bind (.raiseWhen _ _) fun _ => .raiseWhen _ _

/-- A row is refused with the error of the history, whatever its rate is. -/
theorem feedRow_raises (m : RollingFundingModel ℚ) (row : FundingRow) :
    RaisesOnly .fundingHistoryError (feedRow m row) := by
  unfold feedRow RollingFundingModel.updateCells rowUpdate
  refine .bind (.bind (integer_raises _ _ _) fun _ => .ok _) fun _ =>
    .bind (.bind (integer_raises _ _ _) fun _ => .ok _) fun hours =>
      .bind ?_ fun _ => update_raises _ _ _ _
  cases row.fundingRate with
  | finite q => exact .ok q
  | infinity negative => exact .error _
  | nan => exact .error _

/-! ## All rows -/

theorem feed_accepts {m : RollingFundingModel ℚ} (hfresh : m.history = [])
    {frame : List FundingRow} : (∃ m', feed m frame = .ok m') ↔ (∀ row ∈ frame, RowOk row) ∧
      frame.IsChain fun previous row => StepOk previous.fundingTime row := by
  have hnone : newestTime m = none := by
    unfold newestTime
    rw [hfresh]
    rfl
  have haccepts : (∃ m', run feedRow m frame = .ok m') ↔ _ :=
    run_accepts newestTime (·.fundingTime) feedRow_accepts fun _ _ _ => feedRow_newest
  rw [hnone] at haccepts
  refine haccepts.trans (and_congr_right fun _ => ⟨fun h => h.2, fun h => ⟨nofun, h⟩⟩)

/-- A fresh model admits the regular frames. -/
theorem admitted_iff_regular {m : RollingFundingModel ℚ} (hfresh : m.history = [])
    {frame : List FundingRow} (hepoch : ∀ row ∈ frame, 0 ≤ row.fundingTime) :
    (∃ m', feed m frame = .ok m') ↔ Regular frame := by
  rw [feed_accepts hfresh]
  constructor
  · rintro ⟨hrows, hsteps⟩
    obtain ⟨hincreasing, hspaced⟩ := isChain_and.mp hsteps
    exact ⟨fun row hrow => (hrows row hrow).2.1, fun row hrow => (hrows row hrow).2.2, hincreasing,
      hspaced⟩
  · intro hregular
    refine ⟨fun row hrow => ⟨hepoch row hrow, hregular.rates row hrow, hregular.hours row hrow⟩, ?_⟩
    exact isChain_and.mpr ⟨hregular.increasing, hregular.spaced⟩

/-- The validator and the model accept the same frames. -/
theorem validate_iff_admitted {frame : List FundingRow} {start stop : Int} (hepoch : 0 ≤ start)
    (hcovers : Covers frame start stop) (m : RollingFundingModel ℚ) (hfresh : m.history = []) :
    validate frame start stop = .ok () ↔
      ∀ e, feed m frame = .error e → e.kind ≠ .fundingHistoryError := by
  have hnonneg : ∀ row ∈ frame, 0 ≤ row.fundingTime := by
    intro row hrow
    have := (hcovers.inside row hrow).1
    unfold utcMs at this
    omega
  have hadmitted := admitted_iff_regular hfresh hnonneg
  rw [validate_ok, and_iff_right hcovers, ← hadmitted]
  constructor
  · rintro ⟨m', hm'⟩ e he
    rw [hm'] at he
    cases he
  · intro h
    cases hfeed : feed m frame with
    | ok m' => exact ⟨m', rfl⟩
    | error e =>
      obtain ⟨t, row, -, herror⟩ := run_error hfeed
      exact absurd (feedRow_raises t row e herror) (h e hfeed)

theorem validate_iff_admitted_lost : validate lostFrame 20635 20666 = .ok () ↔
    ∀ e, feed fortnightModel lostFrame = .error e → e.kind ≠ .fundingHistoryError :=
  validate_iff_admitted (by norm_num) lostFrame_covers fortnightModel rfl

end Models
end PerpCarry
