import Mathlib.Data.List.Dedup
import Mathlib.Data.List.Sort
import Mathlib.Tactic.Linarith
import PerpCarry.Core.Calendar
import PerpCarry.Core.Double
import PerpCarry.Lib.Drift
import PerpCarry.Lib.EventRun
import PerpCarry.Strategy.Decimal

/-!
# Ingestion.FetchFunding

A month of funding settlements and its structural check:
`python/perpcarry/ingestion/fetch_funding.py`.

A row's interval is that of the period which ended at its settlement. `check_month` looks for steps
that are longer than the later row's interval; a shorter step is no gap.

* `settlementGaps_nil`: what is known of the steps when there is no gap.
* `checkMonth_ok`: an accepted month passes each of the checks.
* `checkMonth_complete`: an accepted month is complete if and only if it is punctual.
-/

namespace PerpCarry
namespace Ingestion
namespace FetchFunding

open Lib
open Strategy (bind_ok pure_ok)

def TOLERANCE_MS : Int := 5000
def MS_PER_HOUR : Int := 3600000

/-- The double 0.05. -/
def RATE_SANITY_BOUND : Double := .finite (3602879701896397 / 2 ^ 56)

/-! ## Rows -/

/-- A row of the archive, its texts parsed. -/
structure RawFunding where
  calcTime : Int
  fundingIntervalHours : Int
  lastFundingRate : Double

/-- A row of `SCHEMA`; only the rate can be null. -/
structure FundingRow where
  fundingTime : Int
  symbol : String
  fundingRate : Double
  fundingIntervalHours : Int
  date : String
  deriving DecidableEq

/-- The interval of a row in milliseconds. -/
def FundingRow.step (self : FundingRow) : Int := self.fundingIntervalHours * MS_PER_HOUR

def RawFunding.stored (self : RawFunding) (symbol : String) : FundingRow where
  fundingTime := self.calcTime
  symbol
  fundingRate := self.lastFundingRate
  fundingIntervalHours := self.fundingIntervalHours
  date := isoDate (self.calcTime / 86400000)

/-- `frame` is what `normalise` may return: `sort_values` leaves open how two settlements of one
time are ordered. -/
structure Normalised (raw : List RawFunding) (symbol : String) (frame : List FundingRow) :
    Prop where
  rows : frame.Perm (raw.map (·.stored symbol))
  sorted : frame.Pairwise fun a b => a.fundingTime ≤ b.fundingTime

/-! ## The checks -/

/-- `FundingDataError`, or the `ZeroDivisionError` of an interval of zero hours. -/
inductive FundingError where
  | noSettlements (symbol : String) (month : Month)
  | stray (symbol : String) (month : Month) (dates : List String)
  | gaps (symbol : String) (month : Month) (count : Nat) (firstMissingMs : Int)
  | badRates (symbol : String) (month : Month) (count : Nat) (first : Double)
  | shortEnd (symbol : String) (month : Month) (lastMs endMs : Int)
  | count (symbol : String) (month : Month) (settlements : Nat) (expected : Int)
  | zeroDivision
  deriving DecidableEq

/-- `days * 24 // interval_hours`. -/
def expectedSettlements (month : Month) (intervalHours : Int) : Except FundingError Int := do
  refuse (intervalHours = 0) .zeroDivision
  return Int.fdiv (month.days * 24) intervalHours

/-- Missing settlements: the time before, the expected time and the number missing. -/
def settlementGaps (toleranceMs : Int) :
    List FundingRow → Except FundingError (List (Int × Int × Int))
  | previous :: row :: rest => do
    let expected := row.step
    let actual := row.fundingTime - previous.fundingTime
    if actual ≤ expected + toleranceMs then settlementGaps toleranceMs (row :: rest)
    else
      refuse (expected = 0) .zeroDivision
      let missing : Int := Double.roundHalfEven (actual / expected) - 1
      let gaps ← settlementGaps toleranceMs (row :: rest)
      return (previous.fundingTime, previous.fundingTime + expected, max missing 1) :: gaps
  | _ => .ok []

/-- Where the cadence changed: the time, the old interval and the new one. -/
def intervalChanges : List FundingRow → List (Int × Int × Int)
  | previous :: row :: rest =>
    let changes := intervalChanges (row :: rest)
    if previous.fundingIntervalHours ≠ row.fundingIntervalHours then
      (row.fundingTime, previous.fundingIntervalHours, row.fundingIntervalHours) :: changes
    else changes
  | _ => []

/-- `~rates.between(-bound, bound) | rates.isna()`. -/
def implausibleRates (frame : List FundingRow) : List FundingRow :=
  frame.filter fun row =>
    !(RATE_SANITY_BOUND.neg.le row.fundingRate && row.fundingRate.le RATE_SANITY_BOUND)

structure MonthReport where
  symbol : String
  month : Month
  settlements : Nat
  intervals : List Int
  partialStart : Bool
  intervalChanges : List (Int × Int × Int)
  deriving DecidableEq

/-- `tuple(sorted(set(int(i) for i in frame["funding_interval_hours"])))`. -/
def intervalsOf (frame : List FundingRow) : List Int :=
  (frame.map (·.fundingIntervalHours)).dedup.insertionSort (· ≤ ·)

/-- The first settlement is later than its interval after the start of the month. -/
def partialStart (first : FundingRow) (month : Month) : Bool :=
  month.bounds.1 + TOLERANCE_MS < first.fundingTime - first.step

/-- The settlement count, of a full month at one cadence. -/
def checkCount (symbol : String) (month : Month) (settlements : Nat) :
    Bool → List Int → Except FundingError Unit
  | false, [interval] => do
    let expected ← expectedSettlements month interval
    refuse ((settlements : Int) ≠ expected) (.count symbol month settlements expected)
  | _, _ => .ok ()

def checkMonth (frame : List FundingRow) (symbol : String) (month : Month) :
    Except FundingError MonthReport :=
  match frame with
  | [] => .error (.noSettlements symbol month)
  | first :: rest => do
    let stray := (frame.map (·.date)).filter fun date =>
      !month.text.toList.isPrefixOf date.toList
    refuse (stray ≠ []) (.stray symbol month (stray.dedup.insertionSort (· ≤ ·)))
    let gaps ← settlementGaps TOLERANCE_MS frame
    refuse (gaps ≠ []) (.gaps symbol month gaps.length ((gaps.map (·.2.1)).headD 0))
    let bad := implausibleRates frame
    refuse (bad ≠ [])
      (.badRates symbol month bad.length ((bad.map (·.fundingRate)).headD .nan))
    let last := rest.getLastD first
    refuse (last.fundingTime + last.step < month.bounds.2 - TOLERANCE_MS)
      (.shortEnd symbol month last.fundingTime month.bounds.2)
    checkCount symbol month frame.length (partialStart first month) (intervalsOf frame)
    return {
      symbol
      month
      settlements := frame.length
      intervals := intervalsOf frame
      partialStart := partialStart first month
      intervalChanges := intervalChanges frame }

/-! ## Completeness -/

/-- A month that is complete, as it is reported. -/
structure Complete (frame : List FundingRow) (report : MonthReport) : Prop where
  spaced : frame.IsChain fun previous row =>
    |row.fundingTime - previous.fundingTime - row.step| ≤ TOLERANCE_MS
  reaches : ∀ last ∈ frame.getLast?,
    report.month.bounds.2 - TOLERANCE_MS ≤ last.fundingTime + last.step
  starts : report.partialStart = false → ∀ first ∈ frame.head?,
    |first.fundingTime - report.month.bounds.1| ≤ TOLERANCE_MS
  nominal : report.partialStart = false →
    ∀ hours, (∀ row ∈ frame, row.fundingIntervalHours = hours) →
      frame.length * hours = report.month.days * 24 ∧
        ∀ (k : Nat) (row : FundingRow), frame[k]? = some row →
          |row.fundingTime - (report.month.bounds.1 + k * (hours * MS_PER_HOUR))| ≤
            (k + 1) * TOLERANCE_MS

/-- No settlement comes early, and the first one comes at the start of the month or later than its
interval after it. -/
structure Punctual (frame : List FundingRow) (month : Month) : Prop where
  steps : frame.IsChain fun previous row =>
    row.step - TOLERANCE_MS ≤ row.fundingTime - previous.fundingTime
  first : ∀ first ∈ frame.head?,
    month.bounds.1 + TOLERANCE_MS < first.fundingTime - first.step ∨
      (month.bounds.1 - TOLERANCE_MS ≤ first.fundingTime ∧
        first.fundingTime ≤ month.bounds.1 + TOLERANCE_MS)

variable {frame : List FundingRow} {symbol : String} {month : Month} {report : MonthReport}

theorem settlementGaps_nil {toleranceMs : Int} :
    settlementGaps toleranceMs frame = .ok [] ↔ frame.IsChain fun previous row =>
      row.fundingTime - previous.fundingTime ≤ row.step + toleranceMs := by
  fun_induction settlementGaps toleranceMs frame with
  | case1 previous row rest expected actual hclose ih =>
    rw [ih, List.isChain_cons_cons, and_iff_right hclose]
  | case2 previous row rest expected actual hfar ih =>
    simp only [bind_ok, pure_ok, List.isChain_cons_cons, reduceCtorEq, and_false, exists_false,
      false_iff, not_and]
    exact fun hclose => absurd hclose hfar
  | case3 frame hshort =>
    cases frame with
    | nil => simp
    | cons row rest =>
      cases rest with
      | nil => simp
      | cons next rest => exact absurd rfl (hshort row next rest)

/-- What an accepted month has passed. -/
theorem checkMonth_ok (h : checkMonth frame symbol month = .ok report) :
    ∃ first rest, frame = first :: rest ∧ settlementGaps TOLERANCE_MS frame = .ok [] ∧
      (∀ last ∈ frame.getLast?, month.bounds.2 - TOLERANCE_MS ≤ last.fundingTime + last.step) ∧
      checkCount symbol month frame.length (partialStart first month) (intervalsOf frame) = .ok () ∧
      report.month = month ∧ report.partialStart = partialStart first month := by
  unfold checkMonth at h
  split at h
  · cases h
  · rename_i first rest
    simp only [bind_ok, pure_ok, refuse_ok, not_not, not_lt] at h
    obtain ⟨_, -, gaps, hgaps, _, rfl, _, -, _, hend, _, hcount, rfl⟩ := h
    exact ⟨first, rest, rfl, hgaps, forall_last_cons.mpr hend, hcount, rfl, rfl⟩

/-! ## One cadence -/

theorem intervalsOf_single {hours : Int} (hne : frame ≠ [])
    (h : ∀ row ∈ frame, row.fundingIntervalHours = hours) : intervalsOf frame = [hours] := by
  have hmap : frame.map (·.fundingIntervalHours) = List.replicate frame.length hours := by
    rw [List.eq_replicate_iff, List.length_map]
    refine ⟨rfl, fun interval hmem => ?_⟩
    obtain ⟨row, hrow, rfl⟩ := List.mem_map.mp hmem
    exact h row hrow
  have hlength : frame.length ≠ 0 := fun hzero => hne (List.length_eq_zero_iff.mp hzero)
  unfold intervalsOf
  rw [hmap, List.replicate_dedup hlength]
  rfl

/-- A counted month has at most as many settlements as fit, and a positive interval. -/
theorem checkCount_ok {settlements : Nat} {hours : Int} (hsettlements : 0 < settlements)
    (h : checkCount symbol month settlements false [hours] = .ok ()) :
    0 < hours ∧ settlements * hours ≤ month.days * 24 ∧
      month.days * 24 < (settlements + 1) * hours := by
  simp only [checkCount, expectedSettlements, bind_ok, pure_ok, refuse_ok, not_not] at h
  obtain ⟨_, ⟨_, hzero, rfl⟩, hcount⟩ := h
  have hdays := month.days_bounds
  have hdivision := Int.mul_fdiv_add_fmod (month.days * 24) hours
  rw [← hcount] at hdivision
  have hpos : 0 < hours := by
    by_contra hneg
    have := Int.fdiv_nonpos_of_nonneg_of_nonpos (a := month.days * 24) (by omega)
      (not_lt.mp hneg)
    omega
  have hrest := Int.fmod_nonneg_of_pos (month.days * 24) hpos
  have hrest' := Int.fmod_lt_of_pos (month.days * 24) hpos
  refine ⟨hpos, ?_, ?_⟩
  · linarith
  · linarith

theorem spaced_paced {hours : Int} (h : ∀ row ∈ frame, row.fundingIntervalHours = hours)
    (hspaced : frame.IsChain fun previous row =>
      |row.fundingTime - previous.fundingTime - row.step| ≤ TOLERANCE_MS) :
    Paced (hours * MS_PER_HOUR) TOLERANCE_MS (frame.map (·.fundingTime)) := by
  unfold Paced
  rw [List.isChain_map]
  refine hspaced.imp_of_mem_imp fun previous row _ hrow hstep => ?_
  rw [FundingRow.step, h row hrow] at hstep
  exact hstep

theorem close_to_nominal {hours origin : Int}
    (h : ∀ row ∈ frame, row.fundingIntervalHours = hours)
    (hspaced : frame.IsChain fun previous row =>
      |row.fundingTime - previous.fundingTime - row.step| ≤ TOLERANCE_MS)
    (hstarts : ∀ first ∈ frame.head?, |first.fundingTime - origin| ≤ TOLERANCE_MS)
    {k : Nat} {row : FundingRow} (hrow : frame[k]? = some row) :
    |row.fundingTime - (origin + k * (hours * MS_PER_HOUR))| ≤ (k + 1) * TOLERANCE_MS := by
  have hfirst : ∀ first ∈ (frame.map (·.fundingTime)).head?, |first - origin| ≤ TOLERANCE_MS := by
    rw [List.head?_map, Option.forall_mem_map]
    exact hstarts
  have hget : (frame.map (·.fundingTime))[k]? = some row.fundingTime := by
    rw [List.getElem?_map, hrow]
    rfl
  have hpoint := (spaced_paced h hspaced).after hfirst hget
  rw [nsmul_eq_mul, nsmul_eq_mul] at hpoint
  rw [add_mul, one_mul, add_comm _ TOLERANCE_MS]
  exact hpoint

/-- Over one month the tolerances do not add up to an hour that a longer interval leaves over. -/
theorem tiled {days settlements hours : Int} (hdays : days ≤ 31) (hpos : 0 < hours)
    (hsettlements : 0 < settlements) (hle : settlements * hours ≤ days * 24)
    (hlt : days * 24 < (settlements + 1) * hours)
    (hdrift : (days * 24 - settlements * hours) * MS_PER_HOUR ≤ (settlements + 1) * TOLERANCE_MS) :
    settlements * hours = days * 24 := by
  unfold MS_PER_HOUR TOLERANCE_MS at hdrift
  by_contra hne
  have hrest : 1 ≤ days * 24 - settlements * hours := by omega
  have hlong : 2 ≤ hours := by
    by_contra hshort
    obtain rfl : hours = 1 := by omega
    omega
  have hfew : settlements * 2 ≤ settlements * hours := by
    exact Int.mul_le_mul_of_nonneg_left hlong hsettlements.le
  omega

/-- A full month at one cadence. -/
theorem nominal_of_spaced {hours : Int} (hne : frame ≠ [])
    (hcount : checkCount symbol month frame.length false (intervalsOf frame) = .ok ())
    (hspaced : frame.IsChain fun previous row =>
      |row.fundingTime - previous.fundingTime - row.step| ≤ TOLERANCE_MS)
    (hreaches : ∀ last ∈ frame.getLast?,
      month.bounds.2 - TOLERANCE_MS ≤ last.fundingTime + last.step)
    (hstarts : ∀ first ∈ frame.head?, |first.fundingTime - month.bounds.1| ≤ TOLERANCE_MS)
    (hhours : ∀ row ∈ frame, row.fundingIntervalHours = hours) :
    frame.length * hours = month.days * 24 ∧
      ∀ (k : Nat) (row : FundingRow), frame[k]? = some row →
        |row.fundingTime - (month.bounds.1 + k * (hours * MS_PER_HOUR))| ≤
          (k + 1) * TOLERANCE_MS := by
  have hposition : ∀ (k : Nat) (row : FundingRow), frame[k]? = some row →
      |row.fundingTime - (month.bounds.1 + k * (hours * MS_PER_HOUR))| ≤
        (k + 1) * TOLERANCE_MS :=
    fun k row hrow => close_to_nominal hhours hspaced hstarts hrow
  refine ⟨?_, hposition⟩
  have hlength := List.length_pos_iff.mpr hne
  rw [intervalsOf_single hne hhours] at hcount
  obtain ⟨hpos, hle, hlt⟩ := checkCount_ok hlength hcount
  -- the last settlement is close to its nominal time, and one interval later the month is over
  have hlast := hposition (frame.length - 1) (frame.getLast hne) (by
    rw [← List.getLast?_eq_getElem?, List.getLast?_eq_getLast_of_ne_nil hne])
  have hend := hreaches (frame.getLast hne) (List.getLast?_eq_getLast_of_ne_nil hne)
  rw [FundingRow.step, hhours _ (List.getLast_mem hne), Month.bounds_snd] at hend
  refine tiled month.days_bounds.2 hpos (Int.natCast_pos.mpr hlength) hle hlt ?_
  have hupper := (abs_le.mp hlast).2
  rw [Nat.cast_pred hlength] at hupper
  unfold MS_PER_HOUR TOLERANCE_MS at *
  linarith

/-- An accepted month is complete if and only if it is punctual. -/
theorem checkMonth_complete (h : checkMonth frame symbol month = .ok report) :
    Complete frame report ↔ Punctual frame month := by
  obtain ⟨first, rest, rfl, hgaps, hend, hcount, rfl, hstart⟩ := checkMonth_ok h
  have hupper := settlementGaps_nil.mp hgaps
  constructor
  · intro hcomplete
    refine ⟨hcomplete.spaced.imp fun previous row hstep => ?_, ?_⟩
    · have := (abs_le.mp hstep).1
      omega
    · rintro _ ⟨⟩
      by_cases hfull : partialStart first report.month = true
      · exact .inl (of_decide_eq_true hfull)
      · have := abs_le.mp (hcomplete.starts (hstart.trans (Bool.not_eq_true _ ▸ hfull)) first rfl)
        exact .inr (by omega)
  · rintro ⟨hsteps, hfirst⟩
    have hspaced : (first :: rest).IsChain fun previous row =>
        |row.fundingTime - previous.fundingTime - row.step| ≤ TOLERANCE_MS := by
      refine (isChain_and.mpr ⟨hsteps, hupper⟩).imp fun previous row hstep => abs_le.mpr ?_
      omega
    have hstarts : report.partialStart = false → ∀ f ∈ (first :: rest).head?,
        |f.fundingTime - report.month.bounds.1| ≤ TOLERANCE_MS := by
      rintro hfull _ ⟨⟩
      rw [hstart] at hfull
      rcases hfirst first rfl with hlate | ⟨hlow, hhigh⟩
      · have hreported : partialStart first report.month = true := decide_eq_true hlate
        exact absurd (hreported.symm.trans hfull) (Bool.noConfusion)
      · exact abs_le.mpr (by omega)
    refine ⟨hspaced, hend, hstarts, fun hfull hours hhours => ?_⟩
    rw [← hstart, hfull] at hcount
    exact nominal_of_spaced (List.cons_ne_nil _ _) hcount hspaced hend (hstarts hfull) hhours

/-! ## A listing month -/

def june2026 : Month := ⟨2026, 6, by omega⟩

/-- A contract listed on the afternoon of the 29th, settled every eight hours. The settlement at
noon of the 30th comes four hours early, and another one follows it after four hours. -/
def listingRaw : List RawFunding :=
  [1782748800000, 1782777600000, 1782806400000, 1782820800000, 1782835200000].map fun time =>
    ⟨time, 8, .finite 0⟩

def listingFrame : List FundingRow := listingRaw.map (·.stored "XYZUSDT")

def listingReport : MonthReport := ⟨"XYZUSDT", june2026, 5, [8], true, []⟩

theorem checkMonth_early : Normalised listingRaw "XYZUSDT" listingFrame ∧
    checkMonth listingFrame "XYZUSDT" june2026 = .ok listingReport ∧
      ¬ Complete listingFrame listingReport := by
  refine ⟨⟨List.Perm.refl _, by decide⟩, by decide +kernel, fun hcomplete => ?_⟩
  have hspaced := hcomplete.spaced
  revert hspaced
  decide

theorem checkMonth_complete_listing :
    Complete listingFrame listingReport ↔ Punctual listingFrame june2026 :=
  checkMonth_complete (show checkMonth listingFrame "XYZUSDT" june2026 = .ok listingReport by
    decide +kernel)

end FetchFunding
end Ingestion
end PerpCarry
