import Mathlib.Data.List.Range
import PerpCarry.Ingestion.FetchFunding

/-!
# Ingestion.FundingSeries

The validation of a funding window: `validate` of `python/perpcarry/ingestion/funding_series.py`.

Each step and the two ends are tested within one tolerance. The tolerances of the steps add up, so a
long window may hold fewer settlements than its nominal ones, or more.

* `validate_ok`: what an accepted frame satisfies.
* `validate_drift`: how far its settlements and their number can be from the nominal ones.
* `validate_lost`: a month that lost a settlement.
-/

namespace PerpCarry
namespace Ingestion
namespace FundingSeries

open FetchFunding Lib
open Strategy (bind_ok pure_ok)

structure FundingSeriesError where
  message : String
  deriving DecidableEq

/-- `utc_ms`, of a day number. -/
def utcMs (day : Int) : Int := day * 86400000

/-- `np.abs`. -/
def absRate : Double → Double
  | .finite q => .finite |q|
  | .infinity _ => .infinity false
  | .nan => .nan

/-- The dates of the days of `[start, stop)`. -/
def expectedDays (start stop : Int) : List String :=
  (List.range (stop - start).toNat).map fun (i : Nat) => isoDate (start + i)

/-- `validate`; the window is given by day numbers. -/
def validate (frame : List FundingRow) (start stop : Int) : Except FundingSeriesError Unit :=
  match frame with
  | [] => .error ⟨"empty or incomplete funding window/schema"⟩
  | opening :: rest => do
    refuse (stop ≤ start) (⟨"empty or incomplete funding window/schema"⟩ : FundingSeriesError)
    refuse ((∃ row ∈ frame, row.fundingRate = .nan) ∨ (frame.map (·.symbol)).dedup.length ≠ 1)
      ⟨"null values or mixed symbols"⟩
    refuse (∃ row ∈ frame, row.fundingRate.isFinite = false ∨
      RATE_SANITY_BOUND.lt (absRate row.fundingRate) = true)
      ⟨"nonfinite or implausible funding rate"⟩
    refuse (∃ row ∈ frame, row.fundingIntervalHours ≤ 0 ∨ 24 < row.fundingIntervalHours)
      ⟨"invalid funding cadence"⟩
    refuse (frame.map (·.date) ≠ frame.map fun row => isoDate (row.fundingTime / 86400000))
      ⟨"funding timestamp/date mismatch"⟩
    refuse (∃ row ∈ frame, row.fundingTime < utcMs start ∨ utcMs stop ≤ row.fundingTime)
      ⟨"settlement outside requested UTC window"⟩
    let pairs := frame.zip frame.tail
    refuse (∃ pair ∈ pairs, pair.2.fundingTime - pair.1.fundingTime ≤ 0)
      ⟨"duplicate or unordered funding settlements"⟩
    refuse (∃ pair ∈ pairs,
      TOLERANCE_MS < |pair.2.fundingTime - pair.1.fundingTime - pair.2.step|)
      ⟨"missing or irregular funding settlements"⟩
    let last := rest.getLastD opening
    refuse (TOLERANCE_MS < opening.fundingTime - utcMs start ∨
      TOLERANCE_MS < |utcMs stop - last.fundingTime - last.step|)
      ⟨"funding window lacks endpoint coverage"⟩
    let dates := frame.map (·.date)
    let expected := expectedDays start stop
    refuse ((∃ date ∈ dates, date ∉ expected) ∨ ∃ date ∈ expected, date ∉ dates)
      ⟨"missing UTC funding days"⟩

/-- A rate that both checks of it let through. -/
def Plausible (rate : Double) : Prop := ∃ q : ℚ, rate = .finite q ∧ |q| ≤ 3602879701896397 / 2 ^ 56

/-- What does not depend on the rates and the cadence of a frame. -/
structure Covers (frame : List FundingRow) (start stop : Int) : Prop where
  window : start < stop
  nonempty : frame ≠ []
  symbol : (frame.map (·.symbol)).dedup.length = 1
  dates : frame.map (·.date) = frame.map fun row => isoDate (row.fundingTime / 86400000)
  inside : ∀ row ∈ frame, utcMs start ≤ row.fundingTime ∧ row.fundingTime < utcMs stop
  opening : ∀ first ∈ frame.head?, first.fundingTime - utcMs start ≤ TOLERANCE_MS
  ending : ∀ last ∈ frame.getLast?,
    |utcMs stop - last.fundingTime - last.step| ≤ TOLERANCE_MS
  days : ∀ date, date ∈ frame.map (·.date) ↔ date ∈ expectedDays start stop

/-- What depends on them. -/
structure Regular (frame : List FundingRow) : Prop where
  rates : ∀ row ∈ frame, Plausible row.fundingRate
  hours : ∀ row ∈ frame, 1 ≤ row.fundingIntervalHours ∧ row.fundingIntervalHours ≤ 24
  increasing : frame.IsChain fun previous row => previous.fundingTime < row.fundingTime
  spaced : frame.IsChain fun previous row =>
    |row.fundingTime - previous.fundingTime - row.step| ≤ TOLERANCE_MS

variable {frame : List FundingRow} {start stop : Int}

theorem plausible_iff {rate : Double} : Plausible rate ↔
    ¬ (rate.isFinite = false ∨ RATE_SANITY_BOUND.lt (absRate rate) = true) := by
  cases rate with
  | finite q => simp [Plausible, Double.isFinite, RATE_SANITY_BOUND, absRate]
  | infinity negative => simp [Plausible, Double.isFinite]
  | nan => simp [Plausible, Double.isFinite]

theorem validate_ok :
    validate frame start stop = .ok () ↔ Covers frame start stop ∧ Regular frame := by
  cases frame with
  | nil =>
    simp only [validate, reduceCtorEq, false_iff, not_and]
    exact fun hcovers => absurd rfl hcovers.nonempty
  | cons opening rest =>
    simp only [validate, bind_ok, refuse_ok, not_or, not_not, not_exists, not_and, not_lt, not_le]
    constructor
    · rintro ⟨_, hwindow, _, ⟨-, hsymbol⟩, _, hrates, _, hhours, _, hdates, _, hinside, _,
        hincreasing, _, hspaced, _, ⟨hopening, hending⟩, hdays, hdays'⟩
      refine ⟨⟨hwindow, List.cons_ne_nil _ _, hsymbol, hdates, hinside, ?_,
          forall_last_cons.mpr hending, fun date => ⟨hdays date, hdays' date⟩⟩,
        ⟨fun row hrow => plausible_iff.mpr ?_, fun row hrow => ?_, ?_, ?_⟩⟩
      · rintro _ ⟨⟩
        exact hopening
      · exact not_or.mpr ⟨(hrates row hrow).1, (hrates row hrow).2⟩
      · have := hhours row hrow
        omega
      · exact isChain_iff_zip.mpr fun pair hpair => by have := hincreasing pair hpair; omega
      · exact isChain_iff_zip.mpr hspaced
    · rintro ⟨hcovers, hregular⟩
      have hincreasing := isChain_iff_zip.mp hregular.increasing
      have hspaced := isChain_iff_zip.mp hregular.spaced
      have hending := forall_last_cons.mp hcovers.ending
      refine ⟨(), hcovers.window, (), ⟨fun row hrow hnan => ?_, hcovers.symbol⟩, (),
        fun row hrow => ?_, (), fun row hrow => ?_, (), hcovers.dates, (), hcovers.inside, (),
        fun pair hpair => ?_, (), hspaced, (), ⟨hcovers.opening opening rfl, hending⟩,
        fun date hdate => (hcovers.days date).mp hdate,
        fun date hdate => (hcovers.days date).mpr hdate⟩
      · obtain ⟨q, hq, -⟩ := hregular.rates row hrow
        rw [hnan] at hq
        cases hq
      · exact not_or.mp (plausible_iff.mp (hregular.rates row hrow))
      · have := hregular.hours row hrow
        omega
      · have := hincreasing pair hpair
        omega

/-! ## One cadence -/

/-- The settlements of an accepted frame, from both ends, and their number: the tolerance is one of
a single step. -/
structure Drifts (frame : List FundingRow) (start stop hours : Int) : Prop where
  forward : ∀ (k : Nat) (row : FundingRow), frame[k]? = some row →
    |row.fundingTime - (utcMs start + k * (hours * MS_PER_HOUR))| ≤ (k + 1) * TOLERANCE_MS
  backward : ∀ (k : Nat) (row : FundingRow), frame.reverse[k]? = some row →
    |row.fundingTime - (utcMs stop - (k + 1) * (hours * MS_PER_HOUR))| ≤ (k + 1) * TOLERANCE_MS
  count : |utcMs stop - utcMs start - frame.length * (hours * MS_PER_HOUR)| ≤
    (frame.length + 1) * TOLERANCE_MS
  exact_count : (frame.length + 1) * TOLERANCE_MS < Int.gcd 24 hours * MS_PER_HOUR →
    frame.length * hours = (stop - start) * 24

/-- A drift below the common measure of the day and the cadence is none. -/
theorem count_exact {days settlements hours drift : Int}
    (hdrift : |days * 86400000 - settlements * (hours * MS_PER_HOUR)| ≤ drift)
    (hsmall : drift < Int.gcd 24 hours * MS_PER_HOUR) : settlements * hours = days * 24 := by
  have hdvd : (Int.gcd 24 hours : Int) ∣ days * 24 - settlements * hours :=
    dvd_sub (dvd_mul_of_dvd_right (Int.gcd_dvd_left ..) _)
      (dvd_mul_of_dvd_right (Int.gcd_dvd_right ..) _)
  have hhours : days * 86400000 - settlements * (hours * MS_PER_HOUR) =
      (days * 24 - settlements * hours) * MS_PER_HOUR := by
    unfold MS_PER_HOUR
    ring
  have hpos : (0 : Int) < MS_PER_HOUR := by decide
  rw [hhours, abs_mul, abs_of_pos hpos] at hdrift
  have hlt := lt_of_mul_lt_mul_right (hdrift.trans_lt hsmall) hpos.le
  have := Int.eq_zero_of_abs_lt_dvd hdvd hlt
  omega

theorem validate_drift {hours : Int} (h : validate frame start stop = .ok ())
    (hhours : ∀ row ∈ frame, row.fundingIntervalHours = hours) : Drifts frame start stop hours := by
  obtain ⟨hcovers, hregular⟩ := validate_ok.mp h
  have hpaced := spaced_paced hhours hregular.spaced
  have hopening : ∀ first ∈ frame.head?, |first.fundingTime - utcMs start| ≤ TOLERANCE_MS := by
    intro first hmem
    have hlow := (hcovers.inside first (List.mem_of_mem_head? hmem)).1
    have hhigh := hcovers.opening first hmem
    rw [abs_of_nonneg (by omega)]
    exact hhigh
  have hfirst : ∀ first ∈ (frame.map (·.fundingTime)).head?,
      |first - utcMs start| ≤ TOLERANCE_MS := by
    rw [List.head?_map, Option.forall_mem_map]
    exact hopening
  have hlast : ∀ last ∈ (frame.map (·.fundingTime)).getLast?,
      |utcMs stop - last - hours * MS_PER_HOUR| ≤ TOLERANCE_MS := by
    rw [List.getLast?_map, Option.forall_mem_map]
    intro last hmem
    have hend := hcovers.ending last hmem
    rw [FundingRow.step, hhours last (List.mem_of_mem_getLast? hmem)] at hend
    exact hend
  obtain ⟨n, hn⟩ : ∃ n, frame.length = n + 1 :=
    ⟨frame.length - 1, by have := List.length_pos_iff.mpr hcovers.nonempty; omega⟩
  have htotal := hpaced.total hfirst hlast (n := n) (by rw [List.length_map, hn])
  have hcount : |utcMs stop - utcMs start - frame.length * (hours * MS_PER_HOUR)| ≤
      (frame.length + 1) * TOLERANCE_MS := by
    rw [List.length_map, nsmul_eq_mul, nsmul_eq_mul] at htotal
    refine htotal.trans (le_of_eq ?_)
    rw [hn]
    push_cast
    ring
  refine ⟨fun k row hrow => close_to_nominal hhours hregular.spaced hopening hrow,
    fun k row hrow => ?_, hcount, fun hsmall => ?_⟩
  · have hget : (frame.map (·.fundingTime)).reverse[k]? = some row.fundingTime := by
      rw [← List.map_reverse, List.getElem?_map, hrow]
      rfl
    have hpoint := hpaced.before hlast hget
    rw [nsmul_eq_mul, nsmul_eq_mul, Nat.cast_succ] at hpoint
    rw [add_mul _ _ TOLERANCE_MS, one_mul, add_comm _ TOLERANCE_MS]
    exact hpoint
  · refine count_exact ?_ hsmall
    have hwindow : utcMs stop - utcMs start = (stop - start) * 86400000 := by
      unfold utcMs
      ring
    rw [← hwindow]
    exact hcount

/-! ## A lost settlement -/

/-- A settlement after some steps from the start of a day, said to be hourly. -/
def steadyRow (start stepMs : Int) (k : Nat) : FundingRow where
  fundingTime := utcMs start + k * stepMs
  symbol := "BTCUSDT"
  fundingRate := .finite 0
  fundingIntervalHours := 1
  date := isoDate ((utcMs start + k * stepMs) / 86400000)

def steadyFrame (start stepMs : Int) (count : Nat) : List FundingRow :=
  (List.range count).map (steadyRow start stepMs)

theorem mem_steadyFrame {stepMs : Int} {count : Nat} {row : FundingRow} :
    row ∈ steadyFrame start stepMs count ↔ ∃ k, k < count ∧ steadyRow start stepMs k = row := by
  simp only [steadyFrame, List.mem_map, List.mem_range]

/-- Steps that are close to an hour. -/
theorem steadyFrame_regular {stepMs : Int} {count : Nat}
    (hstep : |stepMs - MS_PER_HOUR| ≤ TOLERANCE_MS) :
    Regular (steadyFrame start stepMs count) where
  rates := by
    intro row hrow
    obtain ⟨k, -, rfl⟩ := mem_steadyFrame.mp hrow
    exact ⟨0, rfl, by norm_num⟩
  hours := by
    intro row hrow
    obtain ⟨k, -, rfl⟩ := mem_steadyFrame.mp hrow
    exact ⟨le_refl (1 : Int), by norm_num [steadyRow]⟩
  increasing := by
    refine (List.isChain_map _).mpr ((List.isChain_range _ _).mpr fun k _ => ?_)
    have hlow := (abs_le.mp hstep).1
    unfold MS_PER_HOUR TOLERANCE_MS at hlow
    simp only [steadyRow, Nat.cast_succ, add_mul]
    omega
  spaced := by
    refine (List.isChain_map _).mpr ((List.isChain_range _ _).mpr fun k _ => ?_)
    have hdifference :
        utcMs start + (k.succ : Int) * stepMs - (utcMs start + k * stepMs) = stepMs := by
      rw [Nat.cast_succ]
      ring
    simp only [steadyRow, FundingRow.step, hdifference, one_mul]
    exact hstep

/-- July 2026 in steps of an hour and 4852 ms: 743 hourly settlements for 744 hours. -/
def lostFrame : List FundingRow := steadyFrame 20635 3604852 743

theorem lostFrame_covers : Covers lostFrame 20635 20666 where
  window := by decide
  nonempty := by
    intro hnil
    have hmem : steadyRow 20635 3604852 0 ∈ lostFrame := mem_steadyFrame.mpr ⟨0, by decide, rfl⟩
    rw [hnil] at hmem
    cases hmem
  symbol := by
    have hmap : lostFrame.map (·.symbol) = List.replicate 743 "BTCUSDT" := by
      refine List.eq_replicate_iff.mpr ⟨by rw [lostFrame, steadyFrame, List.length_map,
        List.length_map, List.length_range], fun symbol hsymbol => ?_⟩
      obtain ⟨row, hrow, rfl⟩ := List.mem_map.mp hsymbol
      obtain ⟨k, -, rfl⟩ := mem_steadyFrame.mp hrow
      rfl
    rw [hmap, List.replicate_dedup (by decide)]
    rfl
  dates := by
    refine List.map_congr_left fun row hrow => ?_
    obtain ⟨k, -, rfl⟩ := mem_steadyFrame.mp hrow
    rfl
  inside := by
    intro row hrow
    obtain ⟨k, hk, rfl⟩ := mem_steadyFrame.mp hrow
    unfold steadyRow utcMs
    dsimp only
    omega
  opening := by
    intro first hfirst
    obtain rfl : steadyRow 20635 3604852 0 = first := by
      rw [lostFrame, steadyFrame, List.head?_map, List.head?_range] at hfirst
      exact Option.some.inj hfirst
    decide
  ending := by
    intro last hlast
    obtain rfl : steadyRow 20635 3604852 742 = last := by
      rw [lostFrame, steadyFrame, List.getLast?_map, List.getLast?_range] at hlast
      exact Option.some.inj hlast
    decide
  days := by
    intro date
    simp only [lostFrame, expectedDays, List.mem_map, List.mem_range]
    constructor
    · rintro ⟨row, hrow, rfl⟩
      obtain ⟨k, hk, rfl⟩ := mem_steadyFrame.mp hrow
      refine ⟨k * 3604852 / 86400000, by omega, ?_⟩
      unfold steadyRow utcMs
      dsimp only
      congr 1
      omega
    · rintro ⟨day, hday, rfl⟩
      refine ⟨_, mem_steadyFrame.mpr ⟨24 * day, by omega, rfl⟩, ?_⟩
      unfold steadyRow utcMs
      dsimp only
      congr 1
      omega

theorem lostFrame_valid : validate lostFrame 20635 20666 = .ok () :=
  validate_ok.mpr ⟨lostFrame_covers, steadyFrame_regular (by decide)⟩

theorem lostFrame_hourly : ∀ row ∈ lostFrame, row.fundingIntervalHours = 1 := by
  intro row hrow
  obtain ⟨k, -, rfl⟩ := mem_steadyFrame.mp hrow
  rfl

/-- One settlement is missing, and the others are displaced by up to an hour. -/
theorem validate_lost : validate lostFrame 20635 20666 = .ok () ∧
    (∀ row ∈ lostFrame, row.fundingIntervalHours = 1) ∧
      lostFrame.length * (1 : Int) ≠ (20666 - 20635) * 24 ∧
        ∃ (k : Nat) (row : FundingRow), lostFrame[k]? = some row ∧
          TOLERANCE_MS < |row.fundingTime - (utcMs 20635 + k * (1 * MS_PER_HOUR))| := by
  have hlength : lostFrame.length = 743 := by
    rw [lostFrame, steadyFrame, List.length_map, List.length_range]
  refine ⟨lostFrame_valid, lostFrame_hourly, ?_, 2, steadyRow 20635 3604852 2, ?_, by decide⟩
  · rw [hlength]
    decide
  · rw [lostFrame, steadyFrame, List.getElem?_map, List.getElem?_range (by decide)]
    rfl

theorem validate_drift_lost : Drifts lostFrame 20635 20666 1 :=
  validate_drift lostFrame_valid lostFrame_hourly

end FundingSeries
end Ingestion
end PerpCarry
