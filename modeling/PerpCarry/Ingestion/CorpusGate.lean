import Mathlib.Data.List.Sort
import PerpCarry.Pipeline.Batch

/-!
# Ingestion.CorpusGate

Three checks of the corpus gate on a stored book partition:
`python/perpcarry/ingestion/validate_data.py`.

The gate is what stands between a stored day and its replay. It refuses a missing value and a wrong
sign, and takes an infinite price or quantity for a number.

* `finitePositive_passed`: which values the gate lets through.
* `gated_replays_iff`: a gated partition replays if and only if nothing in it is infinite.
-/

namespace PerpCarry
namespace Ingestion

open Pipeline

/-- A symbol-day of the `book` dataset, in file order. -/
structure BookPartition where
  symbol : String
  date : String
  frame : List BookRow
  sided : ∀ row ∈ frame, row.Sided

structure CheckResult where
  check : String
  dataset : String
  symbol : String
  date : String
  passed : Bool
  detail : String
  deriving DecidableEq

/-- The result of one check of this partition. -/
def BookPartition.result (self : BookPartition) (check : String) (passed : Bool)
    (detail : String) : CheckResult :=
  ⟨check, "book", self.symbol, self.date, passed, if passed then "ok" else detail⟩

/-! ## `check_timestamp_monotonic` -/

/-- `series.is_monotonic_increasing`. -/
def isMonotonicIncreasing : List Int → Bool
  | a :: b :: rest => decide (a ≤ b) && isMonotonicIncreasing (b :: rest)
  | _ => true

/-- `(series.diff() < 0).sum()`. -/
def backwardSteps : List Int → Nat
  | a :: b :: rest => (if b < a then 1 else 0) + backwardSteps (b :: rest)
  | _ => 0

/-- No result for an empty frame. -/
def checkTimestampMonotonic (partition : BookPartition) : Option CheckResult :=
  if partition.frame.isEmpty then none
  else
    let series := partition.frame.map (·.timestamp)
    let offenders := backwardSteps series
    some (partition.result "timestamp_monotonic" (isMonotonicIncreasing series)
      (toString offenders ++ " backward step(s) in timestamp"))

/-! ## `check_finite_positive` -/

def isna (value : Double) : Bool := value = .nan

def badPrices (frame : List BookRow) : Nat :=
  (frame.countP fun row => row.price.le .zero) + frame.countP fun row => isna row.price

/-- A zero quantity removes its level, so the book datasets may hold it. -/
def badQuantities (frame : List BookRow) : Nat :=
  frame.countP fun row => isna row.quantity || row.quantity.lt .zero

def checkFinitePositive (partition : BookPartition) : Option CheckResult :=
  let frame := partition.frame
  if frame.isEmpty then none
  else
    let prices := !(frame.all fun row => !isna row.price) || frame.any fun row => row.price.le .zero
    let quantities := frame.any fun row => isna row.quantity || row.quantity.lt .zero
    let problems :=
      (if prices then [toString (badPrices frame) ++ " bad price(s)"] else []) ++
        if quantities then [toString (badQuantities frame) ++ " bad quantity(ies)"] else []
    some (partition.result "finite_positive" problems.isEmpty (", ".intercalate problems))

/-! ## `check_book_opens_with_snapshot` -/

/-- The first row after a stable sort by time. -/
def checkBookOpensWithSnapshot (partition : BookPartition) : Option CheckResult :=
  let frame := partition.frame.insertionSort fun a b => a.timestamp ≤ b.timestamp
  match frame with
  | [] => none
  | first :: _ => some (partition.result "book_opens_with_snapshot" first.isSnapshot
      "first row is not a snapshot")

/-! ## The gate -/

/-- Every result that was reported has passed. -/
def Passed (result : Option CheckResult) : Prop := ∀ found ∈ result, found.passed = true

instance (result : Option CheckResult) : Decidable (Passed result) := by
  unfold Passed; infer_instance

structure Gated (partition : BookPartition) : Prop where
  monotonic : Passed (checkTimestampMonotonic partition)
  finite : Passed (checkFinitePositive partition)
  opens : Passed (checkBookOpensWithSnapshot partition)

/-- The partition is converted and replayed without an error. -/
def Replays (partition : BookPartition) : Prop :=
  ∃ updates r, updatesFromBatch partition.frame = .ok updates ∧
    ({} : BookReplayer).applyRows updates = .ok () r

theorem isMonotonicIncreasing_iff {series : List Int} :
    isMonotonicIncreasing series = true ↔ series.Pairwise (· ≤ ·) := by
  rw [← List.isChain_iff_pairwise]
  induction series with
  | nil => simp [isMonotonicIncreasing]
  | cons a rest ih =>
    cases rest with
    | nil => simp [isMonotonicIncreasing]
    | cons b rest => simp [isMonotonicIncreasing, ih]

section Checks

variable {partition : BookPartition}

theorem monotonic_passed (h : Passed (checkTimestampMonotonic partition)) :
    partition.frame.Pairwise fun a b => a.timestamp ≤ b.timestamp := by
  unfold checkTimestampMonotonic at h
  split at h
  · rename_i hempty
    rw [List.isEmpty_iff.mp hempty]
    exact .nil
  · have hpassed : isMonotonicIncreasing (partition.frame.map (·.timestamp)) = true := h _ rfl
    exact List.pairwise_map.mp (isMonotonicIncreasing_iff.mp hpassed)

/-- A row whose price and quantity the gate takes. -/
def Plausible (row : BookRow) : Prop :=
  (row.price = .infinity false ∨ ∃ p, row.price = .finite p ∧ 0 < p) ∧
    (row.quantity = .infinity false ∨ ∃ q, row.quantity = .finite q ∧ 0 ≤ q)

theorem plausible_price {price : Double} (hna : isna price = false)
    (hpositive : price.le .zero = false) :
    price = .infinity false ∨ ∃ p, price = .finite p ∧ 0 < p := by
  cases price with
  | finite p =>
    refine .inr ⟨p, rfl, ?_⟩
    simpa [Double.zero] using hpositive
  | infinity negative =>
    cases negative with
    | false => exact .inl rfl
    | true => simp [Double.zero, Double.le, Double.lt] at hpositive
  | nan => simp [isna] at hna

theorem plausible_quantity {quantity : Double} (hna : isna quantity = false)
    (hnonneg : quantity.lt .zero = false) :
    quantity = .infinity false ∨ ∃ q, quantity = .finite q ∧ 0 ≤ q := by
  cases quantity with
  | finite q =>
    refine .inr ⟨q, rfl, ?_⟩
    simpa [Double.zero] using hnonneg
  | infinity negative =>
    cases negative with
    | false => exact .inl rfl
    | true => simp [Double.zero, Double.lt] at hnonneg
  | nan => simp [isna] at hna

theorem finitePositive_passed (h : Passed (checkFinitePositive partition)) :
    ∀ row ∈ partition.frame, Plausible row := by
  intro row hmem
  unfold checkFinitePositive at h
  dsimp only at h
  split at h
  · rename_i hempty
    rw [List.isEmpty_iff.mp hempty] at hmem
    cases hmem
  · have hpassed := h _ rfl
    simp only [BookPartition.result, List.isEmpty_iff, List.append_eq_nil_iff, ite_eq_right_iff,
      List.cons_ne_nil, imp_false, Bool.or_eq_true, not_or, Bool.not_eq_true', Bool.not_eq_false,
      List.all_eq_true, List.any_eq_true, not_exists, not_and, Bool.not_eq_true] at hpassed
    obtain ⟨⟨hpresent, hpositive⟩, hquantities⟩ := hpassed
    obtain ⟨hna, hnonneg⟩ := hquantities row hmem
    exact ⟨plausible_price (hpresent row hmem) (hpositive row hmem),
      plausible_quantity hna hnonneg⟩

theorem opens_passed (h : Passed (checkBookOpensWithSnapshot partition))
    (hsorted : partition.frame.Pairwise fun a b => a.timestamp ≤ b.timestamp) :
    ∀ first ∈ partition.frame.head?, first.isSnapshot = true := by
  unfold checkBookOpensWithSnapshot at h
  dsimp only at h
  rw [hsorted.insertionSort_eq] at h
  intro first hfirst
  split at h
  · rename_i hnil
    rw [hnil] at hfirst
    cases hfirst
  · rename_i row rest hcons
    rw [hcons] at hfirst
    cases hfirst
    exact h _ rfl

/-- A plausible row is refused by the book only if it is infinite. -/
theorem acceptable_iff {row : BookRow} (h : Plausible row) :
    Book.Acceptable row.price row.quantity ↔
      row.price ≠ .infinity false ∧ row.quantity ≠ .infinity false := by
  obtain ⟨hprice, hquantity⟩ := h
  constructor
  · intro hacc
    obtain ⟨p, q, hp, hq, _⟩ := hacc.exists
    rw [hp, hq]
    exact ⟨nofun, nofun⟩
  · rintro ⟨hpfinite, hqfinite⟩
    rcases hprice with hinf | ⟨p, hp, hpos⟩
    · exact absurd hinf hpfinite
    · rcases hquantity with hinf | ⟨q, hq, hnonneg⟩
      · exact absurd hinf hqfinite
      · rw [hp, hq]
        exact ⟨rfl, hpos, rfl, hnonneg⟩

end Checks

theorem replays_iff (partition : BookPartition) :
    Replays partition ↔
      (∀ first ∈ partition.frame.head?, first.isSnapshot = true) ∧
        (partition.frame.Pairwise fun a b => a.timestamp ≤ b.timestamp) ∧
        ∀ row ∈ partition.frame, Book.Acceptable row.price row.quantity := by
  have hrows := @BookReplayer.applyRows_ok_iff {} (partition.frame.map BookRow.read)
    OrderBook.wellFormed_empty
  have hreplays : Replays partition ↔
      ∃ r, ({} : BookReplayer).applyRows (partition.frame.map BookRow.read) = .ok () r := by
    constructor
    · rintro ⟨updates, r, hupdates, hrun⟩
      obtain ⟨_, rfl⟩ := updatesFromBatch_ok.mp hupdates
      exact ⟨r, hrun⟩
    · rintro ⟨r, hrun⟩
      exact ⟨_, r, updatesFromBatch_ok.mpr ⟨partition.sided, rfl⟩, hrun⟩
  rw [hreplays, hrows, List.pairwise_map]
  simp only [true_implies, Bool.false_eq_true, false_implies, true_and, List.forall_mem_map]
  refine and_congr_left' ?_
  cases partition.frame with
  | nil => simp
  | cons first rest => simp [BookRow.read]

/-- A gated partition replays if and only if no price and no quantity is infinite. -/
theorem gated_replays_iff (partition : BookPartition) (h : Gated partition) :
    Replays partition ↔ ∀ row ∈ partition.frame,
      row.price ≠ .infinity false ∧ row.quantity ≠ .infinity false := by
  have hsorted := monotonic_passed h.monotonic
  have hopens := opens_passed h.opens hsorted
  have hfinite := finitePositive_passed h.finite
  rw [replays_iff, and_iff_right hopens, and_iff_right hsorted]
  exact forall₂_congr fun row hmem => acceptable_iff (hfinite row hmem)

/-! ## Two partitions -/

def snapshotRow (timestamp : Int) (side : String) (price quantity : Double) : BookRow :=
  ⟨"binance-futures", timestamp, timestamp, 0, true, side, price, quantity⟩

/-- An opening image of one row. -/
def openingPartition (price : Double) : BookPartition where
  symbol := "BTCUSDT"
  date := "2026-06-01"
  frame := [snapshotRow 1780272000000 "bid" price (.finite 1)]
  sided := by simp [snapshotRow, BookRow.Sided]

def diffRow (timestamp : Int) (side : String) (price quantity : Double) : BookRow :=
  ⟨"binance-futures", timestamp, timestamp, 0, false, side, price, quantity⟩

/-- An image of both sides, and diffs that move the bid and take the ask away. -/
def dayPartition : BookPartition where
  symbol := "BTCUSDT"
  date := "2026-06-01"
  frame := [
    snapshotRow 1780272000000 "bid" (.finite 100) (.finite 1),
    snapshotRow 1780272000000 "ask" (.finite 101) (.finite 2),
    diffRow 1780272000100 "bid" (.finite (201 / 2)) (.finite 3),
    diffRow 1780272000200 "ask" (.finite 101) (.finite 0)]
  sided := by simp [snapshotRow, diffRow, BookRow.Sided]

theorem gated_replays_day :
    Replays dayPartition ↔
      ∀ row ∈ dayPartition.frame, row.price ≠ .infinity false ∧ row.quantity ≠ .infinity false :=
  gated_replays_iff dayPartition ⟨by decide +kernel, by decide +kernel, by decide +kernel⟩

/-- All three checks report a pass, and the first row is refused. -/
theorem gated_infinite_price :
    Gated (openingPartition (.infinity false)) ∧
      ((checkFinitePositive (openingPartition (.infinity false))).map (·.detail)) = some "ok" ∧
      ∃ updates, updatesFromBatch (openingPartition (.infinity false)).frame = .ok updates ∧
        (({} : BookReplayer).applyRows updates).thrown = some (.invalidArgument
          "order book price must be finite and positive, got inf") :=
  ⟨⟨by decide +kernel, by decide +kernel, by decide +kernel⟩, by decide +kernel, _,
    updatesFromBatch_ok.mpr ⟨(openingPartition (.infinity false)).sided, rfl⟩, by decide +kernel⟩

end Ingestion
end PerpCarry
