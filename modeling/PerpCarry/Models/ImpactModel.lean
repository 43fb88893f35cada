import Mathlib.Data.Prod.Lex
import Mathlib.Data.String.Basic
import PerpCarry.Lib.Frame
import PerpCarry.Models.ImpactLaw
import PerpCarry.Models.RollingFunding

/-!
# Models.ImpactModel

The chronological impact fit: `_validate` and `fit` of `python/perpcarry/models/impact_model.py`.

A date is its number of days since 1970-01-01. Canonical texts of dates compare as the dates do, so
the window of a fit is an interval of day numbers.

* `entry_date`: a row that passes keeps its date.
* `training_window`: of a window, sorted, the training rows are those of the shorter window.
* `validate_ok`: a window that passes loses no row, and comes back sorted.
-/

namespace PerpCarry
namespace Models
namespace ImpactModel

open Lib
open Strategy (bind_ok pure_ok)

/-! ## The columns -/

inductive Side where
  | buy
  | sell
  deriving DecidableEq

inductive Schedule where
  | sliced
  | «static»
  deriving DecidableEq

def Side.text : Side → String
  | .buy => "buy"
  | .sell => "sell"

def Schedule.text : Schedule → String
  | .sliced => "sliced"
  | .static => "static"

def Side.ofText (text : String) : Option Side :=
  if text = "buy" then some .buy else if text = "sell" then some .sell else none

def Schedule.ofText (text : String) : Option Schedule :=
  if text = "sliced" then some .sliced else if text = "static" then some .static else none

/-- Texts that can be read back are distinct. -/
theorem injective_of_read {α : Type} {text : α → String} {read : String → Option α}
    (h : ∀ a, read (text a) = some a) : Function.Injective text := by
  intro a b hab
  have hread := congrArg read hab
  rw [h, h] at hread
  exact Option.some.inj hread

theorem Side.ofText_text (side : Side) : Side.ofText side.text = some side := by
  cases side
  · rfl
  · rfl

theorem Schedule.ofText_text (schedule : Schedule) :
    Schedule.ofText schedule.text = some schedule := by
  cases schedule
  · rfl
  · rfl

theorem Side.text_injective : Function.Injective Side.text := injective_of_read Side.ofText_text

theorem Schedule.text_injective : Function.Injective Schedule.text :=
  injective_of_read Schedule.ofText_text

instance : LinearOrder Side := LinearOrder.lift' Side.text Side.text_injective
instance : LinearOrder Schedule := LinearOrder.lift' Schedule.text Schedule.text_injective

/-- What `pd.to_datetime` makes of a cell. -/
inductive Stamp where
  | ms (value : Int)
  | null
  | unreadable
  deriving DecidableEq

/-- The UTC day of a timestamp. -/
def Stamp.day : Stamp → Option Int
  | .ms value => some (value / DAY_MS)
  | _ => none

/-- The required columns of a calibration frame; `none` is a null, and in a flag also a cell that is
no boolean. -/
structure Row (F : Type) where
  symbol : Option String
  side : Option String
  schedule : Option String
  date : Option Int
  timestamp : Stamp
  advFraction : F
  slippageVsTouchBps : F
  crossedAtEntry : Option Bool
  exhaustedBook : Option Bool
  beyondValidatedDepth : Option Bool
  deriving DecidableEq

/-- A row that has passed. -/
structure Entry (F : Type) where
  symbol : String
  side : Side
  schedule : Schedule
  date : Int
  timestampMs : Int
  advFraction : F
  slippageVsTouchBps : F
  crossedAtEntry : Bool
  exhaustedBook : Bool
  beyondValidatedDepth : Bool
  deriving DecidableEq

/-- `GROUPS`. -/
abbrev Identity := String ×ₗ Side ×ₗ Schedule

variable {F : Type}

namespace Entry

def identity (e : Entry F) : Identity := toLex (e.symbol, toLex (e.side, e.schedule))

/-- The columns in the order of `required`. -/
def key (e : Entry F) : Identity ×ₗ Int ×ₗ Int ×ₗ F ×ₗ F ×ₗ Bool ×ₗ Bool ×ₗ Bool :=
  toLex (e.identity, toLex (e.date, toLex (e.timestampMs, toLex (e.advFraction,
    toLex (e.slippageVsTouchBps, toLex (e.crossedAtEntry, toLex (e.exhaustedBook,
      e.beyondValidatedDepth)))))))

theorem key_injective : Function.Injective (key (F := F)) := by
  intro a b h
  cases a
  cases b
  simp only [key, identity, EmbeddingLike.apply_eq_iff_eq, Prod.mk.injEq] at h
  obtain ⟨⟨rfl, rfl, rfl⟩, rfl, rfl, rfl, rfl, rfl, rfl, rfl⟩ := h
  rfl

/-- Crossed and exhausted fills are not fitted. -/
def excluded (e : Entry F) : Bool := e.crossedAtEntry || e.exhaustedBook

end Entry

namespace Row

/-- The row with its cells read. -/
def entry (row : Row F) : Option (Entry F) := do
  let symbol ← row.symbol
  let side ← row.side.bind Side.ofText
  let schedule ← row.schedule.bind Schedule.ofText
  let date ← row.date
  let .ms timestampMs := row.timestamp | none
  let crossedAtEntry ← row.crossedAtEntry
  let exhaustedBook ← row.exhaustedBook
  let beyondValidatedDepth ← row.beyondValidatedDepth
  return {
    symbol, side, schedule, date, timestampMs
    advFraction := row.advFraction
    slippageVsTouchBps := row.slippageVsTouchBps
    crossedAtEntry, exhaustedBook, beyondValidatedDepth }

/-- `(frame.date >= start) & (frame.date < finish)`; a comparison with a null is false. -/
def within (start finish : Int) (row : Row F) : Bool :=
  row.date.any fun date => start ≤ date ∧ date < finish

theorem entry_date {row : Row F} {e : Entry F} (h : row.entry = some e) :
    row.date = some e.date := by
  unfold entry at h
  simp only [Option.bind_eq_bind, Option.bind_eq_some_iff] at h
  obtain ⟨_, _, _, _, _, _, date, hdate, h⟩ := h
  split at h
  · simp only [Option.bind_eq_some_iff] at h
    obtain ⟨_, _, _, _, _, _, h⟩ := h
    cases h
    exact hdate
  · cases h

end Row

/-! ## The window -/

section Window

variable [LinearOrder F]

/-- The split of a row. -/
def Entry.training (trainEnd : Int) (e : Entry F) : Bool := e.date < trainEnd

/-- The rows of a window that a fit may learn from. -/
def trainingWindow (start trainEnd : Int) (frame : List (Row F)) : List (Entry F) :=
  sortValues Entry.key ((frame.filter (Row.within start trainEnd)).filterMap Row.entry)

/-- Of a longer window, sorted, the training rows are the training window. -/
theorem training_window {start trainEnd testEnd : Int} (h : trainEnd ≤ testEnd)
    (frame : List (Row F)) :
    (sortValues Entry.key ((frame.filter (Row.within start testEnd)).filterMap Row.entry)).filter
      (Entry.training trainEnd) = trainingWindow start trainEnd frame := by
  rw [filter_sortValues Entry.key_injective]
  unfold trainingWindow
  congr 1
  rw [List.filterMap_filter, List.filterMap_filter, List.filter_filterMap]
  congr 1
  funext row
  cases hentry : row.entry with
  | none => simp
  | some e =>
    have hdate := Row.entry_date hentry
    simp only [Row.within, hdate, Option.any_some]
    by_cases hlt : e.date < trainEnd
    · have hlt' : e.date < testEnd := hlt.trans_le h
      by_cases hstart : start ≤ e.date
      · simp [hlt, hlt', hstart, Option.filter, Entry.training]
      · simp [hstart]
    · by_cases hlong : start ≤ e.date ∧ e.date < testEnd
      · simp [hlt, hlong, Option.filter, Entry.training]
      · simp [hlt, hlong]

end Window

/-! ## Validation -/

section Validate

variable [LinearOrder F] [Zero F] (np : Numpy F)

/-- `_validate`. The rows that pass are sorted by all their columns. -/
def validate (rows : List (Row F)) : Except ImpactModelError (List (Entry F)) := do
  require (rows ≠ []) "empty or incomplete calibration data; missing []"
  require (rows.all fun row => row.crossedAtEntry.isSome) "crossed_at_entry must be non-null boolean"
  require (rows.all fun row => row.exhaustedBook.isSome) "exhausted_book must be non-null boolean"
  require (rows.all fun row => row.beyondValidatedDepth.isSome)
    "beyond_validated_depth must be non-null boolean"
  require (rows.all fun row => row.symbol.isSome && row.side.isSome && row.schedule.isSome &&
    row.date.isSome) "null grouping or date fields"
  require (rows.all fun row => (row.side.bind Side.ofText).isSome &&
    (row.schedule.bind Schedule.ofText).isSome) "unknown side or execution schedule"
  require (rows.all fun row => row.timestamp ≠ .unreadable) "invalid date or timestamp"
  require (rows.all fun row => row.timestamp.day = row.date)
    "entry timestamp falls outside its UTC day"
  let entries := rows.filterMap Row.entry
  require (entries.all fun e => e.excluded || (np.isFinite e.advFraction &&
      np.isFinite e.slippageVsTouchBps && !np.le e.advFraction 0))
    "eligible size/target must be finite and size positive"
  return sortValues Entry.key entries

theorem validate_ok {np : Numpy F} {rows : List (Row F)} {entries : List (Entry F)}
    (h : validate np rows = .ok entries) :
    entries = sortValues Entry.key (rows.filterMap Row.entry) ∧
      ∀ row ∈ rows, row.entry.isSome = true := by
  unfold validate at h
  simp only [bind_ok, pure_ok, require_ok] at h
  obtain ⟨_, _, _, hcrossed, _, hexhausted, _, hbeyond, _, hnull, _, hknown, _, _, _, hday, _, _,
    rfl⟩ := h
  refine ⟨rfl, ?_⟩
  intro row hrow
  have hcrossed := List.all_eq_true.mp hcrossed row hrow
  have hexhausted := List.all_eq_true.mp hexhausted row hrow
  have hbeyond := List.all_eq_true.mp hbeyond row hrow
  have hnull := List.all_eq_true.mp hnull row hrow
  have hknown := List.all_eq_true.mp hknown row hrow
  have hday := List.all_eq_true.mp hday row hrow
  simp only [Bool.and_eq_true, decide_eq_true_eq] at hnull hknown hday
  obtain ⟨⟨⟨hsymbol, _⟩, _⟩, hdate⟩ := hnull
  obtain ⟨symbol, hsymbol⟩ := Option.isSome_iff_exists.mp hsymbol
  obtain ⟨date, hdate⟩ := Option.isSome_iff_exists.mp hdate
  obtain ⟨side, hside⟩ := Option.isSome_iff_exists.mp hknown.1
  obtain ⟨schedule, hschedule⟩ := Option.isSome_iff_exists.mp hknown.2
  obtain ⟨crossed, hcrossed⟩ := Option.isSome_iff_exists.mp hcrossed
  obtain ⟨exhausted, hexhausted⟩ := Option.isSome_iff_exists.mp hexhausted
  obtain ⟨beyond, hbeyond⟩ := Option.isSome_iff_exists.mp hbeyond
  rw [hdate] at hday
  cases hstamp : row.timestamp with
  | ms value =>
    simp [Row.entry, hsymbol, hside, hschedule, hdate, hstamp, hcrossed, hexhausted, hbeyond]
  | null =>
    rw [hstamp] at hday
    cases hday
  | unreadable =>
    rw [hstamp] at hday
    cases hday

end Validate

end ImpactModel
end Models
end PerpCarry
