import Mathlib.Data.List.GetD
import PerpCarry.Lib.KeyCut
import PerpCarry.Tools.SnapshotImages

/-!
# Tools.ExportBook

The export of one symbol-day for the harness: `python/perpcarry/tools/export_book.py`.

Both files are written batch by batch. The budget of `max_events` is a floor: the millisecond it
ends in is written to its end, however many batches that takes.

* `exportEvents_within`: an export under budget writes every row.
* `exportEvents_bounded`: once the last millisecond is known, the rows up to it are written.
* `exportEvents_cut`: where the budget ends, from the rows alone.
* `exportReference_upTo`: the reference rows up to the last event, and their images.
* `export_prefix`: the two files, whatever the batches.
-/

namespace PerpCarry
namespace Tools

open Lib
open Ingestion
open Pipeline (BookRow)

/-- A row of `events.csv`. -/
structure EventRow where
  timestamp : Int
  localTimestamp : Int
  isSnapshot : Bool
  side : String
  price : Double
  quantity : Double
  deriving DecidableEq

/-- `EVENT_COLUMNS` of a stored row. -/
def toEvent (row : BookRow) : EventRow where
  timestamp := row.timestamp
  localTimestamp := row.localTimestamp
  isSnapshot := row.isSnapshot
  side := row.side
  price := row.price
  quantity := row.quantity

/-- A parquet file, as the rows of its row groups. -/
abbrev ParquetFile (Row : Type) := List (List Row)

/-- `ParquetFile.iter_batches`: the batches of a file, for a batch size. -/
structure BatchReader (Row : Type) where
  iterBatches : Nat → ParquetFile Row → List (List Row)
  iterBatches_flatten : ∀ size file, 1 ≤ size → (iterBatches size file).flatten = file.flatten

/-- `iter_parquet_batches`. -/
def iterParquetBatches {Row : Type} (reader : BatchReader Row) (files : List (ParquetFile Row))
    (batchSize : Nat) : List (List Row) :=
  files.flatMap (reader.iterBatches batchSize)

/-- `ExportError`, and the `IndexError` of a batch without rows. -/
inductive ExportError where
  | exportError (message : String)
  | indexError
  deriving DecidableEq

/-- `partition_files`, of the files found in the directory. -/
def partitionFiles {Row : Type} (dataset symbol date directory : String)
    (files : List (ParquetFile Row)) : Except ExportError (List (ParquetFile Row)) :=
  if files.isEmpty then
    .error (.exportError ("no " ++ dataset ++ " partition for " ++ symbol ++ " " ++ date ++
      " at " ++ directory))
  else .ok files

/-- The index of the first value above the bound, or the number of values. -/
def keepUpTo (bound : Int) (timestamps : List Int) : Nat := timestamps.findIdx fun value => bound < value

/-! ## The loop over the events -/

/-- What the loop carries; `written` is what `events.csv` holds. -/
structure EventExport where
  written : List BookRow := []
  events : Int := 0
  lastTimestamp : Int := 0
  truncated : Bool := false
  budgetEnd : Option Int := none

/-- `over_budget`. -/
def overBudget (maxEvents : Option Int) (s : EventExport) (timestamps : List Int) : Bool :=
  match maxEvents with
  | none => false
  | some budget => budget < s.events + timestamps.length

/-- The last millisecond to write, when the budget ends in this batch. -/
def budgetEndIn (maxEvents : Option Int) (s : EventExport) (timestamps : List Int) : Int :=
  let cut := maxEvents.getD 0 - s.events
  if 0 < cut then timestamps.getD (cut - 1).toNat 0 else s.lastTimestamp

/-- The batch is written; `timestamps[-1]` of no rows raises. -/
def writeEvents (s : EventExport) (batch : List BookRow) : Except ExportError EventExport :=
  match batch.getLast? with
  | none => .error .indexError
  | some last => .ok { s with
      written := s.written ++ batch
      events := s.events + batch.length
      lastTimestamp := last.timestamp }

/-- One pass, and whether it leaves the loop. -/
def exportBatch (maxEvents : Option Int) (s : EventExport) (batch : List BookRow) :
    Except ExportError (EventExport × Bool) :=
  let timestamps := batch.map (·.timestamp)
  let s := if s.budgetEnd.isNone && overBudget maxEvents s timestamps then
      { s with budgetEnd := some (budgetEndIn maxEvents s timestamps), truncated := true }
    else s
  match s.budgetEnd with
  | some bound =>
    let keep := keepUpTo bound timestamps
    let exhausted := decide (keep < timestamps.length)
    if keep = 0 then .ok (s, true)
    else (writeEvents s (batch.take keep)).map fun s => (s, exhausted)
  | none => (writeEvents s batch).map fun s => (s, false)

def exportEvents (maxEvents : Option Int) :
    EventExport → List (List BookRow) → Except ExportError EventExport
  | s, [] => .ok s
  | s, batch :: batches =>
    match exportBatch maxEvents s batch with
    | .error e => .error e
    | .ok (s, true) => .ok s
    | .ok (s, false) => exportEvents maxEvents s batches

/-! ## The loop over the reference -/

structure ReferenceExport where
  written : List SnapshotRow := []
  referenceRows : Int := 0
  images : Int := 0
  previousTimestamp : Option Int := none

/-- A row counts as an image when its timestamp is not the one before. -/
def countImage (s : Int × Option Int) (value : Int) : Int × Option Int :=
  if some value ≠ s.2 then (s.1 + 1, some value) else s

def exportReferenceBatch (lastTimestamp : Int) (s : ReferenceExport) (batch : List SnapshotRow) :
    ReferenceExport × Bool :=
  let timestamps := batch.map (·.timestamp)
  let keep := keepUpTo lastTimestamp timestamps
  let exhausted := decide (keep < timestamps.length)
  if keep = 0 then (s, true)
  else
    let counted := (timestamps.take keep).foldl countImage (s.images, s.previousTimestamp)
    ({ written := s.written ++ batch.take keep
       referenceRows := s.referenceRows + (batch.take keep).length
       images := counted.1
       previousTimestamp := counted.2 }, exhausted)

def exportReference (lastTimestamp : Int) :
    ReferenceExport → List (List SnapshotRow) → ReferenceExport
  | s, [] => s
  | s, batch :: batches =>
    match exportReferenceBatch lastTimestamp s batch with
    | (s, true) => s
    | (s, false) => exportReference lastTimestamp s batches

/-! ## `export` -/

/-- What a call is about, but for the corpus. -/
structure ExportArguments where
  symbol : String
  date : String
  maxEvents : Option Int
  batchSize : Nat

/-- The partitions of the day on disk: the files of each, in the order of their names. -/
structure ExportCorpus where
  eventFiles : List (ParquetFile BookRow)
  referenceFiles : List (ParquetFile SnapshotRow)
  eventDirectory : String
  referenceDirectory : String

/-- `ExportReport`, with the two files it is about. -/
structure ExportReport where
  symbol : String
  date : String
  eventsCsv : List EventRow
  referenceCsv : List ReferenceRow
  events : Int
  referenceRows : Int
  images : Int
  lastTimestamp : Int
  truncated : Bool
  deriving DecidableEq

def exportDay (events : BatchReader BookRow) (reference : BatchReader SnapshotRow)
    (corpus : ExportCorpus) (args : ExportArguments) : Except ExportError ExportReport := do
  let eventFiles ← partitionFiles "incremental_book_L2" args.symbol args.date
    corpus.eventDirectory corpus.eventFiles
  let referenceFiles ← partitionFiles "book_snapshot_25" args.symbol args.date
    corpus.referenceDirectory corpus.referenceFiles
  let s ← exportEvents args.maxEvents {} (iterParquetBatches events eventFiles args.batchSize)
  if s.events = 0 then
    .error (.exportError (args.symbol ++ " " ++ args.date ++ ": the events partition is empty"))
  else
    let r := exportReference s.lastTimestamp {}
      (iterParquetBatches reference referenceFiles args.batchSize)
    return {
      symbol := args.symbol
      date := args.date
      eventsCsv := s.written.map toEvent
      referenceCsv := r.written.map toReference
      events := s.events
      referenceRows := r.referenceRows
      images := r.images
      lastTimestamp := s.lastTimestamp
      truncated := s.truncated }

/-! ## Rows written so far -/

/-- The last timestamp of the rows, or the one before them. -/
def lastOf (before : Int) (rows : List BookRow) : Int :=
  (rows.getLast?.map (·.timestamp)).getD before

/-- The state with more rows written. -/
def EventExport.wrote (s : EventExport) (rows : List BookRow) : EventExport :=
  { s with
    written := s.written ++ rows
    events := s.events + rows.length
    lastTimestamp := lastOf s.lastTimestamp rows }

section Loops

variable {maxEvents : Option Int} {s : EventExport} {batch rows : List BookRow}
  {batches : List (List BookRow)} {bound : Int}

@[simp] theorem wrote_nil (s : EventExport) : s.wrote [] = s := by
  simp [EventExport.wrote, lastOf]

theorem wrote_append (s : EventExport) (xs ys : List BookRow) :
    (s.wrote xs).wrote ys = s.wrote (xs ++ ys) := by
  have hlast : lastOf (lastOf s.lastTimestamp xs) ys = lastOf s.lastTimestamp (xs ++ ys) := by
    unfold lastOf
    rw [List.getLast?_append]
    cases ys.getLast? <;> simp
  simp only [EventExport.wrote, hlast, List.append_assoc, List.length_append, EventExport.mk.injEq,
    true_and, and_true]
  omega

theorem writeEvents_ok (h : batch ≠ []) : writeEvents s batch = .ok (s.wrote batch) := by
  unfold writeEvents EventExport.wrote lastOf
  rw [List.getLast?_eq_some_getLast h]
  rfl

/-- The scan for the first later value, as a prefix of the batch. -/
theorem take_keepUpTo {Row : Type} (timestamp : Row → Int) (batch : List Row) (bound : Int) :
    batch.take (keepUpTo bound (batch.map timestamp)) =
      batch.takeWhile fun row => timestamp row ≤ bound := by
  induction batch with
  | nil => rfl
  | cons row batch ih =>
    unfold keepUpTo at ih ⊢
    rw [List.map_cons, List.findIdx_cons]
    by_cases hlater : bound < timestamp row
    · rw [List.takeWhile_cons_of_neg (by simpa using hlater)]
      simp [hlater]
    · rw [List.takeWhile_cons_of_pos (by simpa using hlater), ← ih]
      simp [hlater]

theorem keepUpTo_lt {Row : Type} (timestamp : Row → Int) (batch : List Row) (bound : Int) :
    keepUpTo bound (batch.map timestamp) < (batch.map timestamp).length ↔
      ∃ row ∈ batch, bound < timestamp row := by
  unfold keepUpTo
  rw [List.findIdx_lt_length]
  simp

/-- In order, the rows behind a later one are later. -/
theorem upTo_append {Row : Type} {timestamp : Row → Int} {front back : List Row} {bound : Int}
    (hordered : Nondecreasing timestamp (front ++ back))
    (hlater : ∃ row ∈ front, bound < timestamp row) :
    (back.filter fun row => timestamp row ≤ bound) = [] := by
  obtain ⟨row, hrow, hlt⟩ := hlater
  rw [List.filter_eq_nil_iff]
  intro row' hrow'
  have hle := (List.pairwise_append.mp hordered).2.2 row hrow row' hrow'
  simpa using hlt.trans_le hle

/-- What the scan of a batch says of it, and of the rows behind it. -/
structure BatchCut {Row : Type} (timestamp : Row → Int) (bound : Int) (batch rest : List Row) :
    Prop where
  kept : batch.take (keepUpTo bound (batch.map timestamp)) =
    batch.filter fun row => timestamp row ≤ bound
  exhausted : keepUpTo bound (batch.map timestamp) < (batch.map timestamp).length →
    (rest.filter fun row => timestamp row ≤ bound) = []
  some_kept : keepUpTo bound (batch.map timestamp) ≠ 0 →
    (batch.filter fun row => timestamp row ≤ bound) ≠ []
  /-- The first row is later already. -/
  none_kept : keepUpTo bound (batch.map timestamp) = 0 →
    (batch.filter fun row => timestamp row ≤ bound) = [] ∧
      (rest.filter fun row => timestamp row ≤ bound) = []

theorem batch_cut {Row : Type} {timestamp : Row → Int} {batch rest : List Row}
    (hordered : Nondecreasing timestamp (batch ++ rest)) (hbatch : batch ≠ []) (bound : Int) :
    BatchCut timestamp bound batch rest := by
  have hfront : Nondecreasing timestamp batch := (List.pairwise_append.mp hordered).1
  have hkept : batch.take (keepUpTo bound (batch.map timestamp)) =
      batch.filter fun row => timestamp row ≤ bound := by
    rw [take_keepUpTo, hfront.upTo.takeWhile_eq]
  have hexhausted := fun hlt => upTo_append hordered ((keepUpTo_lt timestamp batch bound).mp hlt)
  refine ⟨hkept, hexhausted, ?_, ?_⟩
  · intro hne hnil
    rw [← hkept] at hnil
    rcases List.take_eq_nil_iff.mp hnil with h | h
    · exact hne h
    · exact hbatch h
  · intro hzero
    have hpos : 0 < (batch.map timestamp).length := by
      rw [List.length_map]
      exact List.length_pos_of_ne_nil hbatch
    refine ⟨?_, hexhausted (by rw [hzero]; exact hpos)⟩
    rw [← hkept, hzero, List.take_zero]

/-- Once the last millisecond is known, the rows up to it are written, and no others. -/
theorem exportEvents_bounded (hbound : s.budgetEnd = some bound)
    (hordered : Nondecreasing BookRow.timestamp batches.flatten)
    (hbatches : ∀ batch ∈ batches, batch ≠ []) :
    exportEvents maxEvents s batches =
      .ok (s.wrote (batches.flatten.filter fun row => row.timestamp ≤ bound)) := by
  induction batches generalizing s with
  | nil => simp [exportEvents]
  | cons batch batches ih =>
    obtain ⟨hbatch, hbatches⟩ := List.forall_mem_cons.mp hbatches
    rw [List.flatten_cons] at hordered
    have hback : Nondecreasing BookRow.timestamp batches.flatten :=
      (List.pairwise_append.mp hordered).2.1
    have hcut := batch_cut hordered hbatch bound
    rw [exportEvents, exportBatch, List.flatten_cons, List.filter_append]
    simp only [hbound, Option.isNone_some, Bool.false_and, Bool.false_eq_true, if_false, hcut.kept]
    by_cases hzero : keepUpTo bound (batch.map (·.timestamp)) = 0
    · obtain ⟨hnone, hrest⟩ := hcut.none_kept hzero
      rw [if_pos hzero, hnone, hrest]
      simp
    · rw [if_neg hzero, writeEvents_ok (hcut.some_kept hzero)]
      by_cases hexhausted : keepUpTo bound (batch.map (·.timestamp)) <
          (batch.map (·.timestamp)).length
      · rw [hcut.exhausted hexhausted, List.append_nil]
        simp only [Except.map, decide_eq_true hexhausted]
      · have hcontinue := @ih (s.wrote (batch.filter fun row => row.timestamp ≤ bound)) hbound hback
          hbatches
        simp only [Except.map, decide_eq_false hexhausted]
        rw [hcontinue, wrote_append]

/-- A batch that stays under budget is written whole. -/
theorem exportBatch_within (hnone : s.budgetEnd = none) (hbatch : batch ≠ [])
    (hunder : overBudget maxEvents s (batch.map (·.timestamp)) = false) :
    exportBatch maxEvents s batch = .ok (s.wrote batch, false) := by
  rw [exportBatch, hunder, Bool.and_false]
  simp only [Bool.false_eq_true, if_false, hnone, writeEvents_ok hbatch]
  rfl

theorem exportEvents_within (hnone : s.budgetEnd = none)
    (hbudget : ∀ budget ∈ maxEvents, s.events + batches.flatten.length ≤ budget)
    (hbatches : ∀ batch ∈ batches, batch ≠ []) :
    exportEvents maxEvents s batches = .ok (s.wrote batches.flatten) := by
  induction batches generalizing s with
  | nil => simp [exportEvents]
  | cons batch batches ih =>
    obtain ⟨hbatch, hbatches⟩ := List.forall_mem_cons.mp hbatches
    rw [List.flatten_cons] at hbudget ⊢
    have hunder : overBudget maxEvents s (batch.map (·.timestamp)) = false := by
      unfold overBudget
      split
      · rfl
      · rename_i budget
        have := hbudget budget rfl
        rw [List.length_append] at this
        rw [decide_eq_false_iff_not, List.length_map]
        omega
    rw [exportEvents, exportBatch_within hnone hbatch hunder]
    refine (@ih (s.wrote batch) hnone ?_ hbatches).trans (by rw [wrote_append])
    intro budget hmem
    have := hbudget budget hmem
    rw [List.length_append] at this
    simp only [EventExport.wrote]
    omega

/-- In the batch that goes over budget the last millisecond is known from its first row on. -/
theorem exportEvents_over (hnone : s.budgetEnd = none)
    (hover : overBudget maxEvents s (batch.map (·.timestamp)) = true) :
    exportEvents maxEvents s (batch :: batches) =
      exportEvents maxEvents { s with
        budgetEnd := some (budgetEndIn maxEvents s (batch.map (·.timestamp)))
        truncated := true } (batch :: batches) := by
  rw [exportEvents, exportEvents, exportBatch, exportBatch]
  simp [hnone, hover]

theorem getD_timestamp {i : Nat} (h : i < rows.length) :
    (rows.map BookRow.timestamp).getD i 0 = rows[i].timestamp := by
  rw [List.getD_eq_getElem _ _ (by simpa using h), List.getElem_map]

/-- Behind a batch under budget, the budget ends where it would have ended before. -/
theorem budgetEndIn_append {budget : Int} (hbatch : batch ≠ [])
    (hunder : s.events + batch.length ≤ budget) :
    budgetEndIn (some budget) (s.wrote batch) (rows.map BookRow.timestamp) =
      budgetEndIn (some budget) s ((batch ++ rows).map BookRow.timestamp) := by
  have hpos := List.length_pos_of_ne_nil hbatch
  have hcut : 0 < budget - s.events := by omega
  unfold budgetEndIn
  simp only [Option.getD_some]
  rw [if_pos hcut]
  have hevents : (s.wrote batch).events = s.events + batch.length := rfl
  rw [hevents]
  by_cases hmore : 0 < budget - (s.events + batch.length)
  · rw [if_pos hmore, List.map_append, List.getD_append_right _ _ _ _ (by simp; omega)]
    congr 1
    simp only [List.length_map]
    omega
  · rw [if_neg hmore, List.map_append, List.getD_append _ _ _ _ (by simp; omega)]
    have hindex : (budget - s.events - 1).toNat = batch.length - 1 := by omega
    rw [hindex, getD_timestamp (by omega)]
    simp only [EventExport.wrote, lastOf, List.getLast?_eq_some_getLast hbatch, Option.map_some,
      Option.getD_some, List.getLast_eq_getElem]

/-- The last millisecond is not before the rows the budget counts. -/
theorem le_budgetEndIn {budget : Int} {row : BookRow} (hrow : row ∈ batch)
    (hordered : Nondecreasing BookRow.timestamp (batch ++ rows))
    (hunder : s.events + batch.length ≤ budget)
    (hover : budget < s.events + (batch ++ rows).length) :
    row.timestamp ≤ budgetEndIn (some budget) s ((batch ++ rows).map BookRow.timestamp) := by
  obtain ⟨i, hi, rfl⟩ := List.getElem_of_mem hrow
  have hcut : 0 < budget - s.events := by omega
  have hlast : (budget - s.events - 1).toNat < (batch ++ rows).length := by omega
  unfold budgetEndIn
  simp only [Option.getD_some]
  rw [if_pos hcut, getD_timestamp hlast]
  have hi' : i < (batch ++ rows).length := by rw [List.length_append]; omega
  have hget : batch[i] = (batch ++ rows)[i] := (List.getElem_append_left hi).symm
  rw [hget]
  rcases Nat.lt_or_eq_of_le (show i ≤ (budget - s.events - 1).toNat by omega) with hlt | heq
  · exact List.pairwise_iff_getElem.mp hordered _ _ _ hlast hlt
  · simp only [heq, le_refl]

/-- Where the budget ends, from the rows alone. -/
theorem exportEvents_cut {budget : Int} (hnone : s.budgetEnd = none)
    (hordered : Nondecreasing BookRow.timestamp batches.flatten)
    (hbatches : ∀ batch ∈ batches, batch ≠ []) (hunder : s.events ≤ budget)
    (hover : budget < s.events + batches.flatten.length) :
    exportEvents (some budget) s batches =
      let bound := budgetEndIn (some budget) s (batches.flatten.map BookRow.timestamp)
      .ok (EventExport.wrote { s with budgetEnd := some bound, truncated := true }
        (batches.flatten.filter fun row => row.timestamp ≤ bound)) := by
  induction batches generalizing s with
  | nil => simp at hover; omega
  | cons batch batches ih =>
    obtain ⟨hbatch, hrest⟩ := List.forall_mem_cons.mp hbatches
    by_cases hhere : s.events + batch.length ≤ budget
    · have hfits : overBudget (some budget) s (batch.map (·.timestamp)) = false := by
        unfold overBudget
        rw [decide_eq_false_iff_not, List.length_map]
        omega
      rw [List.flatten_cons] at hordered hover ⊢
      have hbound := @budgetEndIn_append s batch batches.flatten budget hbatch hhere
      have hlater := @ih (s.wrote batch) hnone (List.pairwise_append.mp hordered).2.1 hrest hhere
        (by rw [List.length_append] at hover; simp only [EventExport.wrote]; omega)
      have hall : (batch.filter fun row => row.timestamp ≤
          budgetEndIn (some budget) s ((batch ++ batches.flatten).map BookRow.timestamp)) =
            batch := by
        rw [List.filter_eq_self]
        intro row hrow
        simpa using le_budgetEndIn hrow hordered hhere hover
      rw [exportEvents, exportBatch_within hnone hbatch hfits]
      simp only
      rw [hlater]
      simp only [hbound]
      rw [List.filter_append, hall, ← wrote_append]
      rfl
    · have hends : overBudget (some budget) s (batch.map (·.timestamp)) = true := by
        unfold overBudget
        rw [decide_eq_true_eq, List.length_map]
        omega
      have hsame : budgetEndIn (some budget) s (batch.map BookRow.timestamp) =
          budgetEndIn (some budget) s ((batch :: batches).flatten.map BookRow.timestamp) := by
        unfold budgetEndIn
        rw [List.flatten_cons, List.map_append]
        simp only [Option.getD_some]
        split
        · rw [List.getD_append]
          simp only [List.length_map]
          omega
        · rfl
      rw [exportEvents_over hnone hends]
      refine (exportEvents_bounded rfl hordered hbatches).trans ?_
      rw [hsame]

end Loops

/-! ## The reference up to the last event -/

/-- The state with more reference rows written. -/
def ReferenceExport.wrote (s : ReferenceExport) (rows : List SnapshotRow) : ReferenceExport :=
  let counted := (rows.map (·.timestamp)).foldl countImage (s.images, s.previousTimestamp)
  { written := s.written ++ rows
    referenceRows := s.referenceRows + rows.length
    images := counted.1
    previousTimestamp := counted.2 }

theorem reference_wrote_append (s : ReferenceExport) (xs ys : List SnapshotRow) :
    (s.wrote xs).wrote ys = s.wrote (xs ++ ys) := by
  simp only [ReferenceExport.wrote, List.append_assoc, List.length_append, List.map_append,
    List.foldl_append, ReferenceExport.mk.injEq, true_and, and_true, Prod.mk.eta]
  omega

theorem exportReference_upTo {s : ReferenceExport} {batches : List (List SnapshotRow)}
    {bound : Int} (hordered : Nondecreasing SnapshotRow.timestamp batches.flatten)
    (hbatches : ∀ batch ∈ batches, batch ≠ []) :
    exportReference bound s batches =
      s.wrote (batches.flatten.filter fun row => row.timestamp ≤ bound) := by
  induction batches generalizing s with
  | nil => simp [exportReference, ReferenceExport.wrote]
  | cons batch batches ih =>
    obtain ⟨hbatch, hbatches⟩ := List.forall_mem_cons.mp hbatches
    rw [List.flatten_cons] at hordered
    have hback : Nondecreasing SnapshotRow.timestamp batches.flatten :=
      (List.pairwise_append.mp hordered).2.1
    have hcut := batch_cut hordered hbatch bound
    rw [exportReference, exportReferenceBatch, List.flatten_cons, List.filter_append]
    simp only [← List.map_take, hcut.kept]
    by_cases hzero : keepUpTo bound (batch.map (·.timestamp)) = 0
    · obtain ⟨hnone, hrest⟩ := hcut.none_kept hzero
      rw [if_pos hzero, hnone, hrest]
      simp [ReferenceExport.wrote]
    · rw [if_neg hzero]
      by_cases hexhausted : keepUpTo bound (batch.map (·.timestamp)) <
          (batch.map (·.timestamp)).length
      · rw [hcut.exhausted hexhausted, List.append_nil]
        simp only [decide_eq_true hexhausted]
        rfl
      · simp only [decide_eq_false hexhausted]
        rw [ih hback hbatches, ← reference_wrote_append]
        rfl

/-- Behind a timestamp, the images are the changes. -/
theorem foldl_countImage {timestamps : List Int} {n p : Int}
    (hordered : (p :: timestamps).Pairwise (· ≤ ·)) :
    (timestamps.foldl countImage (n, some p)).1 + 1 = n + (p :: timestamps).dedup.length := by
  induction timestamps generalizing n p with
  | nil => simp
  | cons value timestamps ih =>
    obtain ⟨hfirst, hrest⟩ := List.pairwise_cons.mp hordered
    rw [List.foldl_cons]
    by_cases hsame : value = p
    · subst hsame
      have hcount : countImage (n, some value) value = (n, some value) := by simp [countImage]
      rw [hcount, ih hrest, List.dedup_cons_of_mem List.mem_cons_self]
    · have hcount : countImage (n, some p) value = (n + 1, some value) := by
        simp [countImage, hsame]
      have hnew : p ∉ value :: timestamps := by
        intro hmem
        rcases List.mem_cons.mp hmem with heq | hmem
        · exact hsame heq.symm
        · have hle := (List.pairwise_cons.mp hrest).1 p hmem
          exact hsame (le_antisymm hle (hfirst value List.mem_cons_self))
      rw [hcount, ih hrest, List.dedup_cons_of_notMem hnew, List.length_cons]
      push_cast
      ring

/-- The images of a file in order are its milliseconds. -/
theorem images_dedup {timestamps : List Int} (hordered : timestamps.Pairwise (· ≤ ·)) :
    (timestamps.foldl countImage (0, none)).1 = timestamps.dedup.length := by
  cases timestamps with
  | nil => rfl
  | cons value timestamps =>
    have hcount : countImage (0, none) value = (1, some value) := by simp [countImage]
    rw [List.foldl_cons, hcount]
    have := @foldl_countImage timestamps 1 value hordered
    omega

/-! ## The two files -/

/-- `n`: the budget, or the number of events when there are no more. -/
def exportCount (maxEvents : Option Int) (events : List BookRow) : Nat :=
  match maxEvents with
  | none => events.length
  | some budget => min budget.toNat events.length

/-- What an export of these rows is. -/
structure PrefixLaw (events : List BookRow) (reference : List SnapshotRow)
    (maxEvents : Option Int) (report : ExportReport) : Prop where
  prefixed : ∃ last, events[exportCount maxEvents events - 1]? = some last ∧
    report.eventsCsv = (events.filter fun row => row.timestamp ≤ last.timestamp).map toEvent
  whole : maxEvents = none → report.eventsCsv = events.map toEvent
  last : report.eventsCsv.getLast?.map (·.timestamp) = some report.lastTimestamp
  reference : report.referenceCsv =
    (reference.filter fun row => row.timestamp ≤ report.lastTimestamp).map toReference
  eventCount : report.events = report.eventsCsv.length
  referenceCount : report.referenceRows = report.referenceCsv.length
  imageCount : report.images = (report.referenceCsv.map (·.timestamp)).dedup.length
  truncated : report.truncated = true ↔ ∃ budget ∈ maxEvents, budget < events.length
  uncut : ∀ kept ∈ report.eventsCsv,
    (report.eventsCsv.filter fun row => row.timestamp = kept.timestamp) =
      (events.filter fun row => row.timestamp = kept.timestamp).map toEvent

/-- Files, batch sizes and row groups that hold these rows, without an empty batch. -/
structure Layout (events : List BookRow) (reference : List SnapshotRow)
    (eventReader : BatchReader BookRow) (referenceReader : BatchReader SnapshotRow)
    (corpus : ExportCorpus) (batchSize : Nat) : Prop where
  size : 1 ≤ batchSize
  eventRows : (corpus.eventFiles.map List.flatten).flatten = events
  referenceRows : (corpus.referenceFiles.map List.flatten).flatten = reference
  referenceFiles : corpus.referenceFiles ≠ []
  eventBatches : ∀ batch ∈ iterParquetBatches eventReader corpus.eventFiles batchSize, batch ≠ []
  referenceBatches :
    ∀ batch ∈ iterParquetBatches referenceReader corpus.referenceFiles batchSize, batch ≠ []

theorem iterParquetBatches_flatten {Row : Type} (reader : BatchReader Row)
    (files : List (ParquetFile Row)) {batchSize : Nat} (h : 1 ≤ batchSize) :
    (iterParquetBatches reader files batchSize).flatten = (files.map List.flatten).flatten := by
  unfold iterParquetBatches
  rw [List.flatMap_def, List.flatten_flatten, List.map_map]
  congr 1
  refine List.map_congr_left ?_
  intro file _
  exact reader.iterBatches_flatten batchSize file h

section Export

variable {events : List BookRow} {maxEvents : Option Int} {last : BookRow}

/-- In order, the rows up to one of them end at its timestamp. -/
theorem lastOf_upTo (hordered : Nondecreasing BookRow.timestamp events) (hlast : last ∈ events)
    (before : Int) :
    ((events.filter fun row => row.timestamp ≤ last.timestamp).getLast?.map (·.timestamp)) =
        some last.timestamp ∧
      lastOf before (events.filter fun row => row.timestamp ≤ last.timestamp) = last.timestamp := by
  have hmem : last ∈ events.filter fun row => row.timestamp ≤ last.timestamp :=
    List.mem_filter.mpr ⟨hlast, by simp⟩
  have hne := List.ne_nil_of_mem hmem
  have hkept : Nondecreasing BookRow.timestamp
      (events.filter fun row => row.timestamp ≤ last.timestamp) := hordered.filter _
  have hupper := (List.mem_filter.mp (List.getLast_mem hne)).2
  rw [decide_eq_true_eq] at hupper
  have hlower := hkept.le_getLast hne hmem
  have heq := le_antisymm hupper hlower
  unfold lastOf
  rw [List.getLast?_eq_some_getLast hne, Option.map_some, Option.getD_some]
  exact ⟨congrArg some heq, heq⟩

/-- The events written, from the row the budget ends in. -/
theorem exportEvents_prefixed (hne : events ≠ [])
    (hordered : Nondecreasing BookRow.timestamp events)
    (hbudget : ∀ budget ∈ maxEvents, 1 ≤ budget) :
    ∃ last, events[exportCount maxEvents events - 1]? = some last ∧ last ∈ events ∧
      (maxEvents = none → ∀ row ∈ events, row.timestamp ≤ last.timestamp) ∧
      ∀ batches : List (List BookRow), batches.flatten = events →
        (∀ batch ∈ batches, batch ≠ []) →
        ∃ s : EventExport, s.written = [] ∧ s.events = 0 ∧
          (s.truncated = true ↔ ∃ budget ∈ maxEvents, budget < events.length) ∧
          exportEvents maxEvents {} batches =
            .ok (s.wrote (events.filter fun row => row.timestamp ≤ last.timestamp)) := by
  have hpos := List.length_pos_of_ne_nil hne
  by_cases hover : ∃ budget ∈ maxEvents, budget < events.length
  · obtain ⟨budget, hmax, hless⟩ := hover
    cases hmax
    have hone := hbudget budget rfl
    have hcount : exportCount (some budget) events - 1 = (budget - 0 - 1).toNat := by
      show min budget.toNat events.length - 1 = _
      omega
    have hindex : (budget - 0 - 1).toNat < events.length := by omega
    refine ⟨events[(budget - 0 - 1).toNat], ?_, List.getElem_mem _, nofun, ?_⟩
    · rw [hcount, List.getElem?_eq_getElem hindex]
    · intro batches hflatten hbatches
      have hbound : budgetEndIn (some budget) {} (batches.flatten.map BookRow.timestamp) =
          (events[(budget - 0 - 1).toNat]).timestamp := by
        unfold budgetEndIn
        simp only [Option.getD_some]
        rw [if_pos (by omega), hflatten, getD_timestamp hindex]
      have hcut := @exportEvents_cut {} batches budget rfl (hflatten ▸ hordered) hbatches
        (by show (0 : Int) ≤ budget; omega) (by rw [hflatten]; simpa using hless)
      simp only [hbound] at hcut
      rw [hflatten] at hcut
      exact ⟨_, rfl, rfl, by simpa using hless, hcut⟩
  · have hwithin : ∀ budget ∈ maxEvents, (events.length : Int) ≤ budget := by
      intro budget hmax
      by_contra hless
      exact hover ⟨budget, hmax, by omega⟩
    have hcount : exportCount maxEvents events = events.length := by
      unfold exportCount
      split
      · rfl
      · rename_i budget
        have := hwithin budget rfl
        omega
    have hall : ∀ row ∈ events, row.timestamp ≤ (events.getLast hne).timestamp :=
      fun row hrow => hordered.le_getLast hne hrow
    refine ⟨events.getLast hne, ?_, List.getLast_mem hne, fun _ => hall, ?_⟩
    · rw [hcount, ← List.getLast?_eq_getElem?, List.getLast?_eq_some_getLast hne]
    · intro batches hflatten hbatches
      have hself : (events.filter fun row => row.timestamp ≤ (events.getLast hne).timestamp) =
          events := List.filter_eq_self.mpr fun row hrow => by simpa using hall row hrow
      have hrun := @exportEvents_within maxEvents {} batches rfl
        (by rw [hflatten]; simpa using hwithin) hbatches
      rw [hself]
      exact ⟨{}, rfl, rfl, ⟨nofun, fun h => absurd h hover⟩, hflatten ▸ hrun⟩

/-- The report of these rows, when the budget ends in the millisecond of `last`. -/
def prefixReport (symbol date : String) (events : List BookRow) (reference : List SnapshotRow)
    (maxEvents : Option Int) (last : BookRow) : ExportReport :=
  let kept := events.filter fun row => row.timestamp ≤ last.timestamp
  let images := reference.filter fun row => row.timestamp ≤ last.timestamp
  { symbol
    date
    eventsCsv := kept.map toEvent
    referenceCsv := images.map toReference
    events := kept.length
    referenceRows := images.length
    images := (images.map (·.timestamp)).dedup.length
    lastTimestamp := last.timestamp
    truncated := maxEvents.any fun budget => budget < (events.length : Int) }

theorem prefixReport_law {reference : List SnapshotRow} {symbol date : String}
    (hordered : Nondecreasing BookRow.timestamp events)
    (hlast : events[exportCount maxEvents events - 1]? = some last)
    (hwhole : maxEvents = none → ∀ row ∈ events, row.timestamp ≤ last.timestamp) :
    PrefixLaw events reference maxEvents
      (prefixReport symbol date events reference maxEvents last) where
  prefixed := ⟨last, hlast, rfl⟩
  whole := by
    intro hnone
    show (events.filter fun row => row.timestamp ≤ last.timestamp).map toEvent = _
    rw [List.filter_eq_self.mpr fun row hrow => by simpa using hwhole hnone row hrow]
  last := by
    show ((events.filter fun row => row.timestamp ≤ last.timestamp).map toEvent).getLast?.map _ = _
    rw [List.getLast?_map, Option.map_map]
    exact (lastOf_upTo hordered (List.mem_of_getElem? hlast) 0).1
  reference := rfl
  eventCount := by simp [prefixReport]
  referenceCount := by simp [prefixReport]
  imageCount := by
    show _ = ((((reference.filter _).map toReference).map (·.timestamp)).dedup.length : Int)
    rw [List.map_map]
    rfl
  truncated := by
    cases maxEvents <;> simp [prefixReport]
  uncut := by
    intro kept hkept
    obtain ⟨row, hrow, rfl⟩ := List.mem_map.mp hkept
    have hle := (List.mem_filter.mp hrow).2
    rw [decide_eq_true_eq] at hle
    show (((events.filter fun row => row.timestamp ≤ last.timestamp).map toEvent).filter fun r =>
      r.timestamp = row.timestamp) = _
    rw [List.filter_map, List.filter_filter]
    congr 1
    refine List.filter_congr ?_
    intro row' _
    -- a row of the same millisecond is not later than the last
    have hsame : row'.timestamp = row.timestamp → row'.timestamp ≤ last.timestamp :=
      fun h => h.trans_le hle
    by_cases h : row'.timestamp = row.timestamp
    · simp [toEvent, h, hle]
    · simp [toEvent, h]

theorem export_prefix (symbol date : String) (events : List BookRow)
    (reference : List SnapshotRow) (maxEvents : Option Int) (hne : events ≠ [])
    (hevents : Nondecreasing BookRow.timestamp events)
    (hreference : Nondecreasing SnapshotRow.timestamp reference)
    (hbudget : ∀ budget ∈ maxEvents, 1 ≤ budget) :
    ∃ report, PrefixLaw events reference maxEvents report ∧
      ∀ eventReader referenceReader corpus batchSize,
        Layout events reference eventReader referenceReader corpus batchSize →
          exportDay eventReader referenceReader corpus ⟨symbol, date, maxEvents, batchSize⟩ =
            .ok report := by
  obtain ⟨last, hlast, hmem, hwhole, hrun⟩ := exportEvents_prefixed hne hevents hbudget
  refine ⟨prefixReport symbol date events reference maxEvents last,
    prefixReport_law hevents hlast hwhole, ?_⟩
  intro eventReader referenceReader corpus batchSize hlayout
  have hflatEvents := (iterParquetBatches_flatten eventReader corpus.eventFiles hlayout.size).trans
    hlayout.eventRows
  have hflatReference := (iterParquetBatches_flatten referenceReader corpus.referenceFiles
    hlayout.size).trans hlayout.referenceRows
  obtain ⟨s, hwritten, hcount, htruncated, hexport⟩ :=
    hrun _ hflatEvents hlayout.eventBatches
  have heventFiles : corpus.eventFiles ≠ [] := by
    intro hnil
    have hrows := hlayout.eventRows
    rw [hnil] at hrows
    exact hne hrows.symm
  have hkept : last ∈ events.filter fun row => row.timestamp ≤ last.timestamp :=
    List.mem_filter.mpr ⟨hmem, by simp⟩
  have hpos := List.length_pos_of_mem hkept
  have hended : (s.wrote (events.filter fun row => row.timestamp ≤ last.timestamp)).lastTimestamp =
      last.timestamp := (lastOf_upTo hevents hmem _).2
  have hreferences := @exportReference_upTo {} _ last.timestamp (hflatReference ▸ hreference)
    hlayout.referenceBatches
  rw [hflatReference] at hreferences
  have himages : ((reference.filter fun row => row.timestamp ≤ last.timestamp).map
      (·.timestamp)).Pairwise (· ≤ ·) := by
    rw [List.pairwise_map]
    exact hreference.filter _
  have hany : s.truncated = maxEvents.any fun budget => budget < (events.length : Int) := by
    rw [Bool.eq_iff_iff, htruncated]
    cases maxEvents <;> simp
  unfold exportDay partitionFiles
  simp only [List.isEmpty_iff, heventFiles, hlayout.referenceFiles, if_false, bind, Except.bind,
    hexport, hended, hreferences]
  rw [if_neg (by show ¬ (s.events + _ = 0); omega)]
  simp only [EventExport.wrote, ReferenceExport.wrote, hwritten, hcount, hany, images_dedup himages,
    prefixReport, pure, Except.pure, List.nil_append, Int.zero_add]

end Export

/-- A reader that cuts a file into batches wherever its row groups end. -/
def chunkReader {Row : Type} : BatchReader Row where
  iterBatches size file := chunks size file.flatten
  iterBatches_flatten _ file h := chunks_flatten h file.flatten

def storedEvent (timestamp : Int) (side : String) : BookRow :=
  ⟨"binance-futures", timestamp, timestamp + 3, 3100, false, side, .finite 53, .finite 19⟩

def storedImage (timestamp level : Int) : SnapshotRow :=
  ⟨"binance-futures", timestamp, timestamp + 3, 3100, .bid, level, .finite 53, .finite 19⟩

/-- Five events in three milliseconds, in two files. -/
def exportCorpus : ExportCorpus where
  eventFiles := [[[storedEvent 5000 "bid", storedEvent 5000 "ask"], [storedEvent 5001 "bid"]],
    [[storedEvent 5002 "bid", storedEvent 5002 "ask"]]]
  referenceFiles := [[[storedImage 5001 0, storedImage 5001 1, storedImage 5002 0,
    storedImage 5007 0]]]
  eventDirectory := "book"
  referenceDirectory := "book_snapshot"

/-- A budget of four ends inside the last millisecond, which is written to its end. -/
theorem export_prefix_exportCorpus :
    ∃ report, PrefixLaw (exportCorpus.eventFiles.map List.flatten).flatten
        (exportCorpus.referenceFiles.map List.flatten).flatten (some 4) report ∧
      exportDay chunkReader chunkReader exportCorpus ⟨"SOLUSDT", "1970-01-01", some 4, 3⟩ =
        .ok report ∧
      report.events = 5 ∧ report.referenceRows = 3 ∧ report.images = 2 ∧
        report.truncated = true := by
  obtain ⟨report, hlaw, hexport⟩ := export_prefix "SOLUSDT" "1970-01-01"
    (exportCorpus.eventFiles.map List.flatten).flatten
    (exportCorpus.referenceFiles.map List.flatten).flatten (some 4) (by decide)
    (by unfold Nondecreasing; decide) (by unfold Nondecreasing; decide) (by simp)
  have hreport := hexport chunkReader chunkReader exportCorpus 3
    ⟨by decide, rfl, rfl, by decide, by decide, by decide⟩
  have hrun : (exportDay chunkReader chunkReader exportCorpus
      ⟨"SOLUSDT", "1970-01-01", some 4, 3⟩).map (fun report =>
        (report.events, report.referenceRows, report.images, report.truncated)) =
      .ok (5, 3, 2, true) := by decide +kernel
  rw [hreport] at hrun
  simp only [Except.map, Except.ok.injEq, Prod.mk.injEq] at hrun
  exact ⟨report, hlaw, hreport, hrun⟩

end Tools
end PerpCarry
