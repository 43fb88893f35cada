import PerpCarry.Pipeline.Threads
import PerpCarry.Tools.ValidateBook

/-!
# Tools.RunPipeline

A stored day through the threaded pipeline: `run` of `python/perpcarry/tools/run_pipeline.py`. Its
checkpoint compares the number of replayed events with that of the harness, which was given the
exported files of the same day.

* `runBatches_ok`: what the loop over the batches has replayed.
* `run_sequential`: a report is that of sequential replay of the stored rows.
* `checkpoint_matches`: behind a full export that the harness has accepted, no run diverges.
-/

namespace PerpCarry
namespace Tools
namespace RunPipeline

open Book (dumpCsv)
open Lib (mapError_ok)
open Pipeline (BookRow ReplayInputError Threads updatesFromBatch updatesFromBatch_ok)
open Strategy (bind_ok pure_ok)
open ValidateBook

/-- `BookPartitionError`, `ReplayInputError`, or what the extension raises. -/
inductive RunError where
  | partition (e : ExportError)
  | input (e : ReplayInputError)
  | core (e : Error)
  deriving DecidableEq

/-- The fields of a committed summary that are looked at. -/
structure CommittedSummary where
  coverage : Option String
  events : Int

/-- What is taken from the two standard libraries: a digest, `std::to_chars` and `repr`. -/
structure Host where
  sha256 : Text → String
  toChars : Double → Text
  repr : Option String → String

structure RunArguments (w : Nat) where
  symbol : String
  date : String
  queueCapacity : BitVec w
  batchSize : Nat
  depth : Nat

structure RunReport (w : Nat) where
  symbol : String
  date : String
  queueCapacity : BitVec w
  batchSize : Nat
  depth : Nat
  events : Nat
  peakQueueOccupancy : Nat
  producerStalls : Nat
  replay : Stats
  bidLevels : Nat
  askLevels : Nat
  top25Sha256 : String
  checkpoint : String
  checkpointExpectedEvents : Option Int
  deriving DecidableEq

/-- The `Pipeline` object between two calls, and the sums over the calls so far. -/
structure Progress where
  replayer : BookReplayer := {}
  calls : Nat := 0
  consumed : Nat := 0
  peakOccupancy : Nat := 0
  producerStalls : Nat := 0

section Run

variable {w : Nat} (host : Host) (threads : Threads w)

def runBatch (capacity : BitVec w) (s : Progress) (batch : List BookRow) :
    Except RunError Progress := do
  let updates ← (updatesFromBatch batch).mapError .input
  match threads.run s.calls capacity s.replayer updates with
  | .error e _ => .error (.core e)
  | .ok result replayer =>
    return {
      replayer
      calls := s.calls + 1
      consumed := s.consumed + result.consumed
      peakOccupancy := max s.peakOccupancy result.peakQueueOccupancy.toNat
      producerStalls := s.producerStalls + result.producerStalls }

/-- The comparison with the committed summary, and what the report says of it. -/
def checkpoint (consumed : Nat) : Option CommittedSummary → Except RunError (String × Option Int)
  | none => .ok ("no committed M2-T2 summary for this symbol-day", none)
  | some reference =>
    if reference.coverage ≠ some "full day" then
      .ok ("M2-T2 summary covers " ++ host.repr reference.coverage ++ ", not the full day, so " ++
        "its event count is not comparable with a full-day pipeline run", none)
    else if (consumed : Int) ≠ reference.events then
      .error (.input ⟨"pipeline consumed " ++ toString consumed ++ " events, M2-T2 recorded " ++
        toString reference.events ++ " for the same symbol-day: the pipeline and the validated " ++
        "replay disagree"⟩)
    else .ok ("matches M2-T2", some reference.events)

/-- The report; `verdict` is what the comparison says. -/
def report (arguments : RunArguments w) (s : Progress) (verdict : String × Option Int) :
    RunReport w where
  symbol := arguments.symbol
  date := arguments.date
  queueCapacity := arguments.queueCapacity
  batchSize := arguments.batchSize
  depth := arguments.depth
  events := s.consumed
  peakQueueOccupancy := s.peakOccupancy
  producerStalls := s.producerStalls
  replay := s.replayer.stats
  bidLevels := s.replayer.book.levelCount .bid
  askLevels := s.replayer.book.levelCount .ask
  top25Sha256 := host.sha256 (dumpCsv host.toChars s.replayer.book arguments.depth)
  checkpoint := verdict.1
  checkpointExpectedEvents := verdict.2

/-- `run`; the committed summary is what `m2_t2_summary` returns or raises. -/
def run (reader : BatchReader BookRow) (arguments : RunArguments w) (directory : String)
    (files : List (ParquetFile BookRow))
    (committed : Except ReplayInputError (Option CommittedSummary)) :
    Except RunError (RunReport w) := do
  let files ← (partitionFiles "incremental_book_L2" arguments.symbol arguments.date directory
    files).mapError .partition
  let s ← Lib.run (runBatch threads arguments.queueCapacity) {}
    (iterParquetBatches reader files arguments.batchSize)
  let reference ← committed.mapError .input
  let verdict ← checkpoint host s.consumed reference
  return report host arguments s verdict

end Run

/-! ## What a run has replayed -/

section Replayed

variable {w : Nat} {host : Host} {threads : Threads w} {capacity : BitVec w}
  {s s' : Progress} {batch : List BookRow} {batches : List (List BookRow)}

theorem runBatch_ok (h : runBatch threads capacity s batch = .ok s') :
    (∀ row ∈ batch, row.Sided) ∧
      s.replayer.applyRows (batch.map BookRow.read) = .ok () s'.replayer ∧
      s'.consumed = s.consumed + batch.length := by
  unfold runBatch at h
  simp only [bind_ok, mapError_ok, updatesFromBatch_ok] at h
  obtain ⟨updates, ⟨hsided, rfl⟩, h⟩ := h
  split at h
  · cases h
  · rename_i result replayer hcall
    rw [pure_ok] at h
    subst h
    have hreturns := threads.returns _ _ _ _ _ _ hcall
    refine ⟨hsided, Pipeline.returns_sequential hreturns, ?_⟩
    obtain ⟨state, hstate, houtcome⟩ := hreturns
    obtain ⟨k, _, hinv⟩ := Pipeline.reachable_inv hstate
    have hconsumed := ((Pipeline.inv_sequential hinv).returns result replayer houtcome).1
    rw [List.length_map] at hconsumed
    dsimp only
    rw [hconsumed]

theorem runBatches_ok (h : Lib.run (runBatch threads capacity) s batches = .ok s') :
    (∀ row ∈ batches.flatten, row.Sided) ∧
      s.replayer.applyRows (batches.flatten.map BookRow.read) = .ok () s'.replayer ∧
      s'.consumed = s.consumed + batches.flatten.length := by
  induction batches generalizing s with
  | nil =>
    cases h
    exact ⟨List.forall_mem_nil _, rfl, rfl⟩
  | cons batch batches ih =>
    obtain ⟨next, hnext, hrest⟩ := Lib.run_cons_ok.mp h
    obtain ⟨hsided, happlied, hconsumed⟩ := runBatch_ok hnext
    obtain ⟨hrestSided, hrestApplied, hrestConsumed⟩ := ih hrest
    rw [List.flatten_cons]
    refine ⟨fun row hrow => ?_, ?_, ?_⟩
    · rcases List.mem_append.mp hrow with hrow | hrow
      · exact hsided row hrow
      · exact hrestSided row hrow
    · rw [List.map_append, BookReplayer.applyRows_append, happlied]
      exact hrestApplied
    · rw [hrestConsumed, hconsumed, List.length_append, Nat.add_assoc]

theorem checkpoint_ok {consumed : Nat} {reference : Option CommittedSummary}
    {verdict : String × Option Int} (h : checkpoint host consumed reference = .ok verdict) :
    ∀ summary, reference = some summary → summary.coverage = some "full day" →
      summary.events = consumed ∧ verdict.1 = "matches M2-T2" := by
  rintro summary rfl hfull
  unfold checkpoint at h
  dsimp only at h
  rw [if_neg (not_not.mpr hfull)] at h
  split at h
  · cases h
  · rename_i hsame
    cases h
    exact ⟨(not_not.mp hsame).symm, rfl⟩

/-- A report is that of sequential replay of the stored rows, whatever the batch size, the capacity
of the queue and the interleavings of the threads; a full-day summary that it passed has the same
number of events. -/
theorem run_sequential {reader : BatchReader BookRow} {arguments : RunArguments w}
    {directory : String} {files : List (ParquetFile BookRow)}
    {committed : Except ReplayInputError (Option CommittedSummary)} {report : RunReport w}
    (hsize : 1 ≤ arguments.batchSize)
    (h : run host threads reader arguments directory files committed = .ok report) :
    ∃ replayer, (∀ row ∈ stored files, row.Sided) ∧
      BookReplayer.applyRows {} ((stored files).map BookRow.read) = .ok () replayer ∧
      report.events = (stored files).length ∧ report.replay = replayer.stats ∧
      report.bidLevels = replayer.book.levelCount .bid ∧
      report.askLevels = replayer.book.levelCount .ask ∧
      report.top25Sha256 = host.sha256 (dumpCsv host.toChars replayer.book arguments.depth) ∧
      ∀ summary, committed = .ok (some summary) → summary.coverage = some "full day" →
        summary.events = (stored files).length ∧ report.checkpoint = "matches M2-T2" := by
  unfold run at h
  simp only [bind_ok, mapError_ok, pure_ok] at h
  obtain ⟨found, hfound, s, hs, reference, hreference, verdict, hverdict, rfl⟩ := h
  obtain rfl : found = files := by
    unfold partitionFiles at hfound
    split at hfound
    · cases hfound
    · exact (Except.ok.inj hfound).symm
  obtain ⟨hsided, happlied, hconsumed⟩ := runBatches_ok hs
  rw [iterParquetBatches_flatten reader found hsize] at hsided happlied hconsumed
  rw [Nat.zero_add] at hconsumed
  refine ⟨s.replayer, hsided, happlied, hconsumed, rfl, rfl, rfl, rfl, ?_⟩
  intro summary hsummary hfull
  rw [hreference] at hsummary
  obtain ⟨hevents, hmatches⟩ := checkpoint_ok hverdict summary (Except.ok.inj hsummary) hfull
  rw [hconsumed] at hevents
  exact ⟨hevents, hmatches⟩

/-! ### A day of three rows -/

def plainHost : RunPipeline.Host where
  sha256 := String.ofList
  toChars := wholeText
  repr coverage := coverage.getD "None"

def openingArguments : RunArguments 8 := ⟨"0GUSDT", "2026-06-01", 4, 2, 25⟩

/-- What the tool says of the day, the threads taking turns. -/
def openingRun (committed : Option CommittedSummary) : Except RunError (RunReport 8) :=
  run plainHost (.inTurn 8) chunkReader openingArguments "book" openingDay (.ok committed)

theorem run_sequential_openingDay : ∃ report, openingRun none = .ok report ∧
    report.events = 3 ∧ report.bidLevels = 2 ∧ ∃ replayer,
      BookReplayer.applyRows {} ((stored openingDay).map BookRow.read) = .ok () replayer ∧
        report.replay = replayer.stats := by
  have hrun : (openingRun none).map (fun report => (report.events, report.bidLevels)) =
      .ok (3, 2) := by decide +kernel
  cases hreport : openingRun none with
  | error e => rw [hreport] at hrun; cases hrun
  | ok report =>
    rw [hreport] at hrun
    simp only [Except.map, Except.ok.injEq, Prod.mk.injEq] at hrun
    obtain ⟨replayer, _, happlied, _, hreplay, _⟩ := run_sequential (by decide) hreport
    exact ⟨report, rfl, hrun.1, hrun.2, replayer, happlied, hreplay⟩

end Replayed

/-! ## Against the harness -/

section Harness

variable {maxEvents : Option Int} {events : BatchReader BookRow}
  {images : BatchReader Ingestion.SnapshotRow} {corpus : ExportCorpus} {args : ExportArguments}
  {day : ExportReport} {rnd : Rounding}

/-- The day is exported whole, the harness makes a summary of the files, and the summary is
committed. Whatever the batches, the queue and the threads do, once all the batches are through the
report is that of the harness. -/
theorem checkpoint_matches {w : Nat} {host : Host} {threads : Threads w}
    {writer : CsvWriter} {reference : Text} {options : ValidationOptions}
    {summary : ValidationSummary} {reader : BatchReader BookRow} {arguments : RunArguments w}
    {directory : String} {s : Progress}
    (hwriter : writer.Documented) (hwhole : args.maxEvents = none) (hsize : 1 ≤ args.batchSize)
    (hexport : exportDay events images corpus args = .ok day)
    (hstored : ∀ row ∈ day.eventsCsv, row.Storable rnd writer.double)
    (hvalid : validate rnd (eventsText writer day.eventsCsv) reference options =
      .ok summary)
    (hbatch : 1 ≤ arguments.batchSize)
    (hcalls : Lib.run (runBatch threads arguments.queueCapacity) {}
      (iterParquetBatches reader corpus.eventFiles arguments.batchSize) = .ok s) :
    ∃ report, run host threads reader arguments directory corpus.eventFiles
        (.ok (some ⟨some "full day", summary.events⟩)) = .ok report ∧
      report.events = summary.events ∧ report.replay = summary.replay ∧
      report.checkpoint = "matches M2-T2" ∧
      report.checkpointExpectedEvents = some summary.events := by
  obtain ⟨hfiles, hcsv, _⟩ := exportDay_all hwhole hsize hexport
  obtain ⟨us, replayer, hus, happlied, hreplay, hevents⟩ := validate_replays hvalid
  rw [eventsText_read hwriter hstored, hcsv, List.map_map] at hus
  obtain rfl : (stored corpus.eventFiles).map BookRow.read = us := Except.ok.inj hus
  obtain ⟨_, hrun, hconsumed⟩ := runBatches_ok hcalls
  rw [iterParquetBatches_flatten reader corpus.eventFiles hbatch] at hrun hconsumed
  have hsame : s.replayer = replayer := by
    have hboth := hrun.symm.trans happlied
    cases hboth
    rfl
  have hcount : (s.consumed : Int) = summary.events := by
    rw [hevents, List.length_map, hconsumed, Nat.zero_add]
    rfl
  have hcheck : checkpoint host s.consumed (some ⟨some "full day", summary.events⟩) =
      .ok ("matches M2-T2", some summary.events) := by
    unfold checkpoint
    dsimp only
    rw [if_neg (not_not.mpr rfl), if_neg (not_not.mpr hcount)]
  have hfound : partitionFiles "incremental_book_L2" arguments.symbol arguments.date directory
      corpus.eventFiles = .ok corpus.eventFiles := by
    unfold partitionFiles
    rw [hfiles]
    rfl
  refine ⟨report host arguments s ("matches M2-T2", some summary.events), ?_, hcount, ?_, rfl, rfl⟩
  · unfold run
    simp only [bind_ok, mapError_ok, pure_ok]
    exact ⟨_, hfound, s, hcalls, _, rfl, _, hcheck, rfl⟩
  · rw [hreplay, ← hsame]
    rfl

theorem checkpoint_matches_openingDay : ∃ summary report,
    validate exact (eventsText wholeWriter openingExport.eventsCsv)
      (referenceText wholeWriter openingExport.referenceCsv) {} = .ok summary ∧
    openingRun (some ⟨some "full day", summary.events⟩) = .ok report ∧
      report.events = summary.events ∧ report.replay = summary.replay ∧
      report.checkpoint = "matches M2-T2" := by
  have hexport : exportDay chunkReader chunkReader openingCorpus
      ⟨"0GUSDT", "2026-06-01", none, 2⟩ = .ok openingExport := by decide +kernel
  have hcalls : (Lib.run (runBatch (.inTurn 8) openingArguments.queueCapacity) {}
      (iterParquetBatches chunkReader openingDay 2)).isOk = true := by decide +kernel
  have hvalid : (validate exact (eventsText wholeWriter openingExport.eventsCsv)
      (referenceText wholeWriter openingExport.referenceCsv) {}).isOk = true := by decide +kernel
  cases hs : Lib.run (runBatch (.inTurn 8) openingArguments.queueCapacity) {}
      (iterParquetBatches chunkReader openingDay 2) with
  | error e => rw [hs] at hcalls; cases hcalls
  | ok s =>
    cases hsummary : validate exact (eventsText wholeWriter openingExport.eventsCsv)
        (referenceText wholeWriter openingExport.referenceCsv) {} with
    | error f => rw [hsummary] at hvalid; cases hvalid
    | ok summary =>
      obtain ⟨report, hrun, hevents, hreplay, hmatches, _⟩ := @checkpoint_matches chunkReader
        chunkReader openingCorpus _ openingExport exact 8 plainHost (.inTurn 8) wholeWriter _ {}
        summary chunkReader openingArguments "book" s wholeWriter_documented rfl
        (by decide) hexport openingDay_storable.1 hsummary (by decide) hs
      exact ⟨summary, report, rfl, hrun, hevents, hreplay, hmatches⟩

end Harness

end RunPipeline
end Tools
end PerpCarry
