import PerpCarry.Tools.ExportText
import PerpCarry.Tools.PassVerdict

/-!
# Tools.ValidateBook

Whole days through the export and the harness: `python/perpcarry/tools/validate_book.py`, with the
exit code of `cpp/tools/replay_validate_main.cpp`.

* `exportDay_all`: without a budget all the stored rows are written.
* `validate_total`: the harness makes a summary of any two files that it can read and replay.
* `validate_book_exact`: the days that pass, from their stored rows alone.
-/

namespace PerpCarry
namespace Tools

open Lib (map_ok)
open Ingestion (SnapshotRow)
open Pipeline (BookRow)
open Strategy (bind_ok pure_ok)

/-- The rows of a partition, in the order of its files. -/
def stored (files : List (ParquetFile BookRow)) : List BookRow :=
  (files.map List.flatten).flatten

namespace ValidateBook

/-- `input_sha256`: for each dataset the digests of its files. -/
abbrev Fingerprints := List (String × List (String × String))

/-- The fields of `replay.json` that are read; the dictionary of a missing file has none. -/
structure Payload where
  passed : Option Bool := none
  events : Option Int := none
  deriving DecidableEq

/-- The report of a day, as it is written. -/
structure DayReport where
  symbol : String
  date : String
  coverage : String := "full day"
  passed : Bool
  replay : Payload
  inputSha256 : Fingerprints
  deriving DecidableEq

/-- What the tool finds when a day has its turn: the partitions, their digests before the export and
behind the harness, and the `replay.json` of an earlier run. -/
structure Day where
  date : String
  corpus : ExportCorpus
  before : Fingerprints
  after : Fingerprints
  stale : Option Payload

/-- The libraries behind the export and the harness. -/
structure Host where
  events : BatchReader BookRow
  reference : BatchReader SnapshotRow
  writer : CsvWriter
  rnd : Rounding

/-- The exit code of the harness with a summary. -/
def exitCode : Verdict → Nat
  | .pass => 0
  | .fail => 1
  | .inconclusive => 3

/-- `main` of the harness with three arguments: the exit code, and what is at the third. -/
def replayValidate (rnd : Rounding) (events reference : Text) (stale : Option Payload) :
    Nat × Option Payload :=
  match validate rnd events reference { diagnostics := true } with
  | .error _ => (2, stale)
  | .ok summary =>
    (exitCode summary.verdict, some ⟨some (summary.verdict = .pass), some summary.events⟩)

/-- `DEFAULT_BATCH_SIZE` of the export. -/
def DEFAULT_BATCH_SIZE : Nat := 1000000

theorem batchSize_pos : 1 ≤ DEFAULT_BATCH_SIZE := by decide

section Main

variable (host : Host) (symbol : String)

def exportWhole (day : Day) : Except ExportError ExportReport :=
  exportDay host.events host.reference day.corpus ⟨symbol, day.date, none, DEFAULT_BATCH_SIZE⟩

/-- The body of the loop over the days. -/
def validateDay (day : Day) : Except ExportError DayReport := do
  let exported ← exportWhole host symbol day
  let (returncode, written) := replayValidate host.rnd
    (eventsText host.writer exported.eventsCsv)
    (referenceText host.writer exported.referenceCsv) day.stale
  let payload := written.getD {}
  let passed := decide (returncode = 0) && payload.passed.getD false
  let passed := passed && decide (payload.events = some exported.events) && !exported.truncated
  let passed := passed && decide (day.before = day.after)
  return {
    symbol
    date := day.date
    passed
    replay := payload
    inputSha256 := day.after }

/-- `main`: the reports that are written, and the exit code unless an export raises. -/
def main : List Day → List DayReport × Except ExportError Nat
  | [] => ([], .ok 0)
  | day :: days =>
    match validateDay host symbol day with
    | .error e => ([], .error e)
    | .ok report =>
      if !report.passed then ([report], .ok 1)
      else
        let rest := main days
        (report :: rest.1, rest.2)

end Main

/-! ## The export without a budget -/

section Whole

variable {events : BatchReader BookRow} {images : BatchReader SnapshotRow} {corpus : ExportCorpus}
  {args : ExportArguments} {exported : ExportReport}

/-- Every batch is written, or one of them has no rows. -/
theorem exportEvents_all {s s' : EventExport} {batches : List (List BookRow)}
    (hnone : s.budgetEnd = none) (h : exportEvents none s batches = .ok s') :
    s' = s.wrote batches.flatten := by
  induction batches generalizing s with
  | nil =>
    cases h
    exact (wrote_nil _).symm
  | cons batch batches ih =>
    have hbatch : batch ≠ [] := by
      rintro rfl
      simp [exportEvents, exportBatch, hnone, overBudget, writeEvents, Except.map] at h
    have hstep : exportBatch none s batch = .ok (s.wrote batch, false) :=
      exportBatch_within hnone hbatch rfl
    rw [exportEvents, hstep] at h
    rw [List.flatten_cons, ← wrote_append]
    exact ih hnone h

theorem exportDay_all (hwhole : args.maxEvents = none) (hsize : 1 ≤ args.batchSize)
    (h : exportDay events images corpus args = .ok exported) :
    corpus.eventFiles.isEmpty = false ∧
      exported.eventsCsv = (stored corpus.eventFiles).map toEvent ∧
      exported.events = (stored corpus.eventFiles).length ∧ exported.truncated = false := by
  unfold exportDay at h
  simp only [bind_ok, hwhole] at h
  obtain ⟨files, hfiles, _, _, s, hs, h⟩ := h
  unfold partitionFiles at hfiles
  split at hfiles
  · cases hfiles
  · rename_i hsome
    cases hfiles
    rw [exportEvents_all rfl hs, iterParquetBatches_flatten events corpus.eventFiles hsize] at h
    split at h
    · cases h
    · cases h
      exact ⟨Bool.eq_false_iff.mpr hsome, rfl, Int.zero_add _, rfl⟩

end Whole

/-! ## The harness makes a summary -/

section Total

variable {rnd : Rounding} {fuel : Nat} {stream : EventStream} {replayer r : BookReplayer}
  {back : List BookUpdate} {options : ValidationOptions} {v : Validation}

/-- The rows left are read, and replay accepts them. -/
structure Ahead (rnd : Rounding) (r : BookReplayer) (stream : EventStream)
    (replayer : BookReplayer) : Prop where
  replays : ∃ back, stream.rows (readEvent rnd) = .ok back ∧ replayer.applyRows back = .ok () r

theorem eventRows_cons {u : BookUpdate} (hpending : stream.pending = some u)
    (hrows : stream.rows (readEvent rnd) = .ok back) :
    ∃ rest next, back = u :: rest ∧ EventStream.advance rnd stream = .ok next ∧
      next.rows (readEvent rnd) = .ok rest := by
  rw [Lookahead.rows, hpending] at hrows
  obtain ⟨rest, hrest, rfl⟩ := map_ok.mp hrows
  obtain ⟨next, hadvance, hnext⟩ := rows_of_lines hrest
  exact ⟨rest, next, rfl, hadvance, hnext⟩

theorem applyWhile_total {p : BookUpdate → Bool} (h : Ahead rnd r stream replayer) :
    ∃ stream' replayer' n, applyWhile rnd p fuel stream replayer = .ok (stream', replayer', n) ∧
      Ahead rnd r stream' replayer' := by
  induction fuel generalizing stream replayer with
  | zero => exact ⟨stream, replayer, 0, rfl, h⟩
  | succ fuel ih =>
    unfold applyWhile
    cases hpending : stream.pending with
    | none => exact ⟨stream, replayer, 0, rfl, h⟩
    | some u =>
      obtain ⟨back, hback, happlied⟩ := h.replays
      obtain ⟨rest, next, rfl, hadvance, hrest⟩ := eventRows_cons hpending hback
      obtain ⟨replayer₁, hu, happlied⟩ := BookReplayer.applyRows_cons_ok.mp happlied
      dsimp only
      cases hp : p u with
      | false => exact ⟨stream, replayer, 0, rfl, h⟩
      | true =>
        obtain ⟨stream', replayer', n, hloop, hahead⟩ := ih ⟨rest, hrest, happlied⟩
        refine ⟨stream', replayer', n + 1, ?_, hahead⟩
        simp only [hu, hadvance, hloop]
        rfl

theorem compareImage_total {image : ReferenceImage} {hasMore : Bool}
    (h : Ahead rnd r v.stream v.replayer) :
    ∃ v', compareImage rnd options image hasMore v = .ok v' ∧
      Ahead rnd r v'.stream v'.replayer := by
  obtain ⟨before, earlier, n, hbefore, hahead⟩ :=
    @applyWhile_total rnd v.stream.left _ _ _ (fun u => u.timestamp < image.timestamp) h
  obtain ⟨stream, replayer, group, hat, hahead⟩ :=
    @applyWhile_total rnd before.left _ _ _ (fun u => u.timestamp = image.timestamp) hahead
  unfold compareImage
  simp only [hbefore, hat]
  refine ⟨_, rfl, ?_⟩
  rw [classify_stream, classify_replayer]
  exact hahead

theorem validateImages_total {images : ReferenceStream} {pics : List ReferenceImage}
    (h : Ahead rnd r v.stream v.replayer) (hpics : images.images rnd fuel = .ok pics) :
    ∃ v', validateImages rnd options fuel images v = .ok v' ∧
      Ahead rnd r v'.stream v'.replayer := by
  induction fuel generalizing images v pics with
  | zero => exact ⟨v, rfl, h⟩
  | succ fuel ih =>
    unfold ReferenceStream.images at hpics
    unfold validateImages
    cases hnext : images.next rnd with
    | error f =>
      rw [hnext] at hpics
      cases hpics
    | ok next =>
      rw [hnext] at hpics
      cases next with
      | none => exact ⟨v, rfl, h⟩
      | some found =>
        obtain ⟨image, images'⟩ := found
        obtain ⟨v₁, hcompare, hahead⟩ :=
          @compareImage_total rnd r options v image images'.hasMore h
        obtain ⟨rest, hrest, _⟩ := map_ok.mp hpics
        obtain ⟨v', hloop, hahead⟩ := ih hahead hrest
        refine ⟨v', ?_, hahead⟩
        simp only [hcompare]
        exact hloop

/-- The harness makes a summary of two files that it can read, when replay accepts the events. -/
theorem validate_total {events reference : Text} {us : List BookUpdate}
    {pics : List ReferenceImage} (hevents : eventRows rnd events = .ok us)
    (hpics : referenceImages rnd reference = .ok pics)
    (happlied : BookReplayer.applyRows {} us = .ok () r) :
    ∃ summary, validate rnd events reference options = .ok summary := by
  unfold eventRows at hevents
  unfold referenceImages at hpics
  unfold validate
  cases hstream : EventStream.make rnd events with
  | error f =>
    rw [hstream] at hevents
    cases hevents
  | ok stream =>
    rw [hstream] at hevents
    cases himages : ReferenceStream.make rnd reference with
    | error f =>
      rw [himages] at hpics
      cases hpics
    | ok images =>
      rw [himages] at hpics
      obtain ⟨v, hloop, hahead⟩ := @validateImages_total rnd images.left r options { stream }
        images pics ⟨us, hevents, happlied⟩ hpics
      obtain ⟨ended, replayer, n, hdrain, _⟩ :=
        @applyWhile_total rnd v.stream.left _ _ _ (fun _ => true) hahead
      simp only [hloop, hdrain]
      exact ⟨_, rfl⟩

theorem validate_replays {text reference : Text} {summary : ValidationSummary}
    (h : validate rnd text reference options = .ok summary) :
    ∃ us replayer, eventRows rnd text = .ok us ∧
      BookReplayer.applyRows {} us = .ok () replayer ∧ summary.replay = replayer.stats ∧
      summary.events = us.length := by
  obtain ⟨stream, refs, v, ended, replayer, n, hstream, _, hloop, hdrain, rfl⟩ := validate_ok h
  obtain ⟨us, hus, happlied, _⟩ := merge_reads hloop hdrain
  have hmeaning : Meaning us replayer := applyRows_meaning meaning_initial happlied
  have hcount : replayer.stats.applied = us.length := by
    rw [hmeaning.stats]
    rfl
  have hfinish : (finish replayer v.summary).replay = replayer.stats ∧
      (finish replayer v.summary).events = replayer.stats.applied := by
    unfold finish
    dsimp only
    split
    · exact ⟨rfl, rfl⟩
    · exact ⟨rfl, rfl⟩
  refine ⟨us, replayer, ?_, happlied, hfinish.1, hfinish.2.trans hcount⟩
  rw [eventRows, hstream]
  exact hus

end Total

/-! ## The days that pass -/

section Passing

variable {host : Host} {symbol : String} {day : Day} {days : List Day}

/-- The rows replay, and the book is that of every image with events in its millisecond. -/
def Agreeing (rows : List BookUpdate) (reference : List ReferenceRow) : Prop :=
  ∃ pics replayer, imagesOf reference = .ok pics ∧
    BookReplayer.applyRows {} rows = .ok () replayer ∧ pics ≠ [] ∧
    ∀ q ∈ pairings rows [] pics, 0 < q.2 → Agrees rows 25 q.1

/-- What it takes to pass, from the stored rows. -/
def Passes (host : Host) (symbol : String) (day : Day) : Prop :=
  day.before = day.after ∧ ∃ exported, exportWhole host symbol day = .ok exported ∧
    Agreeing ((stored day.corpus.eventFiles).map BookRow.read) exported.referenceCsv

/-- A text keeps the rows of the day. -/
def Storable (host : Host) (symbol : String) (day : Day) : Prop :=
  ∀ exported, exportWhole host symbol day = .ok exported →
    (∀ row ∈ exported.eventsCsv, row.Storable host.rnd host.writer.double) ∧
      ∀ row ∈ exported.referenceCsv, row.Storable host.rnd host.writer.double

theorem exitCode_eq_zero (verdict : Verdict) : exitCode verdict = 0 ↔ verdict = .pass := by
  cases verdict with
  | pass => exact ⟨fun _ => rfl, fun _ => rfl⟩
  | fail => exact ⟨nofun, nofun⟩
  | inconclusive => exact ⟨nofun, nofun⟩

/-- The harness passes the files of a day when the rows in them agree, and counts every event. -/
theorem replayValidate_passes {events : List EventRow} {reference : List ReferenceRow}
    (hwriter : host.writer.Documented) (stale : Option Payload)
    (hevents : ∀ row ∈ events, row.Storable host.rnd host.writer.double)
    (hreference : ∀ row ∈ reference, row.Storable host.rnd host.writer.double) :
    ∃ code payload, replayValidate host.rnd (eventsText host.writer events)
        (referenceText host.writer reference) stale = (code, payload) ∧
      (code = 0 ↔ Agreeing (events.map EventRow.read) reference) ∧
      (code = 0 → payload = some ⟨some true, some events.length⟩) := by
  have hrows := eventsText_read hwriter hevents
  have hpics := referenceImages_of_rows (referenceText_read hwriter hreference)
  unfold replayValidate
  cases hvalid : validate host.rnd (eventsText host.writer events)
      (referenceText host.writer reference) { diagnostics := true } with
  | error f =>
    refine ⟨2, stale, rfl, ⟨nofun, ?_⟩, nofun⟩
    rintro ⟨pics, replayer, himages, happlied, _⟩
    obtain ⟨summary, hsummary⟩ := validate_total hrows (hpics.trans himages) happlied
    rw [hvalid] at hsummary
    cases hsummary
  | ok summary =>
    obtain ⟨us, pics, replayer, hus, himages, happlied, hcounted⟩ := validate_counts hvalid
    obtain ⟨us', _, hus', _, _, hcount⟩ := validate_replays hvalid
    obtain rfl : us' = us := Except.ok.inj (hus'.symm.trans hus)
    obtain rfl : events.map EventRow.read = us' := Except.ok.inj (hrows.symm.trans hus)
    rw [hpics] at himages
    have hpass := verdict_pass_iff happlied hcounted
    refine ⟨_, _, rfl, ?_, ?_⟩
    · rw [exitCode_eq_zero, hpass]
      constructor
      · rintro ⟨hne, hagrees⟩
        exact ⟨pics, replayer, himages, happlied, hne, hagrees⟩
      · rintro ⟨pics', _, himages', _, hne, hagrees⟩
        obtain rfl : pics = pics' := Except.ok.inj (himages.symm.trans himages')
        exact ⟨hne, hagrees⟩
    · intro hzero
      rw [exitCode_eq_zero] at hzero
      rw [hzero, hcount, List.length_map]
      rfl

/-- The check of the count and of the truncation never decides: a day passes when its files are
those from before the export and its rows agree. -/
theorem validateDay_passed (hwriter : host.writer.Documented)
    (hstorable : Storable host symbol day) :
    (∃ report, validateDay host symbol day = .ok report ∧ report.passed = true) ↔
      Passes host symbol day := by
  unfold validateDay Passes
  cases hexport : exportWhole host symbol day with
  | error e =>
    constructor
    · rintro ⟨report, hreport, _⟩
      cases hreport
    · rintro ⟨_, exported, hexported, _⟩
      cases hexported
  | ok exported =>
    obtain ⟨hevents, hreference⟩ := hstorable exported hexport
    obtain ⟨_, hcsv, hcount, htruncated⟩ := exportDay_all rfl batchSize_pos hexport
    obtain ⟨code, payload, hcall, hcode, hpayload⟩ :=
      replayValidate_passes hwriter day.stale hevents hreference
    have hread : exported.eventsCsv.map EventRow.read =
        (stored day.corpus.eventFiles).map BookRow.read := by
      rw [hcsv, List.map_map]
      exact List.map_congr_left fun row _ => read_toEvent row
    have hlength : exported.events = exported.eventsCsv.length := by
      rw [hcount, hcsv, List.length_map]
    rw [hread] at hcode
    simp only [bind_ok, pure_ok, Except.ok.injEq, exists_eq_left', hcall, htruncated]
    by_cases hzero : code = 0
    · rw [hpayload hzero]
      simp [hzero, hlength, hcode.mp hzero]
    · simp [hzero, mt hcode.mpr hzero]

theorem main_zero : (main host symbol days).2 = .ok 0 ↔
    ∀ day ∈ days, ∃ report, validateDay host symbol day = .ok report ∧ report.passed = true := by
  induction days with
  | nil => exact ⟨fun _ => List.forall_mem_nil _, fun _ => rfl⟩
  | cons day days ih =>
    unfold main
    rw [List.forall_mem_cons]
    cases hday : validateDay host symbol day with
    | error e => simp
    | ok report =>
      cases hpassed : report.passed with
      | false => simp [hpassed]
      | true => simp [hpassed, ih]

theorem main_reports (h : (main host symbol days).2 = .ok 0) :
    List.Forall₂ (fun (day : Day) (report : DayReport) => report.date = day.date ∧
      report.passed = true ∧ report.inputSha256 = day.before) days (main host symbol days).1 := by
  induction days with
  | nil => exact .nil
  | cons day days ih =>
    unfold main at h ⊢
    cases hday : validateDay host symbol day with
    | error e =>
      rw [hday] at h
      cases h
    | ok report =>
      rw [hday] at h
      cases hpassed : report.passed with
      | false =>
        simp [hpassed] at h
      | true =>
        simp only [hpassed, Bool.not_true, Bool.false_eq_true, if_false] at h ⊢
        refine .cons ?_ (ih h)
        unfold validateDay at hday
        simp only [bind_ok, pure_ok] at hday
        obtain ⟨exported, _, rfl⟩ := hday
        simp only [Bool.and_eq_true, decide_eq_true_eq] at hpassed
        refine ⟨rfl, ?_, hpassed.2.symm⟩
        simp [hpassed]

/-- The tool ends with 0 exactly when every day passes, and then it has reported each of them. -/
theorem validate_book_exact (hwriter : host.writer.Documented)
    (hstorable : ∀ day ∈ days, Storable host symbol day) :
    ((main host symbol days).2 = .ok 0 ↔ ∀ day ∈ days, Passes host symbol day) ∧
      ((main host symbol days).2 = .ok 0 →
        List.Forall₂ (fun (day : Day) (report : DayReport) => report.date = day.date ∧
          report.passed = true ∧ report.inputSha256 = day.before) days
          (main host symbol days).1) := by
  refine ⟨?_, main_reports⟩
  rw [main_zero]
  exact forall₂_congr fun day hday => validateDay_passed hwriter (hstorable day hday)

end Passing

/-! ### A day of three rows -/

/-- An opening block of two levels, and a second bid. -/
def openingDay : List (ParquetFile BookRow) :=
  [[[⟨"binance-futures", 5000, 5003, 3100, true, "bid", .finite 53, .finite 19⟩,
      ⟨"binance-futures", 5000, 5003, 3100, true, "ask", .finite 59, .finite 7⟩]],
    [[⟨"binance-futures", 5001, 5004, 3100, false, "bid", .finite 51, .finite 2⟩]]]

def openingCorpus : ExportCorpus where
  eventFiles := openingDay
  referenceFiles := [[[⟨"binance-futures", 5001, 5004, 3100, .bid, 0, .finite 53, .finite 19⟩,
    ⟨"binance-futures", 5001, 5004, 3100, .bid, 1, .finite 51, .finite 2⟩,
    ⟨"binance-futures", 5001, 5004, 3100, .ask, 0, .finite 59, .finite 7⟩]]]
  eventDirectory := "book"
  referenceDirectory := "book_snapshot"

def openingExport : ExportReport where
  symbol := "0GUSDT"
  date := "2026-06-01"
  eventsCsv := (stored openingDay).map toEvent
  referenceCsv := [⟨5001, .bid, 0, .finite 53, .finite 19⟩, ⟨5001, .bid, 1, .finite 51, .finite 2⟩,
    ⟨5001, .ask, 0, .finite 59, .finite 7⟩]
  events := 3
  referenceRows := 3
  images := 1
  lastTimestamp := 5001
  truncated := false

theorem openingDay_storable : (∀ row ∈ openingExport.eventsCsv, row.Storable exact wholeText) ∧
    ∀ row ∈ openingExport.referenceCsv, row.Storable exact wholeText := by
  have hread : ∀ n ∈ [53, 19, 59, 7, 51, 2], ReadsBack exact wholeText (.finite (n : Nat)) := by
    have hparses : ∀ n ∈ [53, 19, 59, 7, 51, 2],
        fromCharsDouble exact (wholeText (.finite (n : Nat))) = some (.finite (n : Nat), []) := by
      decide +kernel
    exact fun n hn => wholeText_readsBack (hparses n hn)
  have hsmall : ∀ n ∈ [(0 : Int), 1, 5000, 5001, 5003, 5004], Int64 n := by
    intro n hn
    unfold Int64
    simp only [List.mem_cons, List.not_mem_nil, or_false] at hn
    omega
  constructor
  · refine List.forall_mem_cons.mpr ⟨?_, List.forall_mem_cons.mpr ⟨?_, List.forall_mem_cons.mpr
      ⟨?_, List.forall_mem_nil _⟩⟩⟩
    · exact ⟨hsmall 5000 (by simp), hsmall 5003 (by simp), .inl rfl, hread 53 (by simp),
        hread 19 (by simp)⟩
    · exact ⟨hsmall 5000 (by simp), hsmall 5003 (by simp), .inr rfl, hread 59 (by simp),
        hread 7 (by simp)⟩
    · exact ⟨hsmall 5001 (by simp), hsmall 5004 (by simp), .inl rfl, hread 51 (by simp),
        hread 2 (by simp)⟩
  · refine List.forall_mem_cons.mpr ⟨?_, List.forall_mem_cons.mpr ⟨?_, List.forall_mem_cons.mpr
      ⟨?_, List.forall_mem_nil _⟩⟩⟩
    · exact ⟨hsmall 5001 (by simp), hsmall 0 (by simp), hread 53 (by simp), hread 19 (by simp)⟩
    · exact ⟨hsmall 5001 (by simp), hsmall 1 (by simp), hread 51 (by simp), hread 2 (by simp)⟩
    · exact ⟨hsmall 5001 (by simp), hsmall 0 (by simp), hread 59 (by simp), hread 7 (by simp)⟩

def wholeHost : Host := ⟨chunkReader, chunkReader, wholeWriter, exact⟩

def openingDigests : Fingerprints :=
  [("incremental_book_L2", [("part-0.parquet", "3f7a")]),
    ("book_snapshot_25", [("part-0.parquet", "91c2")])]

/-- The digests are those from before the export; an earlier run had failed. -/
def openingDate : Day where
  date := "2026-06-01"
  corpus := openingCorpus
  before := openingDigests
  after := openingDigests
  stale := some ⟨some false, some 2⟩

theorem openingDate_exported :
    exportWhole wholeHost "0GUSDT" openingDate = .ok openingExport := by decide +kernel

theorem openingDate_storable : Storable wholeHost "0GUSDT" openingDate := by
  intro exported hexported
  rw [openingDate_exported] at hexported
  rw [← Except.ok.inj hexported]
  exact openingDay_storable

theorem validate_book_exact_openingDate : Passes wholeHost "0GUSDT" openingDate ∧
    (main wholeHost "0GUSDT" [openingDate]).1.map (fun report => (report.date, report.passed)) =
      [("2026-06-01", true)] := by
  have hzero : (main wholeHost "0GUSDT" [openingDate]).2 = .ok 0 := by decide +kernel
  obtain ⟨hpasses, hreports⟩ := @validate_book_exact wholeHost "0GUSDT" [openingDate]
    wholeWriter_documented (List.forall_mem_singleton.mpr openingDate_storable)
  refine ⟨hpasses.mp hzero openingDate List.mem_cons_self, ?_⟩
  obtain ⟨report, rest, hreport, hnone, heq⟩ := List.forall₂_cons_left_iff.mp (hreports hzero)
  rw [heq, List.forall₂_nil_left_iff.mp hnone, List.map_singleton, hreport.1, hreport.2.1]
  rfl

end ValidateBook
end Tools
end PerpCarry
