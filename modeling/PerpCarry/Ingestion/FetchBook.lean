import Mathlib.Data.List.Sort
import PerpCarry.Lib.Chunks
import PerpCarry.Lib.EventRun
import PerpCarry.Pipeline.Batch

/-!
# Ingestion.FetchBook

The ingest of one day of the incremental feed: `python/perpcarry/ingestion/fetch_book.py`.

The file is read in chunks, and each chunk is counted with whole-column operations. Three values go
from one chunk to the next: whether the last row was a snapshot, whether a row that is none has been
seen, and how many chunks there were. `Counted` says what the counts mean for all the rows so far,
without the chunks.

* `normalise_ok`: a chunk is accepted row by row.
* `ingestFrame_counted`: one chunk keeps the meaning of the counts.
* `applyRows_counted`: the replayer counts the same over the same rows.
* `ingest_agrees`: the report against the replay, whatever the chunks.
-/

namespace PerpCarry
namespace Ingestion

open Lib (refuse refuse_ok)
open Pipeline
open Strategy (bind_ok pure_ok)

/-! ## Rows of the file -/

/-- A row of the vendor's file. A number is `none` where `astype` raises on its text; times are
microseconds. -/
structure RawRow where
  exchange : String
  symbol : String
  timestamp : Option Int
  localTimestamp : Option Int
  isSnapshot : String
  side : String
  price : Option Double
  amount : Option Double
  deriving DecidableEq

/-- The string methods of a column, `str.strip` and `str.lower`. -/
structure Text where
  strip : String → String
  lower : String → String

/-- A UTC day and its number since 1970-01-01. -/
structure Day where
  iso : String
  number : Int
  deriving DecidableEq

/-- `BookDataError`, or the `ValueError` of `astype`. -/
inductive IngestError where
  | wrongFile (symbol : String) (found : List String)
  | unknownSides (found : List String)
  | unparseable (found : List String)
  | notANumber (column : String)
  | strayDays (symbol : String) (day : Day) (stray : List Int)
  | notOpened (symbol : String) (day : Day)
  | noRows (symbol : String) (day : Day)
  deriving DecidableEq

/-- `sorted(set(values))[:5]`. -/
def firstFew (values : List String) : List String :=
  (values.dedup.insertionSort fun a b => a ≤ b).take 5

section Normalise

variable (text : Text)

/-- The value of the side column, stripped and lowered. -/
def RawRow.sideText (self : RawRow) : String := text.lower (text.strip self.side)

def RawRow.flagText (self : RawRow) : String := text.lower (text.strip self.isSnapshot)

/-- A row on the schema; the latency is taken before the times are cut to milliseconds. -/
def RawRow.stored (self : RawRow) : BookRow :=
  let timestampUs := self.timestamp.getD 0
  let localUs := self.localTimestamp.getD 0
  { exchange := text.strip self.exchange
    timestamp := timestampUs / 1000
    localTimestamp := localUs / 1000
    latencyUs := localUs - timestampUs
    isSnapshot := self.flagText text = "true"
    side := self.sideText text
    price := self.price.getD .nan
    quantity := self.amount.getD .nan }

/-- `_check_symbol`. -/
def checkSymbol (raw : List RawRow) (symbol : String) : Except IngestError Unit :=
  let symbols := raw.map fun row => text.strip row.symbol
  refuse (∃ found ∈ symbols, found ≠ symbol) (.wrongFile symbol (firstFew symbols))

/-- `_check_day`. -/
def checkDay (frame : List BookRow) (symbol : String) (day : Day) : Except IngestError Unit :=
  let stray := (frame.map fun row => row.timestamp / 86400000).filter (· ≠ day.number)
  refuse (stray ≠ []) (.strayDays symbol day (stray.dedup.insertionSort (· ≤ ·)))

def normalise (raw : List RawRow) (symbol : String) (day : Day) :
    Except IngestError (List BookRow) :=
  if raw.isEmpty then .ok []
  else do
    checkSymbol text raw symbol
    let unknown := (raw.map (·.sideText text)).filter fun side => side ≠ "bid" ∧ side ≠ "ask"
    refuse (unknown ≠ []) (.unknownSides (firstFew unknown))
    refuse (∃ row ∈ raw, row.timestamp = none) (.notANumber "timestamp")
    refuse (∃ row ∈ raw, row.localTimestamp = none) (.notANumber "local_timestamp")
    let bad := raw.filter fun row => row.flagText text ≠ "true" ∧ row.flagText text ≠ "false"
    refuse (bad ≠ []) (.unparseable (firstFew (bad.map (·.isSnapshot))))
    refuse (∃ row ∈ raw, row.price = none) (.notANumber "price")
    refuse (∃ row ∈ raw, row.amount = none) (.notANumber "amount")
    let frame := raw.map (·.stored text)
    checkDay frame symbol day
    return frame

/-- A row that a chunk may hold. -/
structure RawRow.Accepted (row : RawRow) (symbol : String) (day : Day) : Prop where
  symbol : text.strip row.symbol = symbol
  side : (row.stored text).Sided
  timestamp : row.timestamp ≠ none
  localTimestamp : row.localTimestamp ≠ none
  flag : row.flagText text = "true" ∨ row.flagText text = "false"
  price : row.price ≠ none
  amount : row.amount ≠ none
  day : (row.stored text).timestamp / 86400000 = day.number

variable {text} {raw : List RawRow} {symbol : String} {day : Day} {frame : List BookRow}

theorem normalise_ok : normalise text raw symbol day = .ok frame ↔
    (∀ row ∈ raw, row.Accepted text symbol day) ∧ frame = raw.map (·.stored text) := by
  unfold normalise
  split
  · rename_i hempty
    rw [List.isEmpty_iff.mp hempty]
    simp [eq_comm]
  · simp only [checkSymbol, checkDay, bind_ok, pure_ok, refuse_ok, ne_eq, not_not,
      List.filter_eq_nil_iff, List.mem_map, forall_exists_index, and_imp, decide_eq_true_eq,
      not_exists, not_and]
    constructor
    · rintro ⟨_, hsymbol, _, hside, _, htime, _, hlocal, _, hflag, _, hprice, _, hamount, _, hday,
        rfl⟩
      refine ⟨?_, rfl⟩
      intro row hrow
      constructor
      · exact hsymbol _ row hrow rfl
      · have := hside _ row hrow rfl
        unfold BookRow.Sided
        show row.sideText text = "bid" ∨ row.sideText text = "ask"
        tauto
      · exact htime row hrow
      · exact hlocal row hrow
      · have := hflag row hrow
        tauto
      · exact hprice row hrow
      · exact hamount row hrow
      · exact hday _ _ row hrow rfl rfl
    · rintro ⟨hall, rfl⟩
      refine ⟨(), ?_, (), ?_, (), ?_, (), ?_, (), ?_, (), ?_, (), ?_, (), ?_, rfl⟩
      · rintro _ row hrow rfl
        exact (hall row hrow).symbol
      · rintro _ row hrow rfl hbid
        rcases (hall row hrow).side with hside | hside
        · exact absurd hside hbid
        · exact hside
      · intro row hrow
        exact (hall row hrow).timestamp
      · intro row hrow
        exact (hall row hrow).localTimestamp
      · intro row hrow htrue
        rcases (hall row hrow).flag with hflag | hflag
        · exact absurd hflag htrue
        · exact hflag
      · intro row hrow
        exact (hall row hrow).price
      · intro row hrow
        exact (hall row hrow).amount
      · rintro _ _ row hrow rfl rfl
        exact (hall row hrow).day

end Normalise

/-! ## `ingest` -/

structure IngestReport where
  symbol : String
  date : String
  dataset : String
  rows : Nat
  chunks : Nat
  snapshotRows : Nat
  resyncEvents : Nat
  resyncRows : Int
  removals : Nat
  deriving DecidableEq

/-- What the loop keeps from chunk to chunk; `stored` is what the writer has written. -/
structure Ingested where
  rows : Nat := 0
  chunks : Nat := 0
  snapshotRows : Nat := 0
  removals : Nat := 0
  resyncEvents : Nat := 0
  openingRows : Nat := 0
  seenNonSnapshot : Bool := false
  prevSnapshot : Bool := true
  stored : List BookRow := []

/-- `series.shift(1, fill_value=fill)`. -/
def shift (fill : Bool) (series : List Bool) : List Bool := (fill :: series).take series.length

/-- `series.idxmin()`, of a series that is not all true. -/
def idxmin (series : List Bool) : Nat := series.findIdx fun value => !value

/-- `(snapshot & ~previous).sum()`. -/
def blockStarts (snapshot previous : List Bool) : Nat :=
  (snapshot.zipWith (fun now before => now && !before) previous).countP id

/-- The body of the loop, for a chunk of the incremental feed. -/
def ingestFrame (symbol : String) (day : Day) (s : Ingested) (frame : List BookRow) :
    Except IngestError Ingested :=
  if frame.isEmpty then .ok s
  else do
    let snapshot := frame.map (·.isSnapshot)
    refuse (s.chunks = 0 ∧ snapshot.head? = some false) (.notOpened symbol day)
    let previous := shift s.prevSnapshot snapshot
    return {
      rows := s.rows + frame.length
      chunks := s.chunks + 1
      snapshotRows := s.snapshotRows + snapshot.countP id
      removals := s.removals + frame.countP fun row => row.quantity.eq .zero
      resyncEvents := s.resyncEvents + blockStarts snapshot previous
      openingRows := s.openingRows +
        (if s.seenNonSnapshot then 0
        else if snapshot.all id then snapshot.length
        else idxmin snapshot)
      seenNonSnapshot := s.seenNonSnapshot || !snapshot.all id
      prevSnapshot := snapshot.getLast?.getD s.prevSnapshot
      stored := s.stored ++ frame }

def ingestChunk (text : Text) (symbol : String) (day : Day) (s : Ingested)
    (chunk : List RawRow) : Except IngestError Ingested := do
  let frame ← normalise text chunk symbol day
  ingestFrame symbol day s frame

/-- `IngestReport(...)`. -/
def Ingested.report (self : Ingested) (symbol : String) (day : Day) : IngestReport where
  symbol := symbol
  date := day.iso
  dataset := "incremental_book_L2"
  rows := self.rows
  chunks := self.chunks
  snapshotRows := self.snapshotRows
  resyncEvents := self.resyncEvents
  resyncRows := self.snapshotRows - self.openingRows
  removals := self.removals

/-- The report, and the rows of the partition it is about. -/
def ingest (text : Text) (symbol : String) (day : Day) (chunksize : Nat) (raw : List RawRow) :
    Except IngestError (IngestReport × List BookRow) := do
  let s ← Lib.run (ingestChunk text symbol day) {} (Lib.chunks chunksize raw)
  refuse (s.rows = 0) (.noRows symbol day)
  return (s.report symbol day, s.stored)

/-! ## The counts without the chunks -/

/-- The snapshot rows that follow a row that is none. -/
def resyncs : Bool → List Bool → Nat
  | _, [] => 0
  | before, now :: rest => (if now && !before then 1 else 0) + resyncs now rest

/-- What the counts mean for all the rows so far. -/
structure Counted (s : Ingested) (rows : List BookRow) : Prop where
  length : s.rows = rows.length
  started : s.chunks = 0 ↔ rows = []
  snapshots : s.snapshotRows = rows.countP (·.isSnapshot)
  removals : s.removals = rows.countP fun row => row.quantity.eq .zero
  events : s.resyncEvents = resyncs true (rows.map (·.isSnapshot))
  opening : s.openingRows = (rows.takeWhile (·.isSnapshot)).length
  seen : s.seenNonSnapshot = !rows.all (·.isSnapshot)
  previous : s.prevSnapshot = (rows.map (·.isSnapshot)).getLastD true
  stored : s.stored = rows

section Counting

theorem blockStarts_shift (fill : Bool) (series : List Bool) :
    blockStarts series (shift fill series) = resyncs fill series := by
  unfold blockStarts
  induction series generalizing fill with
  | nil => rfl
  | cons now rest ih =>
    have hshift : shift fill (now :: rest) = fill :: shift now rest := by
      simp [shift]
    rw [hshift, List.zipWith_cons_cons, List.countP_cons, ih, resyncs, Nat.add_comm]
    rfl

theorem resyncs_append (before : Bool) (first second : List Bool) :
    resyncs before (first ++ second) =
      resyncs before first + resyncs (first.getLastD before) second := by
  induction first generalizing before with
  | nil => simp [resyncs]
  | cons now rest ih =>
    rw [List.cons_append, resyncs, ih, resyncs, List.getLastD_cons, Nat.add_assoc]

/-- The first row that is no snapshot, wherever the chunk with it begins. -/
theorem opening_append (rows frame : List BookRow) :
    ((rows ++ frame).takeWhile (·.isSnapshot)).length =
      (rows.takeWhile (·.isSnapshot)).length +
        if rows.all (·.isSnapshot) then (frame.takeWhile (·.isSnapshot)).length else 0 := by
  rw [List.takeWhile_append]
  split
  · rename_i hlength
    have hall : rows.all (·.isSnapshot) = true := by
      rw [List.all_eq_true]
      intro row hrow
      have hprefix : rows.takeWhile (·.isSnapshot) = rows :=
        (List.takeWhile_prefix _).eq_of_length hlength
      rw [← hprefix] at hrow
      exact List.mem_takeWhile_imp hrow
    rw [if_pos hall, List.length_append, hlength]
  · rename_i hlength
    rw [if_neg, Nat.add_zero]
    intro hall
    rw [List.takeWhile_eq_self_iff.mpr (by simpa using hall)] at hlength
    exact hlength rfl

theorem idxmin_takeWhile (frame : List BookRow) :
    (if (frame.map (·.isSnapshot)).all id then (frame.map (·.isSnapshot)).length
      else idxmin (frame.map (·.isSnapshot))) = (frame.takeWhile (·.isSnapshot)).length := by
  induction frame with
  | nil => rfl
  | cons row frame ih =>
    cases hrow : row.isSnapshot with
    | false => simp [idxmin, hrow, List.findIdx_cons]
    | true =>
      rw [List.takeWhile_cons, if_pos hrow, List.length_cons, ← ih]
      simp only [List.map_cons, hrow, List.all_cons, id, Bool.true_and, List.length_cons, idxmin,
        List.findIdx_cons, Bool.not_true, cond_false]
      split
      · rfl
      · rfl

variable {symbol : String} {day : Day} {s s' : Ingested} {rows frame : List BookRow}

/-- A chunk that is taken opens with a snapshot, if it is the first. -/
theorem ingestFrame_ok (hne : frame ≠ []) (h : ingestFrame symbol day s frame = .ok s') :
    ¬ (s.chunks = 0 ∧ (frame.map (·.isSnapshot)).head? = some false) := by
  unfold ingestFrame at h
  rw [if_neg (by simpa using hne)] at h
  obtain ⟨_, hopen, _⟩ := bind_ok.mp h
  exact refuse_ok.mp hopen

/-- One chunk keeps the meaning of the counts. -/
theorem ingestFrame_counted (h : Counted s rows) (hs : ingestFrame symbol day s frame = .ok s') :
    Counted s' (rows ++ frame) := by
  unfold ingestFrame at hs
  split at hs
  · rename_i hempty
    cases hs
    rw [List.isEmpty_iff.mp hempty, List.append_nil]
    exact h
  · rename_i hempty
    obtain ⟨_, _, hs⟩ := bind_ok.mp hs
    cases hs
    have hne : frame ≠ [] := by simpa using hempty
    constructor
    · show s.rows + frame.length = _
      rw [h.length, List.length_append]
    · simp [hne]
    · show s.snapshotRows + (frame.map (·.isSnapshot)).countP id = _
      rw [h.snapshots, List.countP_append, List.countP_map]
      rfl
    · show s.removals + _ = _
      rw [h.removals, List.countP_append]
    · show s.resyncEvents + blockStarts _ (shift s.prevSnapshot _) = _
      rw [h.events, blockStarts_shift, List.map_append, resyncs_append, h.previous]
    · show s.openingRows + (if s.seenNonSnapshot then 0
        else if (frame.map (·.isSnapshot)).all id then (frame.map (·.isSnapshot)).length
        else idxmin (frame.map (·.isSnapshot))) = _
      rw [h.opening, h.seen, idxmin_takeWhile, opening_append]
      cases rows.all (·.isSnapshot) with
      | true => rfl
      | false => rfl
    · show (s.seenNonSnapshot || !(frame.map (·.isSnapshot)).all id) = _
      rw [h.seen, List.all_append, List.all_map]
      cases rows.all (·.isSnapshot) with
      | true => simp
      | false => simp
    · show (frame.map (·.isSnapshot)).getLast?.getD s.prevSnapshot = _
      rw [h.previous, List.map_append, List.getLastD_eq_getLast?, List.getLastD_eq_getLast?,
        List.getLast?_append]
      cases (frame.map (·.isSnapshot)).getLast? with
      | none => rfl
      | some last => rfl
    · show s.stored ++ frame = _
      rw [h.stored]

variable {text : Text} {pieces : List (List RawRow)}

theorem run_counted (hs : Lib.run (ingestChunk text symbol day) s pieces = .ok s')
    {done : List RawRow} (h : Counted s (done.map (·.stored text))) :
    (∀ row ∈ pieces.flatten, row.Accepted text symbol day) ∧
      Counted s' ((done ++ pieces.flatten).map (·.stored text)) := by
  induction pieces generalizing s done with
  | nil =>
    cases hs
    exact ⟨(fun _ h => nomatch h), by simpa using h⟩
  | cons piece pieces ih =>
    obtain ⟨s₁, hstep, hrest⟩ := Lib.run_cons_ok.mp hs
    obtain ⟨frame, hframe, hstep⟩ := bind_ok.mp hstep
    obtain ⟨haccepted, rfl⟩ := normalise_ok.mp hframe
    have hnext := ingestFrame_counted h hstep
    rw [← List.map_append] at hnext
    obtain ⟨hothers, hcounted⟩ := ih hrest hnext
    rw [List.flatten_cons]
    refine ⟨?_, by rw [← List.append_assoc]; exact hcounted⟩
    intro row hrow
    rcases List.mem_append.mp hrow with hrow | hrow
    · exact haccepted row hrow
    · exact hothers row hrow

/-- Chunks of accepted rows are all taken, if the first row is a snapshot. -/
theorem run_accepted (hpieces : ∀ piece ∈ pieces, piece ≠ [])
    (hrows : ∀ row ∈ pieces.flatten, row.Accepted text symbol day) {done : List RawRow}
    (h : Counted s (done.map (·.stored text)))
    (hopen : ∀ row ∈ (done ++ pieces.flatten).head?, (row.stored text).isSnapshot = true) :
    ∃ s', Lib.run (ingestChunk text symbol day) s pieces = .ok s' := by
  induction pieces generalizing s done with
  | nil => exact ⟨s, rfl⟩
  | cons piece pieces ih =>
    have hne := hpieces piece (List.mem_cons_self ..)
    rw [List.flatten_cons] at hrows hopen
    have hframe : normalise text piece symbol day = .ok (piece.map (·.stored text)) :=
      normalise_ok.mpr ⟨fun row hrow => hrows row (List.mem_append_left _ hrow), rfl⟩
    have hfirst : ¬ (s.chunks = 0 ∧
        ((piece.map (·.stored text)).map (·.isSnapshot)).head? = some false) := by
      rintro ⟨hzero, hfalse⟩
      have hdone : done = [] := by simpa using h.started.mp hzero
      cases piece with
      | nil => exact hne rfl
      | cons row piece =>
        have := hopen row (by rw [hdone]; rfl)
        simp [this] at hfalse
    obtain ⟨s₁, hstep⟩ : ∃ s₁, ingestFrame symbol day s (piece.map (·.stored text)) = .ok s₁ := by
      unfold ingestFrame
      rw [if_neg (by simpa using hne)]
      refine ⟨_, bind_ok.mpr ⟨(), refuse_ok.mpr hfirst, rfl⟩⟩
    have hnext := ingestFrame_counted h hstep
    rw [← List.map_append] at hnext
    obtain ⟨s', hrest⟩ := ih (fun piece hmem => hpieces piece (List.mem_cons_of_mem _ hmem))
      (fun row hrow => hrows row (List.mem_append_right _ hrow)) hnext
      (by rw [List.append_assoc]; exact hopen)
    exact ⟨s', Lib.run_cons_ok.mpr ⟨s₁, bind_ok.mpr ⟨_, hframe, hstep⟩, hrest⟩⟩

end Counting

/-! ## The replay of the stored rows -/

theorem record_counts (r : BookReplayer) (u : BookUpdate) (book : OrderBook) :
    ((r.resync u).record u book).stats.applied = r.stats.applied + 1 ∧
      ((r.resync u).record u book).stats.snapshotRows =
        r.stats.snapshotRows + (if u.isSnapshot then 1 else 0) ∧
      ((r.resync u).record u book).stats.removals =
        r.stats.removals + (if u.quantity.eq .zero then 1 else 0) ∧
      ((r.resync u).record u book).stats.resyncs =
        r.stats.resyncs + (if u.isSnapshot && !r.previousWasSnapshot then 1 else 0) := by
  unfold BookReplayer.resync BookReplayer.record
  cases u.isSnapshot <;> cases r.previousWasSnapshot <;> cases u.quantity.eq .zero <;> simp

/-- The replayer's counts, over the rows it has taken. -/
theorem applyRows_counted {r r' : BookReplayer} {rows : List BookRow}
    (h : r.applyRows (rows.map BookRow.read) = .ok () r') :
    r'.stats.applied = r.stats.applied + rows.length ∧
      r'.stats.snapshotRows = r.stats.snapshotRows + rows.countP (·.isSnapshot) ∧
      r'.stats.removals = r.stats.removals + rows.countP (fun row => row.quantity.eq .zero) ∧
      r'.stats.resyncs =
        r.stats.resyncs + resyncs r.previousWasSnapshot (rows.map (·.isSnapshot)) := by
  induction rows generalizing r with
  | nil =>
    cases h
    simp [resyncs]
  | cons row rows ih =>
    obtain ⟨r₁, hrow, h⟩ := BookReplayer.applyRows_cons_ok.mp h
    obtain ⟨hadm, book, _, rfl⟩ := BookReplayer.apply_ok_inv hrow
    obtain ⟨happlied, hsnapshots, hremovals, hresyncs⟩ := ih h
    obtain ⟨happlied', hsnapshots', hremovals', hresyncs'⟩ := record_counts r row.read book
    refine ⟨?_, ?_, ?_, ?_⟩
    · rw [happlied, happlied', List.length_cons]
      push_cast
      ring
    · rw [hsnapshots, hsnapshots', List.countP_cons]
      show _ + (if row.isSnapshot then 1 else 0) + _ = _
      push_cast
      ring
    · rw [hremovals, hremovals', List.countP_cons]
      show _ + (if row.quantity.eq .zero then 1 else 0) + _ = _
      push_cast
      ring
    · rw [hresyncs, hresyncs', List.map_cons, resyncs]
      show _ + (if row.isSnapshot && !r.previousWasSnapshot then 1 else 0) +
        (resyncs row.isSnapshot _ : Int) = _
      push_cast
      ring

/-! ## Ingest and replay -/

section Agreement

variable {text : Text} {symbol : String} {day : Day} {chunksize : Nat} {raw : List RawRow}
  {report : IngestReport} {stored : List BookRow}

/-- A file that is ingested, in whatever chunks. -/
structure Ingestible (text : Text) (symbol : String) (day : Day) (raw : List RawRow) : Prop where
  accepted : ∀ row ∈ raw, row.Accepted text symbol day
  opened : ∀ row ∈ raw.head?, (row.stored text).isSnapshot = true
  nonempty : raw ≠ []

/-- What a report says of the rows, all but the number of chunks. -/
structure Describes (report : IngestReport) (symbol : String) (day : Day)
    (stored : List BookRow) : Prop where
  scope : report.symbol = symbol ∧ report.date = day.iso ∧ report.dataset = "incremental_book_L2"
  rows : report.rows = stored.length
  snapshotRows : report.snapshotRows = stored.countP (·.isSnapshot)
  removals : report.removals = stored.countP fun row => row.quantity.eq .zero
  resyncEvents : report.resyncEvents = resyncs true (stored.map (·.isSnapshot))
  resyncRows : report.resyncRows =
    ((stored.dropWhile (·.isSnapshot)).countP (·.isSnapshot) : Nat)

theorem counted_nil : Counted {} [] := by
  constructor <;> simp [resyncs]

/-- The snapshot rows are those of the opening block and those behind it. -/
theorem snapshot_split (rows : List BookRow) :
    rows.countP (·.isSnapshot) = (rows.takeWhile (·.isSnapshot)).length +
      (rows.dropWhile (·.isSnapshot)).countP (·.isSnapshot) := by
  have hopening : (rows.takeWhile (·.isSnapshot)).countP (·.isSnapshot) =
      (rows.takeWhile (·.isSnapshot)).length :=
    List.countP_eq_length.mpr fun row hrow => List.mem_takeWhile_imp hrow
  rw [← hopening, ← List.countP_append, List.takeWhile_append_dropWhile]

theorem run_opened {pieces : List (List RawRow)} {s' : Ingested}
    (hs : Lib.run (ingestChunk text symbol day) {} pieces = .ok s')
    (hpieces : ∀ piece ∈ pieces, piece ≠ []) :
    ∀ row ∈ pieces.flatten.head?, (row.stored text).isSnapshot = true := by
  cases pieces with
  | nil => exact fun _ h => nomatch h
  | cons piece pieces =>
    cases piece with
    | nil => exact absurd rfl (hpieces [] (List.mem_cons_self ..))
    | cons row piece =>
      obtain ⟨s₁, hstep, _⟩ := Lib.run_cons_ok.mp hs
      obtain ⟨frame, hframe, hstep⟩ := bind_ok.mp hstep
      obtain ⟨_, rfl⟩ := normalise_ok.mp hframe
      rintro _ ⟨⟩
      by_contra hdiff
      refine ingestFrame_ok (by simp) hstep ⟨rfl, ?_⟩
      simpa using hdiff

theorem ingest_ok (hsize : 1 ≤ chunksize)
    (h : ingest text symbol day chunksize raw = .ok (report, stored)) :
    Ingestible text symbol day raw ∧ stored = raw.map (·.stored text) ∧
      Describes report symbol day stored := by
  unfold ingest at h
  obtain ⟨s, hrun, h⟩ := bind_ok.mp h
  obtain ⟨_, hrows, h⟩ := bind_ok.mp h
  cases h
  have hflatten := Lib.chunks_flatten hsize raw
  have hstart : Counted {} (([] : List RawRow).map (·.stored text)) := counted_nil
  obtain ⟨haccepted, hcounted⟩ := run_counted hrun hstart
  have hopened := run_opened hrun fun piece hmem => Lib.chunks_ne_nil hsize hmem
  rw [hflatten] at haccepted hopened hcounted
  rw [refuse_ok, hcounted.length] at hrows
  refine ⟨⟨haccepted, hopened, ?_⟩, hcounted.stored, ?_⟩
  · rintro rfl
    exact hrows rfl
  · have hstored := hcounted.stored
    rw [List.nil_append] at hcounted hstored
    rw [← hstored] at hcounted
    refine ⟨⟨rfl, rfl, rfl⟩, hcounted.length, hcounted.snapshots, hcounted.removals,
      hcounted.events, ?_⟩
    show (s.snapshotRows : Int) - s.openingRows = _
    rw [hcounted.snapshots, hcounted.opening, snapshot_split s.stored]
    push_cast
    ring

/-- An ingestible file is ingested in chunks of every size. -/
theorem ingest_chunks (hsize : 1 ≤ chunksize) (h : Ingestible text symbol day raw) :
    ∃ report, ingest text symbol day chunksize raw = .ok (report, raw.map (·.stored text)) := by
  have hflatten := Lib.chunks_flatten hsize raw
  have hstart : Counted {} (([] : List RawRow).map (·.stored text)) := counted_nil
  obtain ⟨s, hrun⟩ := run_accepted (fun piece hmem => Lib.chunks_ne_nil hsize hmem)
    (by rw [hflatten]; exact h.accepted) hstart (by rw [hflatten]; exact h.opened)
  obtain ⟨_, hcounted⟩ := run_counted hrun hstart
  rw [hflatten, List.nil_append] at hcounted
  have hrows : ¬ s.rows = 0 := by
    rw [hcounted.length, List.length_map]
    exact mt List.length_eq_zero_iff.mp h.nonempty
  refine ⟨s.report symbol day, bind_ok.mpr ⟨s, hrun, bind_ok.mpr ⟨(), refuse_ok.mpr hrows, ?_⟩⟩⟩
  rw [← hcounted.stored]
  rfl

/-- The report and the replayer's statistics say the same of the stored rows, and the snapshot rows
behind the first other row are counted. -/
structure Agrees (report : IngestReport) (stored : List BookRow) (stats : Stats) : Prop where
  rows : report.rows = stats.applied
  snapshotRows : report.snapshotRows = stats.snapshotRows
  resyncEvents : report.resyncEvents = stats.resyncs
  removals : report.removals = stats.removals
  resyncRows : report.resyncRows =
    ((stored.dropWhile (·.isSnapshot)).countP (·.isSnapshot) : Nat)

/-- A file that is ingested and replayed: the counts agree, and other chunks give the same rows and
the same report but for the number of chunks. -/
theorem ingest_agrees {updates : List BookUpdate} {r : BookReplayer} (hsize : 1 ≤ chunksize)
    (h : ingest text symbol day chunksize raw = .ok (report, stored))
    (hupdates : updatesFromBatch stored = .ok updates)
    (hreplay : ({} : BookReplayer).applyRows updates = .ok () r) :
    Agrees report stored r.stats ∧ ∀ other, 1 ≤ other → ∃ chunks,
      ingest text symbol day other raw = .ok ({ report with chunks }, stored) := by
  obtain ⟨hfile, rfl, hdescribes⟩ := ingest_ok hsize h
  obtain ⟨_, rfl⟩ := updatesFromBatch_ok.mp hupdates
  obtain ⟨happlied, hsnapshots, hremovals, hresyncs⟩ := applyRows_counted hreplay
  refine ⟨?_, ?_⟩
  · constructor
    · rw [hdescribes.rows, happlied]
      exact (Int.zero_add _).symm
    · rw [hdescribes.snapshotRows, hsnapshots]
      exact (Int.zero_add _).symm
    · rw [hdescribes.resyncEvents, hresyncs]
      exact (Int.zero_add _).symm
    · rw [hdescribes.removals, hremovals]
      exact (Int.zero_add _).symm
    · exact hdescribes.resyncRows
  · intro other hother
    obtain ⟨report', hreport'⟩ := ingest_chunks hother hfile
    obtain ⟨_, _, hdescribes'⟩ := ingest_ok hother hreport'
    refine ⟨report'.chunks, ?_⟩
    rw [hreport']
    have hsame : report' = { report with chunks := report'.chunks } := by
      obtain ⟨⟨hsymbol, hdate, hdataset⟩, hrows, hs, hr, he, hrr⟩ := hdescribes
      obtain ⟨⟨hsymbol', hdate', hdataset'⟩, hrows', hs', hr', he', hrr'⟩ := hdescribes'
      cases report
      cases report'
      simp only at *
      subst_vars
      rfl
    rw [← hsame]

end Agreement

/-! ## A resync block cut in two -/

def asciiText : Text := ⟨fun s => s, fun s => s⟩

def rawRow (offsetUs : Int) (flag side : String) (price amount : ℚ) : RawRow where
  exchange := "binance-futures"
  symbol := "0GUSDT"
  timestamp := some (1780272000000000 + offsetUs)
  localTimestamp := some (1780272000001500 + offsetUs)
  isSnapshot := flag
  side := side
  price := some (.finite price)
  amount := some (.finite amount)

/-- An opening block, a removal, and a block of two rows. -/
def resyncedFile : List RawRow := [
  rawRow 0 "true" "bid" 99 5, rawRow 0 "true" "ask" 101 5,
  rawRow 1000 "false" "bid" 99 0,
  rawRow 2000 "true" "bid" 98 4, rawRow 2000 "true" "ask" 102 4]

def resyncedDay : Day := ⟨"2026-06-01", 20605⟩

/-- Chunks of two and of four rows, each of which cuts a block. -/
theorem ingest_agrees_resynced :
    ∃ (report : IngestReport) (stored : List BookRow) (r : BookReplayer),
      report.chunks = 3 ∧ report.resyncEvents = 1 ∧ Agrees report stored r.stats ∧ ∃ chunks,
        ingest asciiText "0GUSDT" resyncedDay 4 resyncedFile =
          .ok ({ report with chunks }, stored) := by
  have hrun : (ingest asciiText "0GUSDT" resyncedDay 2 resyncedFile).toOption.any (fun s =>
      decide (s.1.chunks = 3 ∧ s.1.resyncEvents = 1 ∧ s.2 = resyncedFile.map (·.stored asciiText) ∧
        (({} : BookReplayer).applyRows (s.2.map BookRow.read)).thrown = none)) = true := by
    decide +kernel
  cases hingest : ingest asciiText "0GUSDT" resyncedDay 2 resyncedFile with
  | error e =>
    rw [hingest] at hrun
    cases hrun
  | ok s =>
    rw [hingest] at hrun
    obtain ⟨hchunks, hevents, hstored, hthrown⟩ := of_decide_eq_true hrun
    cases hreplay : ({} : BookReplayer).applyRows (s.2.map BookRow.read) with
    | error e r =>
      rw [hreplay] at hthrown
      cases hthrown
    | ok x r =>
      have hsided : ∀ row ∈ s.2, row.Sided := by
        rw [hstored]
        decide +kernel
      obtain ⟨hagrees, hother⟩ := ingest_agrees (by decide) hingest
        (updatesFromBatch_ok.mpr ⟨hsided, rfl⟩) hreplay
      exact ⟨s.1, s.2, r, hchunks, hevents, hagrees, hother 4 (by decide)⟩

end Ingestion
end PerpCarry
