import Mathlib.Data.List.TakeWhile
import PerpCarry.Book.Refinement
import PerpCarry.Book.Replayer

/-!
# Book.Meaning

What a replay means, said about the rows alone.

* `lastBlock rows`: the rows from the start of the last maximal run of snapshot rows onward.
* `lastWrites rows`: the map in which the last row at a price decides.
* `meaning rows`: the statistics as counts over the stream.

`Meaning rows r` says that `r` is the state these describe. `apply_meaning` is the step,
`applyRows_meaning` the run; the two hidden flags of the replayer are what the last row and the
emptiness of the stream say (`previous`, `started`).
-/

namespace PerpCarry

open Lib Book

/-! ## The declarative side -/

/-- The last row at a price decides; a zero quantity leaves nothing there. -/
def lastWrites (rows : List BookUpdate) : BookMap := fun side price =>
  (rows.reverse.find? fun u => u.side = side ∧ u.price = price).bind fun u =>
    if u.quantity = .zero then none else some u.quantity

/-- From the start of the last maximal run of snapshot rows onward: that run and the diffs after. -/
def lastBlock (rows : List BookUpdate) : List BookUpdate :=
  let diffs := rows.reverse.takeWhile fun u => !u.isSnapshot
  let snapshots := (rows.reverse.dropWhile fun u => !u.isSnapshot).takeWhile fun u => u.isSnapshot
  (diffs ++ snapshots).reverse

def snapshotAt (rows : List BookUpdate) (i : Nat) : Bool := (rows[i]?.map (·.isSnapshot)).getD false

/-- Row `i` is a snapshot row and no snapshot row stands right before it. -/
def opensRun (rows : List BookUpdate) (i : Nat) : Bool :=
  snapshotAt rows i && (i == 0 || !snapshotAt rows (i - 1))

/-- The number of maximal runs of snapshot rows, counted at their first rows. -/
def snapshotRuns (rows : List BookUpdate) : Nat := (List.range rows.length).countP (opensRun rows)

/-- Some bid is at or above some ask. -/
def BookMap.Crossed (m : BookMap) : Prop :=
  ∃ bid bidQuantity ask askQuantity, m .bid bid = some bidQuantity ∧ m .ask ask = some askQuantity ∧
    ask.le bid = true

open Classical in
/-- The number of nonempty prefixes that leave a crossed book. -/
noncomputable def crossedPrefixes (rows : List BookUpdate) : Nat :=
  (List.range rows.length).countP fun i => (lastWrites (lastBlock (rows.take (i + 1)))).Crossed

noncomputable def meaning (rows : List BookUpdate) : Stats where
  applied := rows.length
  resyncs := (snapshotRuns rows - 1 : Nat)
  snapshotRows := rows.countP fun u => u.isSnapshot
  removals := rows.countP fun u => u.quantity.eq .zero
  crossed := crossedPrefixes rows
  lastTimestamp := (rows.getLast?.map (·.timestamp)).getD 0

/-! ## One more row -/

variable (rows : List BookUpdate) (u : BookUpdate)

theorem lastWrites_snoc :
    lastWrites (rows ++ [u]) = (lastWrites rows).write u.side u.price u.quantity := by
  funext side price
  simp only [lastWrites, List.reverse_append, List.reverse_singleton, List.singleton_append,
    BookMap.write, List.find?_cons]
  by_cases h : side = u.side ∧ price = u.price
  · simp [h.1, h.2]
  · have h' : ¬ (u.side = side ∧ u.price = price) := fun hc => h ⟨hc.1.symm, hc.2.symm⟩
    rw [if_neg h, decide_eq_false h']

theorem lastBlock_diff (h : u.isSnapshot = false) :
    lastBlock (rows ++ [u]) = lastBlock rows ++ [u] := by
  simp [lastBlock, h]

theorem lastBlock_continues (h : u.isSnapshot = true) {last : BookUpdate}
    (hl : rows.getLast? = some last) (hs : last.isSnapshot = true) :
    lastBlock (rows ++ [u]) = lastBlock rows ++ [u] := by
  obtain ⟨pre, rfl⟩ := List.getLast?_eq_some_iff.mp hl
  simp [lastBlock, h, hs]

theorem lastBlock_opens (h : u.isSnapshot = true)
    (hl : ∀ last, rows.getLast? = some last → last.isSnapshot = false) :
    lastBlock (rows ++ [u]) = [u] := by
  cases hlast : rows.getLast? with
  | none =>
    rw [List.getLast?_eq_none_iff] at hlast
    subst hlast
    simp [lastBlock, h]
  | some last =>
    have := hl last hlast
    obtain ⟨pre, rfl⟩ := List.getLast?_eq_some_iff.mp hlast
    simp [lastBlock, h, this]

theorem snapshotAt_append {i : Nat} (h : i < rows.length) :
    snapshotAt (rows ++ [u]) i = snapshotAt rows i := by
  simp [snapshotAt, List.getElem?_append_left h]

theorem opensRun_append {i : Nat} (h : i < rows.length) :
    opensRun (rows ++ [u]) i = opensRun rows i := by
  simp only [opensRun, snapshotAt_append rows u h, snapshotAt_append rows u (by omega : i - 1 < _)]

theorem snapshotRuns_snoc :
    snapshotRuns (rows ++ [u]) =
      snapshotRuns rows + if opensRun (rows ++ [u]) rows.length then 1 else 0 := by
  simp only [snapshotRuns, List.length_append, List.length_singleton, List.range_succ,
    List.countP_append, List.countP_singleton]
  congr 1
  refine List.countP_congr fun i hi => ?_
  rw [opensRun_append rows u (List.mem_range.mp hi)]

theorem opensRun_last (h : rows ≠ []) {last : BookUpdate} (hl : rows.getLast? = some last) :
    opensRun (rows ++ [u]) rows.length = (u.isSnapshot && !last.isSnapshot) := by
  have hpos : 0 < rows.length := List.length_pos_iff.mpr h
  have hprev : snapshotAt (rows ++ [u]) (rows.length - 1) = last.isSnapshot := by
    rw [snapshotAt_append rows u (by omega), snapshotAt, ← List.getLast?_eq_getElem?, hl]
    rfl
  have hlast : snapshotAt (rows ++ [u]) rows.length = u.isSnapshot := by simp [snapshotAt]
  have hne : (rows.length == 0) = false := by simpa using h
  simp only [opensRun, hlast, hprev, hne, Bool.false_or]

theorem crossedPrefixes_snoc [Decidable (lastWrites (lastBlock (rows ++ [u]))).Crossed] :
    crossedPrefixes (rows ++ [u]) =
      crossedPrefixes rows + if (lastWrites (lastBlock (rows ++ [u]))).Crossed then 1 else 0 := by
  simp only [crossedPrefixes, List.length_append, List.length_singleton, List.range_succ,
    List.countP_append, List.countP_singleton]
  congr 1
  · refine List.countP_congr fun i hi => ?_
    rw [List.take_append_of_le_length (by have := List.mem_range.mp hi; omega)]
  · rw [List.take_of_length_le (by simp)]
    simp

theorem Refines.crossed_iff {book : OrderBook} {m : BookMap} (h : Refines book m) :
    book.isCrossed = true ↔ m.Crossed := by
  rw [book.isCrossed_iff]
  constructor
  · rintro ⟨bid, ask, hbid, hask, hle⟩
    exact ⟨_, _, _, _, ((h.bestBid_some bid).mp hbid).1, ((h.bestAsk_some ask).mp hask).1, hle⟩
  · rintro ⟨bid, bq, ask, aq, hbid, hask, hle⟩
    cases hb : book.bestBid with
    | none =>
      rw [OrderBook.bestBid, h.best_none .bid] at hb
      rw [hb bid] at hbid
      cases hbid
    | some b =>
      cases ha : book.bestAsk with
      | none =>
        rw [OrderBook.bestAsk, h.best_none .ask] at ha
        rw [ha ask] at hask
        cases hask
      | some a =>
        obtain ⟨hb', hbmax⟩ := (h.bestBid_some b).mp hb
        obtain ⟨ha', hamin⟩ := (h.bestAsk_some a).mp ha
        refine ⟨b, a, rfl, rfl, ?_⟩
        have h1 := hamin _ _ hask
        have h2 := hbmax _ _ hbid
        exact Double.le_trans (Double.le_trans h1 hle) h2

/-! ## The replayer's state -/

/-- `r` is the state that the rows accepted so far describe. -/
structure Meaning (rows : List BookUpdate) (r : BookReplayer) : Prop where
  refines : Refines r.book (lastWrites (lastBlock rows))
  stats : r.stats = meaning rows
  started : r.started = !rows.isEmpty
  previous : r.previousWasSnapshot = (rows.getLast?.map (·.isSnapshot)).getD true
  opened : rows ≠ [] → 0 < snapshotRuns rows

theorem meaning_initial : Meaning [] {} where
  refines := refines_empty
  stats := rfl
  started := rfl
  previous := rfl
  opened := fun h => absurd rfl h

section Step

variable {rows} {u} {r r' : BookReplayer}

/-- The row opens a new block exactly when the flags say so. -/
theorem Meaning.resync_map (h : Meaning rows r) :
    Refines (r.resync u).book (if u.isSnapshot = true ∧ r.previousWasSnapshot = false then .empty
      else lastWrites (lastBlock rows)) ∧
    lastWrites (lastBlock (rows ++ [u])) =
      BookMap.write (if u.isSnapshot = true ∧ r.previousWasSnapshot = false then .empty
        else lastWrites (lastBlock rows)) u.side u.price u.quantity := by
  by_cases hs : u.isSnapshot = true
  · cases hlast : rows.getLast? with
    | none =>
      have hprev : r.previousWasSnapshot = true := by rw [h.previous, hlast]; rfl
      have hnil := List.getLast?_eq_none_iff.mp hlast
      rw [if_neg (by simp [hprev]), BookReplayer.resync_of_not (by simp [hprev]),
        lastBlock_opens rows u hs (by simp [hlast])]
      refine ⟨h.refines, ?_⟩
      rw [hnil]
      exact lastWrites_snoc [] u
    | some last =>
      have hprev : r.previousWasSnapshot = last.isSnapshot := by rw [h.previous, hlast]; rfl
      cases hls : last.isSnapshot with
      | true =>
        rw [hls] at hprev
        rw [if_neg (by simp [hprev]), BookReplayer.resync_of_not (by simp [hprev]),
          lastBlock_continues rows u hs hlast hls, lastWrites_snoc]
        exact ⟨h.refines, rfl⟩
      | false =>
        rw [hls] at hprev
        rw [if_pos ⟨hs, hprev⟩, lastBlock_opens rows u hs (by simp [hlast, hls])]
        refine ⟨?_, lastWrites_snoc [] u⟩
        simpa [BookReplayer.resync, hs, hprev] using refines_clear r.book
  · rw [if_neg (fun hc => hs hc.1), BookReplayer.resync_of_not (fun hc => hs hc.1),
      lastBlock_diff rows u (by simpa using hs), lastWrites_snoc]
    exact ⟨h.refines, rfl⟩

/-- Blocks after the first are the resyncs. -/
theorem Meaning.resync_count (h : Meaning rows r) (hadm : BookReplayer.Admitted r u) :
    (r.resync u).stats.resyncs = (snapshotRuns (rows ++ [u]) - 1 : Nat) ∧
      0 < snapshotRuns (rows ++ [u]) := by
  have hcount : r.stats.resyncs = (snapshotRuns rows - 1 : Nat) := by rw [h.stats]; rfl
  rw [snapshotRuns_snoc]
  cases hlast : rows.getLast? with
  | none =>
    have hnil := List.getLast?_eq_none_iff.mp hlast
    subst hnil
    have hs : u.isSnapshot = true := hadm.opened h.started
    have hprev : r.previousWasSnapshot = true := h.previous
    rw [BookReplayer.resync_of_not (by simp [hprev]), hcount]
    simp [snapshotRuns, opensRun, snapshotAt, hs]
  | some last =>
    have hne : rows ≠ [] := by rintro rfl; simp at hlast
    have hprev : r.previousWasSnapshot = last.isSnapshot := by rw [h.previous, hlast]; rfl
    have hpos := h.opened hne
    rw [opensRun_last rows u hne hlast, BookReplayer.resync, hprev]
    cases hc : u.isSnapshot && !last.isSnapshot
    · simp [hcount, hpos]
    · simp only [if_true, hcount]
      omega

theorem apply_meaning (h : Meaning rows r) (ha : r.apply u = .ok () r') : Meaning (rows ++ [u]) r' := by
  obtain ⟨hadm, book, hbook, rfl⟩ := BookReplayer.apply_ok_inv ha
  have hacc : Acceptable u.price u.quantity := OrderBook.apply_acceptable hbook
  obtain ⟨hres, hmap⟩ := h.resync_map (u := u)
  obtain ⟨hcount, hpos⟩ := h.resync_count hadm
  have hrefines : Refines book (lastWrites (lastBlock (rows ++ [u]))) := by
    rw [hmap]
    exact refines_write hres hacc hbook
  have hother : (r.resync u).stats = { meaning rows with resyncs := (r.resync u).stats.resyncs } := by
    rw [← h.stats, BookReplayer.resync]
    split <;> rfl
  refine ⟨hrefines, ?_, by simp [BookReplayer.record], by simp [BookReplayer.record], fun _ => hpos⟩
  simp only [BookReplayer.record]
  rw [hother, hcount]
  apply Stats.ext
  · simp [meaning]
  · rfl
  · simp [meaning, List.countP_append, List.countP_singleton]; split <;> simp
  · simp [meaning, List.countP_append, List.countP_singleton]; split <;> simp
  · classical
    simp only [meaning, crossedPrefixes_snoc, hrefines.crossed_iff]
    split <;> simp
  · simp [meaning]

theorem applyRows_meaning {rest : List BookUpdate} (h : Meaning rows r)
    (ha : r.applyRows rest = .ok () r') : Meaning (rows ++ rest) r' := by
  induction rest generalizing rows r with
  | nil => cases ha; simpa using h
  | cons u us ih =>
    obtain ⟨r₁, hu, ha⟩ := BookReplayer.applyRows_cons_ok.mp ha
    have := ih (apply_meaning h hu) ha
    simpa using this

end Step

/-- A replay accepted in any pieces is described by its rows. -/
theorem replay_meaning (cs : List BookReplayer.ReplayCall) {r : BookReplayer}
    (h : BookReplayer.calls {} cs = .ok () r) :
    let rows := cs.flatMap BookReplayer.ReplayCall.rows
    r.book.WellFormed ∧
    (∀ side price quantity, ⟨price, quantity⟩ ∈ r.book.levels side ↔
      lastWrites (lastBlock rows) side price = some quantity) ∧
    r.stats = meaning rows ∧ (rows ≠ [] → 0 < snapshotRuns rows) := by
  intro rows
  rw [BookReplayer.calls_eq_applyRows] at h
  have hm : Meaning rows r := by simpa using applyRows_meaning meaning_initial h
  exact ⟨hm.refines.wellFormed, hm.refines.entries, hm.stats, hm.opened⟩

/-- An opening block, a diff that crosses the book, and a resync, in two calls. -/
def resyncedDay : List BookReplayer.ReplayCall :=
  [.applyBatch [.snap 1000 .bid 99 5, .snap 1000 .ask 101 7, .diff 1001 .bid 102 1],
    .apply (.snap 2000 .ask 50 4)]

def resyncedState : BookReplayer where
  book := { bids := [], asks := [⟨.finite 50, .finite 4⟩] }
  stats := { applied := 4, resyncs := 1, snapshotRows := 3, crossed := 1, lastTimestamp := 2000 }
  started := true
  previousWasSnapshot := true

theorem replay_meaning_resyncedDay :
    resyncedState.stats = meaning (resyncedDay.flatMap BookReplayer.ReplayCall.rows) :=
  (replay_meaning resyncedDay (r := resyncedState) (by decide)).2.2.1

end PerpCarry
