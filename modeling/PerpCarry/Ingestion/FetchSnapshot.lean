import Mathlib.Data.Prod.Lex
import PerpCarry.Ingestion.FetchBook
import PerpCarry.Lib.Melt

/-!
# Ingestion.FetchSnapshot

The reference images of one day, from wide to long: `normalise_snapshot` of
`python/perpcarry/ingestion/fetch_book.py`.

A wide row is one image, with a price and an amount for each side and level. The melt takes side
after side and level after level over a whole chunk and sorts what it found.

* `normaliseSnapshot_ok`: an accepted chunk holds the levels of its rows, one row after another.
* `meltChunks_ok`: so do all the chunks together, wherever the rows are cut.
-/

namespace PerpCarry
namespace Ingestion

open Lib
open Strategy (bind_ok pure_ok)

/-! ## The wide file -/

inductive DepthField where
  | price
  | amount
  deriving DecidableEq

/-- A column whose name is one of `asks[N].price`, `asks[N].amount` and the two of `bids`. -/
structure DepthColumn where
  side : Side
  level : Nat
  field : DepthField
  deriving DecidableEq

/-- A row of the wide file, one book image. A time is `none` where `astype` raises on its text; a
cell is NaN where `pd.to_numeric` finds no number. -/
structure WideRow where
  exchange : String
  symbol : String
  timestamp : Option Int
  localTimestamp : Option Int
  depth : DepthColumn → Double

/-- A row of the long reference. -/
structure SnapshotRow where
  exchange : String
  timestamp : Int
  localTimestamp : Int
  latencyUs : Int
  side : Side
  level : Int
  price : Double
  quantity : Double
  deriving DecidableEq

/-- `BookDataError` and `ValueError`, or the `KeyError` of a column that is not there. -/
inductive SnapshotError where
  | data (e : IngestError)
  | noDepthColumns
  | keyError (column : DepthColumn)
  deriving DecidableEq

/-- `snapshot_depth`: the levels among the columns, ascending. -/
def snapshotDepth (columns : List DepthColumn) : List Nat := unique (columns.map (·.level))

/-! ## The melt -/

/-- `astype("int16")`. -/
def int16 (n : Int) : Int := Int.bmod n (2 ^ 16)

/-- The order of the side's name: `"ask"` stands before `"bid"`. -/
def sideRank : Side → Nat
  | .ask => 0
  | .bid => 1

/-- What `sort_values` orders by. -/
def SnapshotRow.sortKey (row : SnapshotRow) : Int ×ₗ Nat ×ₗ Int :=
  toLex (row.timestamp, toLex (sideRank row.side, row.level))

section Melt

variable (text : Text)

def WideRow.timestampMs (row : WideRow) : Int := row.timestamp.getD 0 / 1000

/-- The long row of a level, when the row has a price and an amount for it. -/
def WideRow.melted (row : WideRow) (side : Side) (level : Nat) : Option SnapshotRow :=
  let price := row.depth ⟨side, level, .price⟩
  let amount := row.depth ⟨side, level, .amount⟩
  if price ≠ .nan ∧ amount ≠ .nan then
    some {
      exchange := text.strip row.exchange
      timestamp := row.timestampMs
      localTimestamp := row.localTimestamp.getD 0 / 1000
      latencyUs := row.localTimestamp.getD 0 - row.timestamp.getD 0
      side
      level := int16 level
      price
      quantity := amount }
  else none

/-- One pass of the two loops: the rows of the chunk that have the level. -/
def snapshotPiece (columns : List DepthColumn) (raw : List WideRow) (cell : Side × Nat) :
    Except SnapshotError (List SnapshotRow) :=
  let price : DepthColumn := ⟨cell.1, cell.2, .price⟩
  let amount : DepthColumn := ⟨cell.1, cell.2, .amount⟩
  if price ∉ columns then .error (.keyError price)
  else if amount ∉ columns then .error (.keyError amount)
  else .ok (raw.filterMap fun row => row.melted text cell.1 cell.2)

/-- The sides and levels, in the order of the two loops. -/
def depthCells (columns : List DepthColumn) : List (Side × Nat) :=
  [Side.ask, Side.bid].flatMap fun side => (snapshotDepth columns).map fun level => (side, level)

/-- `_check_day`. -/
def checkSnapshotDay (frame : List SnapshotRow) (symbol : String) (day : Day) :
    Except IngestError Unit :=
  let stray := (frame.map fun row => row.timestamp / 86400000).filter (· ≠ day.number)
  refuse (stray ≠ []) (.strayDays symbol day (stray.dedup.insertionSort (· ≤ ·)))

def normaliseSnapshot (columns : List DepthColumn) (raw : List WideRow) (symbol : String)
    (day : Day) : Except SnapshotError (List SnapshotRow) :=
  if raw.isEmpty then .ok []
  else do
    let symbols := raw.map fun row => text.strip row.symbol
    (refuse (∃ found ∈ symbols, found ≠ symbol) (.wrongFile symbol (firstFew symbols))).mapError
      .data
    if snapshotDepth columns = [] then .error .noDepthColumns
    else
      (refuse (∃ row ∈ raw, row.timestamp = none) (.notANumber "timestamp")).mapError .data
      (refuse (∃ row ∈ raw, row.localTimestamp = none) (.notANumber "local_timestamp")).mapError
        .data
      let pieces ← (depthCells columns).mapM (snapshotPiece text columns raw)
      -- with no piece at all the result is empty as well
      let frame := sortValues SnapshotRow.sortKey pieces.flatten
      (checkSnapshotDay frame symbol day).mapError .data
      return frame

/-- The chunks one after the other, and their frames as one. -/
def meltChunks (columns : List DepthColumn) (symbol : String) (day : Day)
    (chunks : List (List WideRow)) : Except SnapshotError (List SnapshotRow) :=
  (chunks.mapM fun raw => normaliseSnapshot text columns raw symbol day).map List.flatten

end Melt

/-! ## What a melted chunk holds -/

/-- The columns of a wide snapshot: both fields of both sides at each level, and levels that
`int16` keeps. -/
structure BookSnapshot (columns : List DepthColumn) : Prop where
  nonempty : columns ≠ []
  complete : ∀ level ∈ snapshotDepth columns, ∀ side field, ⟨side, level, field⟩ ∈ columns
  narrow : ∀ level ∈ snapshotDepth columns, level < 2 ^ 15

section Melted

variable (text : Text) (columns : List DepthColumn)

def WideRow.meltedAt (cell : Side × Nat) (row : WideRow) : Option SnapshotRow :=
  row.melted text cell.1 cell.2

/-- The long rows of a wide row: asks before bids, best first. -/
def WideRow.longRows (row : WideRow) : List SnapshotRow :=
  cellsOf (WideRow.meltedAt text) (depthCells columns) row

/-- A wide row that a chunk may hold. The day is looked at where the row has a level. -/
structure WideRow.Accepted (row : WideRow) (symbol : String) (day : Day) : Prop where
  symbol : text.strip row.symbol = symbol
  timestamp : row.timestamp ≠ none
  localTimestamp : row.localTimestamp ≠ none
  day : row.longRows text columns ≠ [] → row.timestampMs / 86400000 = day.number

/-- Strictly in order of time. -/
def Chronological (raw : List WideRow) : Prop :=
  raw.Pairwise fun row row' => row.timestampMs < row'.timestampMs

variable {text columns} {row : WideRow} {raw : List WideRow} {symbol : String} {day : Day}

theorem int16_of_lt {n : Nat} (h : n < 2 ^ 15) : int16 n = n := by
  unfold int16
  rw [Int.bmod_eq_of_le]
  · omega
  · omega

theorem snapshotDepth_ne (h : BookSnapshot columns) : snapshotDepth columns ≠ [] := by
  intro hnil
  obtain ⟨column, hmem⟩ := List.exists_mem_of_ne_nil _ h.nonempty
  have hlevel : column.level ∈ snapshotDepth columns :=
    mem_unique.mpr (List.mem_map.mpr ⟨column, hmem, rfl⟩)
  rw [hnil] at hlevel
  cases hlevel

theorem mem_depthCells {cell : Side × Nat} :
    cell ∈ depthCells columns ↔ cell.2 ∈ snapshotDepth columns := by
  obtain ⟨side, level⟩ := cell
  cases side <;> simp [depthCells]

/-- The two loops run in the order of the sort. -/
theorem depthCells_ordered (columns : List DepthColumn) :
    (depthCells columns).Pairwise fun cell cell' =>
      toLex (sideRank cell.1, cell.2) < toLex (sideRank cell'.1, cell'.2) := by
  have hside : ∀ side : Side, ((snapshotDepth columns).map fun level => (side, level)).Pairwise
      fun cell cell' => toLex (sideRank cell.1, cell.2) < toLex (sideRank cell'.1, cell'.2) := by
    intro side
    rw [List.pairwise_map]
    refine (unique_increasing _).imp ?_
    intro level level' hlt
    exact Prod.Lex.toLex_lt_toLex.mpr (.inr ⟨rfl, hlt⟩)
  unfold depthCells
  rw [List.pairwise_flatMap]
  refine ⟨fun side _ => hside side, ?_⟩
  refine List.pairwise_pair.mpr ?_
  intro cell hcell cell' hcell'
  obtain ⟨level, -, rfl⟩ := List.mem_map.mp hcell
  obtain ⟨level', -, rfl⟩ := List.mem_map.mp hcell'
  exact Prod.Lex.toLex_lt_toLex.mpr (.inl Nat.zero_lt_one)

theorem melted_key {cell : Side × Nat} {long : SnapshotRow} (hlevel : cell.2 < 2 ^ 15)
    (h : row.meltedAt text cell = some long) :
    long.sortKey = toLex (row.timestampMs, toLex (sideRank cell.1, (cell.2 : Int))) := by
  unfold WideRow.meltedAt WideRow.melted at h
  dsimp only at h
  split at h
  · cases h
    rw [SnapshotRow.sortKey, int16_of_lt hlevel]
  · cases h

theorem mem_longRows {long : SnapshotRow} : long ∈ row.longRows text columns ↔
    ∃ cell ∈ depthCells columns, row.meltedAt text cell = some long := by
  unfold WideRow.longRows cellsOf
  exact List.mem_filterMap

theorem longRows_timestamp {long : SnapshotRow} (h : long ∈ row.longRows text columns) :
    long.timestamp = row.timestampMs := by
  obtain ⟨cell, -, hmelted⟩ := mem_longRows.mp h
  unfold WideRow.meltedAt WideRow.melted at hmelted
  dsimp only at hmelted
  split at hmelted
  · cases hmelted
    rfl
  · cases hmelted

/-- The long rows of a wide row are strictly in the order of the sort. -/
theorem longRows_ordered (h : BookSnapshot columns) (row : WideRow) :
    (row.longRows text columns).Pairwise fun a b => a.sortKey < b.sortKey := by
  unfold WideRow.longRows cellsOf
  rw [List.pairwise_filterMap]
  refine (depthCells_ordered columns).imp_of_mem ?_
  intro cell cell' hcell hcell' hlt long hlong long' hlong'
  rw [melted_key (h.narrow _ (mem_depthCells.mp hcell)) hlong,
    melted_key (h.narrow _ (mem_depthCells.mp hcell')) hlong']
  refine Prod.Lex.toLex_lt_toLex.mpr (.inr ⟨rfl, ?_⟩)
  rcases Prod.Lex.toLex_lt_toLex.mp hlt with hside | ⟨hside, hlevel⟩
  · exact Prod.Lex.toLex_lt_toLex.mpr (.inl hside)
  · exact Prod.Lex.toLex_lt_toLex.mpr (.inr ⟨hside, Int.ofNat_lt.mpr hlevel⟩)

theorem long_ordered (h : BookSnapshot columns) (hraw : Chronological raw) :
    (long (WideRow.meltedAt text) (depthCells columns) raw).Pairwise fun a b =>
      a.sortKey < b.sortKey := by
  unfold long
  rw [List.pairwise_flatMap]
  refine ⟨fun row _ => longRows_ordered h row, ?_⟩
  refine hraw.imp ?_
  intro row row' hlt a ha b hb
  refine Prod.Lex.toLex_lt_toLex.mpr (.inl ?_)
  rw [longRows_timestamp ha, longRows_timestamp hb]
  exact hlt

theorem snapshotPiece_ok (h : BookSnapshot columns) {cell : Side × Nat}
    (hcell : cell ∈ depthCells columns) :
    snapshotPiece text columns raw cell = .ok (raw.filterMap (WideRow.meltedAt text cell)) := by
  have hcomplete := h.complete cell.2 (mem_depthCells.mp hcell) cell.1
  unfold snapshotPiece
  rw [if_neg (not_not_intro (hcomplete .price)), if_neg (not_not_intro (hcomplete .amount))]
  rfl

theorem normaliseSnapshot_ok (h : BookSnapshot columns) (hraw : Chronological raw)
    (haccepted : ∀ row ∈ raw, row.Accepted text columns symbol day) :
    normaliseSnapshot text columns raw symbol day =
      .ok (raw.flatMap (WideRow.longRows text columns)) := by
  unfold normaliseSnapshot
  split
  · rename_i hempty
    rw [List.isEmpty_iff.mp hempty]
    rfl
  · have hpieces : (depthCells columns).mapM (snapshotPiece text columns raw) =
        .ok ((depthCells columns).map fun cell => raw.filterMap (WideRow.meltedAt text cell)) :=
      mapM_of_ok fun cell hcell => snapshotPiece_ok h hcell
    have hsorted : sortValues SnapshotRow.sortKey ((depthCells columns).map fun cell =>
        raw.filterMap (WideRow.meltedAt text cell)).flatten =
          raw.flatMap (WideRow.longRows text columns) :=
      sortValues_pieces (long_ordered h hraw)
    have hday : checkSnapshotDay (raw.flatMap (WideRow.longRows text columns)) symbol day =
        .ok () := by
      unfold checkSnapshotDay
      simp only [refuse_ok, ne_eq, not_not, List.filter_eq_nil_iff, List.mem_map, List.mem_flatMap,
        decide_eq_true_eq]
      rintro _ ⟨long, ⟨row, hrow, hlong⟩, rfl⟩
      rw [longRows_timestamp hlong]
      exact (haccepted row hrow).day (List.ne_nil_of_mem hlong)
    have hsymbol : ¬ ∃ found ∈ raw.map fun row => text.strip row.symbol, found ≠ symbol := by
      rintro ⟨found, hfound, hne⟩
      obtain ⟨row, hrow, rfl⟩ := List.mem_map.mp hfound
      exact hne (haccepted row hrow).symbol
    have htime : ¬ ∃ row ∈ raw, row.timestamp = none := by
      rintro ⟨row, hrow, hnone⟩
      exact (haccepted row hrow).timestamp hnone
    have hlocal : ¬ ∃ row ∈ raw, row.localTimestamp = none := by
      rintro ⟨row, hrow, hnone⟩
      exact (haccepted row hrow).localTimestamp hnone
    simp only [refuse, if_neg hsymbol, if_neg htime, if_neg hlocal, if_neg (snapshotDepth_ne h),
      hpieces, Except.mapError, bind, Except.bind, hsorted, hday]
    rfl

theorem meltChunks_ok {chunks : List (List WideRow)} (h : BookSnapshot columns)
    (hraw : Chronological chunks.flatten)
    (haccepted : ∀ row ∈ chunks.flatten, row.Accepted text columns symbol day) :
    meltChunks text columns symbol day chunks =
      .ok (chunks.flatten.flatMap (WideRow.longRows text columns)) := by
  have hchunk : ∀ raw ∈ chunks, normaliseSnapshot text columns raw symbol day =
      .ok (raw.flatMap (WideRow.longRows text columns)) := by
    intro raw hraw'
    refine normaliseSnapshot_ok h ((List.pairwise_flatten.mp hraw).1 raw hraw') ?_
    exact fun row hrow => haccepted row (List.mem_flatten.mpr ⟨raw, hraw', hrow⟩)
  unfold meltChunks
  rw [mapM_of_ok hchunk, List.flatMap_def, List.map_flatten, List.flatten_flatten, List.map_map]
  rfl

end Melted

end Ingestion
end PerpCarry
