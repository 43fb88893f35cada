import PerpCarry.Book.Replayer
import PerpCarry.Strategy.Decimal

/-!
# Pipeline.Batch

The stored rows of a book partition and their way into the replay: `python/perpcarry/replay.py`.

* `updatesFromBatch_ok`: the updates are the rows as read, one for one, if every side is known.
-/

namespace PerpCarry
namespace Pipeline

open Strategy (bind_ok pure_ok)

/-- A row of a stored book partition, in the columns of its schema. -/
structure BookRow where
  exchange : String
  timestamp : Int
  localTimestamp : Int
  latencyUs : Int
  isSnapshot : Bool
  side : String
  price : Double
  quantity : Double
  deriving DecidableEq

structure ReplayInputError where
  message : String
  deriving DecidableEq

/-- `_side`. -/
def side (value : String) : Except ReplayInputError Side :=
  if value = "bid" then .ok .bid
  else if value = "ask" then .ok .ask
  else .error ⟨"unknown side '" ++ value ++ "', expected bid or ask"⟩

def updatesFromBatch (batch : List BookRow) : Except ReplayInputError (List BookUpdate) :=
  batch.mapM fun row => do
    let side ← side row.side
    return ⟨row.timestamp, row.localTimestamp, row.isSnapshot, side, row.price, row.quantity⟩

/-- The side is one of the two the replay knows. -/
def BookRow.Sided (row : BookRow) : Prop := row.side = "bid" ∨ row.side = "ask"

instance (row : BookRow) : Decidable row.Sided := by unfold BookRow.Sided; infer_instance

/-- A row with a known side, as an update. -/
def BookRow.read (row : BookRow) : BookUpdate where
  timestamp := row.timestamp
  localTimestamp := row.localTimestamp
  isSnapshot := row.isSnapshot
  side := if row.side = "bid" then .bid else .ask
  price := row.price
  quantity := row.quantity

theorem side_ok {row : BookRow} {s : Side} :
    side row.side = .ok s ↔ row.Sided ∧ s = row.read.side := by
  unfold side BookRow.Sided BookRow.read
  by_cases hbid : row.side = "bid"
  · simp [hbid, eq_comm]
  · by_cases hask : row.side = "ask"
    · simp [hask, eq_comm]
    · simp [hbid, hask]

theorem updatesFromBatch_ok {batch : List BookRow} {updates : List BookUpdate} :
    updatesFromBatch batch = .ok updates ↔
      (∀ row ∈ batch, row.Sided) ∧ updates = batch.map BookRow.read := by
  unfold updatesFromBatch
  induction batch generalizing updates with
  | nil =>
    rw [List.mapM_nil, pure_ok]
    simp [eq_comm]
  | cons row batch ih =>
    rw [List.mapM_cons]
    simp only [bind_ok, pure_ok, side_ok, ih]
    constructor
    · rintro ⟨_, ⟨_, ⟨hrow, rfl⟩, rfl⟩, _, ⟨hbatch, rfl⟩, rfl⟩
      refine ⟨?_, rfl⟩
      intro row' hmem
      rcases List.mem_cons.mp hmem with rfl | hmem
      · exact hrow
      · exact hbatch row' hmem
    · rintro ⟨hall, rfl⟩
      exact ⟨row.read, ⟨row.read.side, ⟨hall row (List.mem_cons_self ..), rfl⟩, rfl⟩,
        batch.map BookRow.read, ⟨fun row' hmem => hall row' (List.mem_cons_of_mem _ hmem), rfl⟩, rfl⟩

end Pipeline
end PerpCarry
