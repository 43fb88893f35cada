import PerpCarry.Impact.SlicedExecution
import PerpCarry.Ingestion.FetchBook
import PerpCarry.Lib.Groups
import PerpCarry.Pipeline.Threads

/-!
# Models.CalibrationDataset

The sampling of execution costs from a day's book stream: `sample_rows` of
`python/perpcarry/models/calibration_dataset.py`.

The day is read group by group, a group being the events of one millisecond. Groups read ahead for a
sliced execution wait in `pending` until the main replay comes to them. What comes from elsewhere,
the batches of a parquet file, the grid of sizes and the threads, is a `Platform`.
-/

namespace PerpCarry
namespace Models
namespace Calibration

open Impact
open Ingestion (Day)
open Pipeline (BookRow ReplayInputError Threads updatesFromBatch)

/-! ## What a call is given -/

/-- The configuration `sample_rows` reads, with what `__post_init__` insists on. -/
structure Config where
  sampleEvery : Nat := 5000
  sizeCount : Nat := 40
  minAdvFraction : Double := .finite (5902958103587057 / 2 ^ 69)
  maxAdvFraction : Double := .finite (3602879701896397 / 2 ^ 55)
  durationMs : Int := 10000
  slices : Nat := 5
  batchSize : Nat := 100000
  side : OrderSide := .buy
  queueCapacity : Nat := 65536
  positive : 1 ≤ sampleEvery ∧ 1 ≤ slices ∧ 1 ≤ batchSize ∧ 1 ≤ queueCapacity := by decide
  sized : 2 ≤ sizeCount ∧ 0 ≤ durationMs := by decide
  increasing : Double.zero.lt minAdvFraction = true ∧
    minAdvFraction.lt maxAdvFraction = true ∧ maxAdvFraction.lt (.infinity false) = true := by
      decide +kernel

/-- The arguments of `sample_rows` but for the files. -/
structure Arguments where
  symbol : String
  day : Day
  adv : Double
  config : Config

/-- Rounding, the threads of the pipeline, `np.geomspace` with the number of points it is asked for,
and `ParquetFile.iter_batches`: a file's row groups, in order, cut into batches. -/
structure Platform (w : Nat) where
  rnd : Rounding
  threads : Threads w
  geomspace : Double → Double → Nat → List Double
  geomspace_length : ∀ lo hi n, (geomspace lo hi n).length = n
  iterBatches : Nat → List (List BookRow) → List (List BookRow)
  iterBatches_flatten : ∀ size file, 1 ≤ size → (iterBatches size file).flatten = file.flatten

inductive SampleError where
  | replayInput (e : ReplayInputError)
  | core (e : Error)
  | valueError (message : String)
  | runtimeError (message : String)
  | typeError
  deriving DecidableEq

/-- An exception of the C++ core. -/
def lift {α : Type} (x : Except Error α) : Except SampleError α := x.mapError .core

theorem lift_ok {α : Type} {x : Except Error α} {a : α} : lift x = .ok a ↔ x = .ok a := by
  cases x <;> simp [lift, Except.mapError]

/-! ## Events and groups -/

/-- A generator: what it yields, and what it then raises if it does not just end. -/
structure Generator (α : Type) where
  items : List α
  raised : Option SampleError := none

/-- `next(generator, None)`. -/
def Generator.next {α : Type} : Generator α → Except SampleError (Option (α × Generator α))
  | ⟨item :: items, raised⟩ => .ok (some (item, ⟨items, raised⟩))
  | ⟨[], some e⟩ => .error e
  | ⟨[], none⟩ => .ok none

/-- The events of the batches, up to the first batch that cannot be read. -/
def updates : List (List BookRow) → Generator BookUpdate
  | [] => { items := [] }
  | batch :: batches =>
    match updatesFromBatch batch with
    | .error e => { items := [], raised := some (.replayInput e) }
    | .ok events =>
      let rest := updates batches
      { rest with items := events ++ rest.items }

/-- A timestamp and its events. -/
abbrev Group := Int × List BookUpdate

/-- `itertools.groupby`. A group is handed on once the next event, or the end, has been seen. -/
def groupby (events : Generator BookUpdate) : Generator Group :=
  let groups := Lib.groups BookUpdate.timestamp events.items
  match events.raised with
  | none => { items := groups }
  | some e => { items := groups.dropLast, raised := some e }

/-! ## The rows of one instant -/

inductive Schedule where
  | static
  | sliced
  deriving DecidableEq

structure Row where
  symbol : String
  date : String
  timestamp : Int
  eventCount : Nat
  side : OrderSide
  schedule : Schedule
  adv : Double
  advFraction : Double
  advPercent : Double
  depthFraction : Double
  depthPercent : Double
  visibleDepthQuantity : Double
  completed : Bool
  durationMs : Int
  sliceCount : Nat
  slicesExhausted : Nat
  slicesBeyondValidatedDepth : Nat
  slicesCrossed : Nat
  /-- `FILL_FIELDS` are all the fields of a fill. -/
  fill : Fill
  deriving DecidableEq

def absolute (x : Double) : Double := if x.lt .zero then x.neg else x

/-- One step of `sum` over floats: the total and the sum of what rounding has cost it. -/
def compensate (rnd : Rounding) (s : Double × Double) (x : Double) : Double × Double :=
  let t := s.1.add rnd x
  let lost :=
    if (absolute x).le (absolute s.1) then (s.1.sub rnd t).add rnd x
    else (x.sub rnd t).add rnd s.1
  (t, s.2.add rnd lost)

/-- `sum` of floats, which Python compensates from 3.12 on. -/
def pythonSum (rnd : Rounding) : List Double → Double
  | [] => .zero
  | x :: xs =>
    let s := xs.foldl (compensate rnd) (Double.zero.add rnd x, .zero)
    if s.2.isFinite && !s.2.eq .zero then s.1.add rnd s.2 else s.1

section Sampling

variable {w : Nat} (platform : Platform w) (args : Arguments)

/-- The end of the UTC day. -/
def Arguments.endOfDay : Int := (args.day.number + 1) * 86400000

def Arguments.lastSlice (timestamp : Int) : Int :=
  timestamp + args.config.durationMs * ((args.config.slices - 1 : Nat) : Int) / args.config.slices

def Arguments.sliceSchedule (timestamp : Int) : SliceSchedule where
  startTimestamp := timestamp
  durationMs := args.config.durationMs
  slices := args.config.slices

def fractions : List Double :=
  let lo := args.config.minAdvFraction
  let hi := args.config.maxAdvFraction
  let grid := (platform.geomspace lo hi args.config.sizeCount).set 0 lo
  grid.set (grid.length - 1) hi

def visibleDepth (book : OrderBook) : Double :=
  pythonSum platform.rnd
    (((book.levels (consumedSide args.config.side)).take 25).map Level.quantity)

/-- The dictionary appended for one fill; `sliced` is the sliced execution of the same size. -/
def row (book : OrderBook) (timestamp : Int) (applied : Nat) (fraction quantity : Double)
    (sliced : SlicedFill) (schedule : Schedule) (fill : Fill) : Row :=
  let depth := visibleDepth platform args book
  let share := quantity.div platform.rnd depth
  { symbol := args.symbol
    date := args.day.iso
    timestamp
    eventCount := applied
    side := args.config.side
    schedule
    adv := args.adv
    advFraction := fraction
    advPercent := fraction.mul platform.rnd (.finite 100)
    depthFraction := if Double.zero.lt depth then share else .nan
    depthPercent := if Double.zero.lt depth then share.mul platform.rnd (.finite 100) else .nan
    visibleDepthQuantity := depth
    completed := !fill.exhaustedBook
    durationMs := if schedule = .sliced then args.config.durationMs else 0
    sliceCount := if schedule = .sliced then args.config.slices else 1
    slicesExhausted :=
      if schedule = .sliced then sliced.slicesExhausted else fill.exhaustedBook.toNat
    slicesBeyondValidatedDepth :=
      if schedule = .sliced then sliced.slicesBeyondValidatedDepth
      else fill.beyondValidatedDepth.toNat
    slicesCrossed := if schedule = .sliced then sliced.slicesCrossed else fill.crossedAtEntry.toNat
    fill }

/-- The two rows of one size, `execute` being the sliced execution. -/
def fractionRows (book : OrderBook)
    (execute : Double → SliceSchedule → Except Error SlicedFill) (timestamp : Int) (applied : Nat)
    (fraction : Double) : Except Error (List Row) := do
  let quantity := fraction.mul platform.rnd args.adv
  let static ← simulateMarketOrder platform.rnd book args.config.side quantity
  let sliced ← execute quantity (args.sliceSchedule timestamp)
  let row := row platform args book timestamp applied fraction quantity sliced
  return [row .static static, row .sliced sliced.parent]

def instantRows (book : OrderBook)
    (execute : Double → SliceSchedule → Except Error SlicedFill) (timestamp : Int)
    (applied : Nat) : Except Error (List Row) :=
  ((fractions platform args).mapM
    (fractionRows platform args book execute timestamp applied)).map List.flatten

/-! ## The loop -/

/-- The variables of the loop. -/
structure Sampling (w : Nat) where
  groups : Generator Group
  pending : List Group := []
  pipeline : Pipeline w
  rows : List Row := []
  applied : Nat := 0
  replayBatch : List BookUpdate := []
  threshold : Nat

/-- `pending.popleft() if pending else next(groups, None)`. -/
def Sampling.pop {w : Nat} (s : Sampling w) : Except SampleError (Option (Group × Sampling w)) :=
  match s.pending with
  | group :: pending => .ok (some (group, { s with pending }))
  | [] =>
    match s.groups.next with
    | .error e => .error e
    | .ok none => .ok none
    | .ok (some (group, groups)) => .ok (some (group, { s with groups }))

/-- Reads groups until one lies beyond `last`. -/
def lookAhead (last : Int) (raised : Option SampleError) :
    List Group → List Group → Except SampleError (List Group × List Group)
  | pending, [] =>
    if pending.getLast?.any (last < ·.1) then .ok (pending, [])
    else
      match raised with
      | some e => .error e
      | none => .ok (pending, [])
  | pending, group :: groups =>
    if pending.getLast?.any (last < ·.1) then .ok (pending, group :: groups)
    else lookAhead last raised (pending ++ [group]) groups

/-- A group enters the batch of the main replay. -/
def Sampling.read {w : Nat} (s : Sampling w) (group : Group) : Sampling w :=
  { s with
    replayBatch := s.replayBatch ++ group.2
    applied := s.applied + group.2.length }

/-- The batch is replayed and the next grid point set. -/
def Sampling.replay (s : Sampling w) : Except SampleError (Sampling w) := do
  let pipeline ← lift (s.pipeline.run platform.threads s.replayBatch)
  return { s with
    pipeline
    replayBatch := []
    threshold := (s.applied / args.config.sampleEvery + 1) * args.config.sampleEvery }

/-- The rows of an instant, after the groups up to its last slice have been read. -/
def Sampling.sample (s : Sampling w) (timestamp : Int) : Except SampleError (Sampling w) := do
  let last := args.lastSlice timestamp
  let (pending, items) ← lookAhead last s.groups.raised s.pending s.groups.items
  let future := (pending.filter (·.1 ≤ last)).flatMap Prod.snd
  let replayer := s.pipeline.replayer
  let rows ← lift (instantRows platform args replayer.book
    (simulateSlicedExecutionFromState platform.rnd replayer future args.config.side)
    timestamp s.applied)
  return { s with groups := { s.groups with items }, pending, rows := s.rows ++ rows }

/-- The body of the loop, a group in hand. -/
def Sampling.take (s : Sampling w) (group : Group) : Except SampleError (Sampling w) :=
  let s := s.read group
  if s.applied < s.threshold then .ok s
  else
    match s.replay platform args with
    | .error e => .error e
    | .ok s =>
      if args.endOfDay ≤ args.lastSlice group.1 then .ok s
      else s.sample platform args group.1

/-- At most `fuel` passes. Each takes a group, so one more than there are groups will do. -/
def loop : Nat → Sampling w → Except SampleError (Sampling w)
  | 0, s => .ok s
  | fuel + 1, s =>
    match s.pop with
    | .error e => .error e
    | .ok none => .ok s
    | .ok (some (group, s)) =>
      match s.take platform args group with
      | .error e => .error e
      | .ok s => loop fuel s

/-- What follows the loop. -/
def Sampling.finish (s : Sampling w) : Except SampleError (Sampling w) :=
  if s.rows.isEmpty then .error (.valueError "sampling produced no instants; reduce sample_every")
  else do
    let pipeline ← (if s.replayBatch.isEmpty then pure s.pipeline
      else lift (s.pipeline.run platform.threads s.replayBatch))
    if pipeline.replayer.stats.applied = s.applied then
      return { s with pipeline }
    else .error (.runtimeError "queue replay did not consume every source event")

/-- The constructor takes a machine word. -/
def makePipeline (w : Nat) (config : Config) : Except SampleError (Pipeline w) :=
  if config.queueCapacity < 2 ^ w then
    .ok { queueCapacity := BitVec.ofNat w config.queueCapacity }
  else .error .typeError

/-- `_groups`. A file is a list of row groups. -/
def groups (files : List (List (List BookRow))) : Generator Group :=
  groupby (updates (files.flatMap (platform.iterBatches args.config.batchSize)))

/-- The variables of `sample_rows` when it returns. -/
def sampled (files : List (List (List BookRow))) : Except SampleError (Sampling w) := do
  let groups := groups platform args files
  let pipeline ← makePipeline w args.config
  let s ← loop platform args (groups.items.length + 1)
    { groups, pipeline, threshold := args.config.sampleEvery }
  s.finish platform

structure Frame where
  rows : List Row
  eventsProcessed : Nat
  deriving DecidableEq

def sampleRows (files : List (List (List BookRow))) : Except SampleError Frame :=
  (sampled platform args files).map fun s => { rows := s.rows, eventsProcessed := s.applied }

end Sampling

end Calibration
end Models
end PerpCarry
