import PerpCarry.Book.Replayer
import PerpCarry.Impact.MarketOrder
import PerpCarry.Lib.EventRun

/-!
# Impact.SlicedExecution

Time-sliced execution: `simulate_sliced_execution` of `cpp/src/impact_simulator.cpp`.

The loop over the slots is `Lib.run` of `slotBy`, so that the state after any number of slots can be
named. The times of the slots are a parameter of it: `sliceTime` is the grid in unbounded integers,
which the source computes in 64 bits.
-/

namespace PerpCarry
namespace Impact

/-- No weights means equal weights. -/
structure SliceSchedule where
  startTimestamp : Int := 0
  durationMs : Int := 0
  slices : Nat := 1
  weights : List Double := []
  deriving DecidableEq

structure SlicedFill where
  parent : Fill := {}
  slices : List Fill := []
  slicesExhausted : Nat := 0
  slicesBeyondValidatedDepth : Nat := 0
  slicesCrossed : Nat := 0
  completed : Bool := false
  deriving DecidableEq

def sum (rnd : Rounding) (xs : List Double) : Double := xs.foldl (Double.add rnd) .zero

/-- The child sizes. The last one is what the others leave of `total`. -/
def sliceQuantities (rnd : Rounding) (total : Double) (schedule : SliceSchedule) : List Double :=
  let weights :=
    if schedule.weights.isEmpty then List.replicate schedule.slices (.finite 1) else schedule.weights
  let weightSum := sum rnd weights
  let sizes := (weights.take (schedule.slices - 1)).map fun w =>
    (total.mul rnd w).div rnd weightSum
  sizes ++ [total.sub rnd (sum rnd sizes)]

def badWeight (w : Double) : Bool := !w.isFinite || w.lt .zero

def validateSchedule (rnd : Rounding) (totalQuantity : Double) (schedule : SliceSchedule) :
    Except Error Unit :=
  if !totalQuantity.isFinite || totalQuantity.le .zero then .error (badQuantity totalQuantity)
  else if schedule.slices = 0 then
    .error (.invalidArgument "a schedule must have at least one slice")
  else if schedule.durationMs < 0 then
    .error (.invalidArgument
      ("schedule duration must not be negative, got " ++ toString schedule.durationMs))
  else if schedule.weights.isEmpty then .ok ()
  else if schedule.weights.length ≠ schedule.slices then
    .error (.invalidArgument ("schedule has " ++ toString schedule.slices ++ " slices but " ++
      toString schedule.weights.length ++ " weights"))
  else if schedule.weights.any badWeight then
    .error (.invalidArgument "schedule weights must be finite and non-negative")
  else if (sum rnd schedule.weights).le .zero then
    .error (.invalidArgument "schedule weights must not sum to zero")
  else .ok ()

/-- What `validateSchedule` accepts. -/
structure Validated (rnd : Rounding) (totalQuantity : Double) (schedule : SliceSchedule) :
    Prop where
  total_finite : totalQuantity.isFinite = true
  total_pos : totalQuantity.le .zero = false
  slices_pos : 0 < schedule.slices
  duration_nonneg : 0 ≤ schedule.durationMs
  weights_ok : schedule.weights = [] ∨ schedule.weights.length = schedule.slices ∧
    schedule.weights.any badWeight = false ∧ (sum rnd schedule.weights).le .zero = false

theorem validateSchedule_ok {rnd : Rounding} {totalQuantity : Double} {schedule : SliceSchedule}
    (h : validateSchedule rnd totalQuantity schedule = .ok ()) :
    Validated rnd totalQuantity schedule := by
  unfold validateSchedule at h
  split at h
  · cases h
  · rename_i htotal
    obtain ⟨hfinite, hpos⟩ : totalQuantity.isFinite = true ∧ totalQuantity.le .zero = false := by
      simpa using htotal
    split at h
    · cases h
    · split at h
      · cases h
      · refine ⟨hfinite, hpos, by omega, by omega, ?_⟩
        split at h
        · exact .inl (List.isEmpty_iff.mp ‹_›)
        · split at h
          · cases h
          · split at h
            · cases h
            · split at h
              · cases h
              · refine .inr ⟨?_, ?_, ?_⟩ <;> simp_all

/-- Integer division truncates, so slot 0 is at the start and equal times stay equal. -/
def sliceTime (schedule : SliceSchedule) (i : Nat) : Int :=
  schedule.startTimestamp + (schedule.durationMs * i).tdiv schedule.slices

/-- Replay the rows at or before `time`. -/
def advance (replayer : BookReplayer) (time : Int) :
    List BookUpdate → Except Error (BookReplayer × List BookUpdate)
  | [] => .ok (replayer, [])
  | update :: updates =>
    if update.timestamp ≤ time then
      match replayer.apply update with
      | .error e _ => .error e
      | .ok () replayer => advance replayer time updates
    else .ok (replayer, update :: updates)

/-- The parent's worst price after a slice that reached `worst`. -/
def worsen (side : OrderSide) (parentWorst worst : Double) : Double :=
  if worst.isFinite then
    let worse :=
      match side with
      | .buy => parentWorst.lt worst
      | .sell => worst.lt parentWorst
    if worse || !parentWorst.isFinite then worst else parentWorst
  else parentWorst

/-- One more executed slice. The arrival references are those of the first. -/
def SlicedFill.push (rnd : Rounding) (side : OrderSide) (result : SlicedFill) (fill : Fill) :
    SlicedFill :=
  let parent := { result.parent with
    notional := result.parent.notional.add rnd fill.notional
    filledQuantity := result.parent.filledQuantity.add rnd fill.filledQuantity
    levelsConsumed := result.parent.levelsConsumed + fill.levelsConsumed }
  { result with
    parent :=
      if result.slices.isEmpty then
        { parent with
          midAtEntry := fill.midAtEntry
          touchAtEntry := fill.touchAtEntry
          crossedAtEntry := fill.crossedAtEntry
          worstPrice := fill.worstPrice }
      else { parent with worstPrice := worsen side parent.worstPrice fill.worstPrice }
    slices := result.slices ++ [fill]
    slicesExhausted := result.slicesExhausted + fill.exhaustedBook.toNat
    slicesBeyondValidatedDepth :=
      result.slicesBeyondValidatedDepth + fill.beyondValidatedDepth.toNat
    slicesCrossed := result.slicesCrossed + fill.crossedAtEntry.toNat }

section Push

variable (rnd : Rounding) (side : OrderSide) (result : SlicedFill) (fill : Fill)

@[simp] theorem push_requestedQuantity :
    (result.push rnd side fill).parent.requestedQuantity = result.parent.requestedQuantity := by
  unfold SlicedFill.push; split <;> rfl

@[simp] theorem push_notional :
    (result.push rnd side fill).parent.notional =
      result.parent.notional.add rnd fill.notional := by
  unfold SlicedFill.push; split <;> rfl

@[simp] theorem push_filledQuantity :
    (result.push rnd side fill).parent.filledQuantity =
      result.parent.filledQuantity.add rnd fill.filledQuantity := by
  unfold SlicedFill.push; split <;> rfl

@[simp] theorem push_slices : (result.push rnd side fill).slices = result.slices ++ [fill] := rfl

/-- The first executed slice sets the arrival references and the worst price. -/
theorem push_first (h : result.slices = []) :
    let parent := (result.push rnd side fill).parent
    (parent.midAtEntry = fill.midAtEntry ∧ parent.touchAtEntry = fill.touchAtEntry ∧
      parent.crossedAtEntry = fill.crossedAtEntry) ∧ parent.worstPrice = fill.worstPrice := by
  unfold SlicedFill.push
  simp only [h, List.isEmpty_nil, if_true, and_self]

theorem push_later (h : result.slices ≠ []) :
    let parent := (result.push rnd side fill).parent
    (parent.midAtEntry = result.parent.midAtEntry ∧
      parent.touchAtEntry = result.parent.touchAtEntry ∧
      parent.crossedAtEntry = result.parent.crossedAtEntry) ∧
      parent.worstPrice = worsen side result.parent.worstPrice fill.worstPrice := by
  have hne : result.slices.isEmpty = false := by simpa using h
  unfold SlicedFill.push
  simp only [hne, Bool.false_eq_true, if_false, and_self]

end Push

/-- The variables of the loop over the slots: `updates` is what lies behind the cursor. -/
structure Execution where
  replayer : BookReplayer
  updates : List BookUpdate
  result : SlicedFill
  deriving DecidableEq

/-- Slot `i` of size `size`: replay up to its time, then execute unless the size is zero. -/
def slotBy (rnd : Rounding) (side : OrderSide) (times : Nat → Int) (s : Execution)
    (slice : Double × Nat) : Except Error Execution :=
  match advance s.replayer (times slice.2) s.updates with
  | .error e => .error e
  | .ok (replayer, updates) =>
    if slice.1.le .zero then .ok { s with replayer, updates }
    else
      match executeMarketOrder rnd replayer.book side slice.1 with
      | .error e _ => .error e
      | .ok fill book =>
        .ok { replayer := { replayer with book }, updates, result := s.result.push rnd side fill }

abbrev slot (rnd : Rounding) (side : OrderSide) (schedule : SliceSchedule) :
    Execution → Double × Nat → Except Error Execution :=
  slotBy rnd side (sliceTime schedule)

def slots (rnd : Rounding) (totalQuantity : Double) (schedule : SliceSchedule) :
    List (Double × Nat) :=
  (sliceQuantities rnd totalQuantity schedule).zipIdx

/-- The checks before the loop, and the loop's first state. -/
def enter (rnd : Rounding) (initial : BookReplayer) (updates : List BookUpdate)
    (totalQuantity : Double) (schedule : SliceSchedule) : Except Error Execution :=
  match validateSchedule rnd totalQuantity schedule with
  | .error e => .error e
  | .ok () =>
    if 0 < initial.stats.applied ∧ schedule.startTimestamp < initial.stats.lastTimestamp then
      .error (.invalidArgument "initial replay state is later than sliced execution entry")
    else
      .ok { replayer := initial, updates
            result := { parent := { requestedQuantity := totalQuantity } } }

/-- The call once its first `k` slots are done. -/
def executeSlotsBy (rnd : Rounding) (times : Nat → Int) (initial : BookReplayer)
    (updates : List BookUpdate) (side : OrderSide) (totalQuantity : Double)
    (schedule : SliceSchedule) (k : Nat) : Except Error Execution :=
  match enter rnd initial updates totalQuantity schedule with
  | .error e => .error e
  | .ok s => Lib.run (slotBy rnd side times) s ((slots rnd totalQuantity schedule).take k)

abbrev executeSlots (rnd : Rounding) (initial : BookReplayer) (updates : List BookUpdate)
    (side : OrderSide) (totalQuantity : Double) (schedule : SliceSchedule) (k : Nat) :
    Except Error Execution :=
  executeSlotsBy rnd (sliceTime schedule) initial updates side totalQuantity schedule k

/-- The parent's flags, prices and slippages, once all slots are done. -/
def SlicedFill.finish (rnd : Rounding) (side : OrderSide) (result : SlicedFill) : SlicedFill :=
  let p := result.parent
  let filled := Double.zero.lt p.filledQuantity
  let averagePrice := if filled then p.notional.div rnd p.filledQuantity else .nan
  { result with
    parent := { p with
      exhaustedBook := decide (0 < result.slicesExhausted)
      beyondValidatedDepth := decide (0 < result.slicesBeyondValidatedDepth)
      averagePrice
      worstPrice := if filled then p.worstPrice else .nan
      slippageVsMidBps := slippageBps rnd side averagePrice p.midAtEntry
      slippageVsTouchBps := slippageBps rnd side averagePrice p.touchAtEntry }
    completed := decide (result.slicesExhausted = 0) }

def simulateSlicedExecutionFromState (rnd : Rounding) (initial : BookReplayer)
    (updates : List BookUpdate) (side : OrderSide) (totalQuantity : Double)
    (schedule : SliceSchedule) : Except Error SlicedFill :=
  (executeSlots rnd initial updates side totalQuantity schedule schedule.slices).map fun s =>
    s.result.finish rnd side

/-- The call on a whole stream, at the given slot times. -/
def simulateBy (rnd : Rounding) (times : Nat → Int) (updates : List BookUpdate) (side : OrderSide)
    (totalQuantity : Double) (schedule : SliceSchedule) : Except Error SlicedFill :=
  (executeSlotsBy rnd times {} updates side totalQuantity schedule schedule.slices).map fun s =>
    s.result.finish rnd side

def simulateSlicedExecution (rnd : Rounding) (updates : List BookUpdate) (side : OrderSide)
    (totalQuantity : Double) (schedule : SliceSchedule) : Except Error SlicedFill :=
  simulateSlicedExecutionFromState rnd {} updates side totalQuantity schedule

end Impact
end PerpCarry
