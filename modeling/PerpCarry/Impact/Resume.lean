import Mathlib.Logic.Function.Basic
import PerpCarry.Impact.Checkpoint

/-!
# Impact.Resume

Sliced execution from a checkpoint, with the checkpoint's object in memory.

`simulate_sliced_execution_from_state` takes its replayer by constant reference and works on a local
copy. Here both are objects at addresses: the loop writes at the address it is given, and nothing in
its text says that this is not the caller's object.

* `Mirrors`: a call that computes what a pure function does and writes at one address only.
* `advanceAt_mirrors`, `slotAt_mirrors`, `slotsAt_mirrors`: the loops do.
* `resume_replays`: a call from a checkpoint, against the call on the whole stream.
-/

namespace PerpCarry
namespace Impact

/-- The replayers in memory, by address. -/
abbrev Objects := Nat → BookReplayer

def Objects.store (m : Objects) (a : Nat) (r : BookReplayer) : Objects := Function.update m a r

section Store

variable (m : Objects) (a : Nat) (r r' : BookReplayer)

@[simp] theorem store_self : m.store a r a = r := Function.update_self ..
@[simp] theorem store_store : (m.store a r).store a r' = m.store a r' := Function.update_idem ..
@[simp] theorem store_same : m.store a (m a) = m := Function.update_eq_self ..

theorem store_other {b : Nat} (h : b ≠ a) : m.store a r b = m b := Function.update_of_ne h ..

end Store

/-- `replayer.apply(updates[cursor])` at address `a`, for the rows at or before `time`. -/
def advanceAt (m : Objects) (a : Nat) (time : Int) :
    List BookUpdate → Call Objects (List BookUpdate)
  | [] => .ok [] m
  | update :: updates =>
    if update.timestamp ≤ time then
      match (m a).apply update with
      | .error e r => .error e (m.store a r)
      | .ok () r => advanceAt (m.store a r) a time updates
    else .ok (update :: updates) m

/-- One pass of the loop over the slots, on the object at address `a`. -/
def slotAt (rnd : Rounding) (side : OrderSide) (schedule : SliceSchedule) (m : Objects) (a : Nat)
    (s : List BookUpdate × SlicedFill) (slice : Double × Nat) :
    Call Objects (List BookUpdate × SlicedFill) :=
  match advanceAt m a (sliceTime schedule slice.2) s.1 with
  | .error e m => .error e m
  | .ok updates m =>
    if slice.1.le .zero then .ok (updates, s.2) m
    else
      match executeMarketOrder rnd (m a).book side slice.1 with
      | .error e book => .error e (m.store a { m a with book })
      | .ok fill book => .ok (updates, s.2.push rnd side fill) (m.store a { m a with book })

def slotsAt (rnd : Rounding) (side : OrderSide) (schedule : SliceSchedule) (m : Objects) (a : Nat)
    (s : List BookUpdate × SlicedFill) :
    List (Double × Nat) → Call Objects (List BookUpdate × SlicedFill)
  | [] => .ok s m
  | slice :: slices =>
    match slotAt rnd side schedule m a s slice with
    | .error e m => .error e m
    | .ok s m => slotsAt rnd side schedule m a s slices

/-- The call with the caller's object at `initial` and the local copy at `replayer`. -/
def simulateSlicedExecutionFromStateAt (rnd : Rounding) (m : Objects) (initial replayer : Nat)
    (updates : List BookUpdate) (side : OrderSide) (totalQuantity : Double)
    (schedule : SliceSchedule) : Call Objects SlicedFill :=
  match enter rnd (m initial) updates totalQuantity schedule with
  | .error e => .error e m
  | .ok s =>
    let m := m.store replayer (m initial)
    match slotsAt rnd side schedule m replayer (s.updates, s.result)
      ((slots rnd totalQuantity schedule).take schedule.slices) with
    | .error e m => .error e m
    | .ok s m => .ok (s.2.finish rnd side) m

/-! ## Only the copy is written -/

variable {α : Type}

/-- `call` computes what `pure` does from the object at `a`, and no other object is written. -/
def Mirrors (m : Objects) (a : Nat) (call : Call Objects α)
    (pure : Except Error (BookReplayer × α)) : Prop :=
  match pure with
  | .error e => ∃ r, call = .error e (m.store a r)
  | .ok (r, x) => call = .ok x (m.store a r)

/-- The state of an execution as the object and the loop's other variables. -/
def Execution.split (s : Execution) : BookReplayer × (List BookUpdate × SlicedFill) :=
  (s.replayer, s.updates, s.result)

theorem Mirrors.store {m : Objects} {a : Nat} {r : BookReplayer} {call : Call Objects α}
    {pure : Except Error (BookReplayer × α)} (h : Mirrors (m.store a r) a call pure) :
    Mirrors m a call pure := by
  cases pure with
  | error e => simpa [Mirrors] using h
  | ok x => simpa [Mirrors] using h

theorem advanceAt_mirrors (m : Objects) (a : Nat) (time : Int) (updates : List BookUpdate) :
    Mirrors m a (advanceAt m a time updates) (advance (m a) time updates) := by
  induction updates generalizing m with
  | nil => simp [Mirrors, advance, advanceAt]
  | cons u us ih =>
    simp only [advance, advanceAt]
    by_cases hu : u.timestamp ≤ time
    · rw [if_pos hu, if_pos hu]
      cases happly : (m a).apply u with
      | error e r => exact ⟨r, rfl⟩
      | ok x r =>
        have := ih (m.store a r)
        rw [store_self] at this
        exact this.store
    · rw [if_neg hu, if_neg hu]
      simp [Mirrors]

variable (rnd : Rounding) (side : OrderSide) (schedule : SliceSchedule)

theorem slotAt_mirrors (m : Objects) (a : Nat) (updates : List BookUpdate) (result : SlicedFill)
    (slice : Double × Nat) :
    Mirrors m a (slotAt rnd side schedule m a (updates, result) slice)
      ((slot rnd side schedule ⟨m a, updates, result⟩ slice).map Execution.split) := by
  have hadvance := advanceAt_mirrors m a (sliceTime schedule slice.2) updates
  unfold slot slotBy slotAt
  cases hpure : advance (m a) (sliceTime schedule slice.2) updates with
  | error e =>
    rw [hpure] at hadvance
    obtain ⟨r, hr⟩ := hadvance
    simp only [hr]
    exact ⟨r, rfl⟩
  | ok next =>
    obtain ⟨r, rest⟩ := next
    rw [hpure] at hadvance
    have hcall : advanceAt m a (sliceTime schedule slice.2) updates = .ok rest (m.store a r) :=
      hadvance
    simp only [hcall, store_self, store_store]
    by_cases hz : slice.1.le .zero = true
    · rw [if_pos hz, if_pos hz]
      rfl
    · rw [if_neg hz, if_neg hz]
      cases executeMarketOrder rnd r.book side slice.1 with
      | error e book => exact ⟨_, rfl⟩
      | ok fill book => rfl

theorem slotsAt_mirrors (m : Objects) (a : Nat) (updates : List BookUpdate) (result : SlicedFill)
    (slices : List (Double × Nat)) :
    Mirrors m a (slotsAt rnd side schedule m a (updates, result) slices)
      ((Lib.run (slot rnd side schedule) ⟨m a, updates, result⟩ slices).map Execution.split) := by
  induction slices generalizing m updates result with
  | nil => simp [Mirrors, slotsAt, Except.map, Execution.split]
  | cons slice slices ih =>
    have hslot := slotAt_mirrors rnd side schedule m a updates result slice
    unfold Lib.run slotsAt
    cases hpure : slot rnd side schedule ⟨m a, updates, result⟩ slice with
    | error e =>
      rw [hpure] at hslot
      obtain ⟨r, hr⟩ := hslot
      simp only [hr]
      exact ⟨r, rfl⟩
    | ok s =>
      rw [hpure] at hslot
      have hcall : slotAt rnd side schedule m a (updates, result) slice =
          .ok (s.updates, s.result) (m.store a s.replayer) := hslot
      simp only [hcall]
      have := ih (m.store a s.replayer) s.updates s.result
      rw [store_self] at this
      exact this.store

/-- The call through memory returns what the pure function does, and writes at its own copy. -/
theorem simulateAt_mirrors (total : Double) (m : Objects) (initial replayer : Nat)
    (updates : List BookUpdate) :
    let call := simulateSlicedExecutionFromStateAt rnd m initial replayer updates side total schedule
    call.outcome =
        simulateSlicedExecutionFromState rnd (m initial) updates side total schedule ∧
      ∀ object ≠ replayer, call.state object = m object := by
  unfold simulateSlicedExecutionFromStateAt simulateSlicedExecutionFromState executeSlots executeSlotsBy
  cases hent : enter rnd (m initial) updates total schedule with
  | error e => exact ⟨rfl, fun _ _ => rfl⟩
  | ok s =>
    obtain ⟨_, hreplayer, _, _⟩ := enter_inv hent
    have hslots := slotsAt_mirrors rnd side schedule (m.store replayer (m initial)) replayer
      s.updates s.result ((slots rnd total schedule).take schedule.slices)
    rw [store_self, ← hreplayer] at hslots
    have hslots := hslots.store
    rw [← hreplayer]
    dsimp only
    cases hrun : Lib.run (slot rnd side schedule) s
        ((slots rnd total schedule).take schedule.slices) with
    | error e =>
      rw [hrun] at hslots
      obtain ⟨r, hr⟩ := hslots
      simp only [hr]
      exact ⟨rfl, fun object hne => store_other _ _ _ hne⟩
    | ok t =>
      rw [hrun] at hslots
      have hcall : slotsAt rnd side schedule (m.store replayer s.replayer) replayer
          (s.updates, s.result) ((slots rnd total schedule).take schedule.slices) =
            .ok (t.updates, t.result) (m.store replayer t.replayer) := hslots
      simp only [hcall]
      exact ⟨rfl, fun object hne => store_other _ _ _ hne⟩

/-- From the state after accepted rows up to the start, against the call on all the rows. -/
theorem resume_replays (total : Double) (m : Objects) {initial replayer : Nat}
    {rows : List BookUpdate} (hrows : ({} : BookReplayer).applyRows rows = .ok () (m initial))
    (hstart : ∀ u ∈ rows, u.timestamp ≤ schedule.startTimestamp) (hfresh : initial ≠ replayer)
    (rest : List BookUpdate) :
    let call := simulateSlicedExecutionFromStateAt rnd m initial replayer rest side total schedule
    call.outcome = simulateSlicedExecution rnd (rows ++ rest) side total schedule ∧
      call.state initial = m initial ∧ ∀ object ≠ replayer, call.state object = m object := by
  obtain ⟨houtcome, hframe⟩ := simulateAt_mirrors rnd side schedule total m initial replayer rest
  refine ⟨?_, hframe initial hfresh, hframe⟩
  rw [simulate_resumed hrows hstart]
  exact houtcome

/-- A cut inside the opening block; a diff, a resync and a row that goes back in time follow. -/
theorem resume_replays_insideBlock :
    let rows : List BookUpdate := [.snap 1000 .bid 99 5]
    let rest : List BookUpdate := [.snap 1000 .ask 101 7, .diff 1001 .ask 102 1,
      .snap 1040 .ask 101 3, .diff 1030 .ask 101 0]
    let schedule : SliceSchedule := { startTimestamp := 1000, durationMs := 100, slices := 2 }
    let checkpoint := (({} : BookReplayer).applyRows rows).state
    let call := simulateSlicedExecutionFromStateAt exact (fun _ => checkpoint) 0 1 rest .buy
      (.finite 4) schedule
    call.outcome = simulateSlicedExecution exact (rows ++ rest) .buy (.finite 4) schedule ∧
      call.state 0 = checkpoint :=
  have h := resume_replays exact .buy { startTimestamp := 1000, durationMs := 100, slices := 2 }
    (.finite 4) (fun _ => (({} : BookReplayer).applyRows [.snap 1000 .bid 99 5]).state) rfl
    (by simp [BookUpdate.snap]) (by simp : 0 ≠ 1) _
  ⟨h.1, h.2.1⟩

end Impact
end PerpCarry
