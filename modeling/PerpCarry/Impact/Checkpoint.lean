import PerpCarry.Impact.NoLookAhead

/-!
# Impact.Checkpoint

Sliced execution from a replayer that has already taken the rows up to the start.

* `applyRows_within`: the replayer's clock is not beyond the rows it has taken.
* `slot_resumed`: slot 0 replays those rows, or finds them replayed.
* `simulate_resumed`: the call from the checkpoint is the call on the whole stream.
* `simulate_horizon`: rows behind the last slot's time change nothing.
-/

namespace PerpCarry
namespace Impact

variable {rnd : Rounding} {side : OrderSide} {schedule : SliceSchedule} {total : Double}
  {r r' : BookReplayer} {rows rest : List BookUpdate} {time : Int}

theorem applyRows_within (h : r.applyRows rows = .ok () r')
    (hr : 0 < r.stats.applied → r.stats.lastTimestamp ≤ time)
    (hrows : ∀ u ∈ rows, u.timestamp ≤ time) :
    0 < r'.stats.applied → r'.stats.lastTimestamp ≤ time := by
  induction rows generalizing r with
  | nil =>
    cases h
    exact hr
  | cons u us ih =>
    obtain ⟨r₁, hu, h⟩ := BookReplayer.applyRows_cons_ok.mp h
    obtain ⟨_, book, _, rfl⟩ := BookReplayer.apply_ok_inv hu
    refine ih h (fun _ => hrows u (List.mem_cons_self ..)) ?_
    intro v hv
    exact hrows v (List.mem_cons_of_mem _ hv)

theorem advance_resumed (h : r.applyRows rows = .ok () r')
    (hrows : ∀ u ∈ rows, u.timestamp ≤ time) (rest : List BookUpdate) :
    advance r time (rows ++ rest) = advance r' time rest := by
  induction rows generalizing r with
  | nil =>
    cases h
    rfl
  | cons u us ih =>
    obtain ⟨r₁, hu, h⟩ := BookReplayer.applyRows_cons_ok.mp h
    simp only [List.cons_append, advance]
    rw [if_pos (hrows u (List.mem_cons_self ..)), hu]
    exact ih h fun v hv => hrows v (List.mem_cons_of_mem _ hv)

theorem sliceTime_zero : sliceTime schedule 0 = schedule.startTimestamp := by
  simp [sliceTime]

theorem slot_resumed (h : r.applyRows rows = .ok () r')
    (hrows : ∀ u ∈ rows, u.timestamp ≤ schedule.startTimestamp) (result : SlicedFill)
    (size : Double) :
    slot rnd side schedule ⟨r, rows ++ rest, result⟩ (size, 0) =
      slot rnd side schedule ⟨r', rest, result⟩ (size, 0) := by
  simp only [slot, slotBy, sliceTime_zero, advance_resumed h hrows]

theorem slots_first (h : 0 < schedule.slices) :
    ∃ size others, (slots rnd total schedule).take schedule.slices = (size, 0) :: others := by
  obtain ⟨n, hn⟩ : ∃ n, schedule.slices = n + 1 := ⟨schedule.slices - 1, by omega⟩
  rw [hn]
  unfold slots
  cases hsizes : sliceQuantities rnd total schedule with
  | nil => simp [sliceQuantities] at hsizes
  | cons size sizes => exact ⟨size, _, rfl⟩

/-- The call on the whole stream, and the call from where its first rows lead. -/
theorem simulate_resumed (h : ({} : BookReplayer).applyRows rows = .ok () r)
    (hrows : ∀ u ∈ rows, u.timestamp ≤ schedule.startTimestamp) (rest : List BookUpdate) :
    simulateSlicedExecution rnd (rows ++ rest) side total schedule =
      simulateSlicedExecutionFromState rnd r rest side total schedule := by
  unfold simulateSlicedExecution simulateSlicedExecutionFromState executeSlots executeSlotsBy enter
  cases hvalid : validateSchedule rnd total schedule with
  | error e => rfl
  | ok x =>
    have hclock := applyRows_within h (nofun) hrows
    obtain ⟨size, others, hslots⟩ :
        ∃ size others, (slots rnd total schedule).take schedule.slices = (size, 0) :: others :=
      slots_first (validateSchedule_ok hvalid).slices_pos
    have hstart : ¬ (0 < r.stats.applied ∧ schedule.startTimestamp < r.stats.lastTimestamp) := by
      rintro ⟨happlied, hlate⟩
      have := hclock happlied
      omega
    rw [if_neg (fun hstarted => absurd hstarted.1 (by decide)), if_neg hstart]
    simp only [hslots, Lib.run, slot_resumed h hrows]

/-- Rows that begin after the last slot's time change nothing. -/
theorem simulate_horizon {suffix : List BookUpdate} (hn : 0 < schedule.slices)
    (h : BeginsAfter (sliceTime schedule (schedule.slices - 1)) suffix) :
    simulateSlicedExecutionFromState rnd r (rows ++ suffix) side total schedule =
      simulateSlicedExecutionFromState rnd r rows side total schedule := by
  have horder : Validated rnd total schedule →
      ∀ j ≤ schedule.slices - 1, sliceTime schedule j ≤ sliceTime schedule (schedule.slices - 1) :=
    fun hvalid j hj => sliceTime_mono hvalid.duration_nonneg hvalid.slices_pos hj
  unfold simulateSlicedExecutionFromState executeSlots
  rw [executeSlots_append (by omega) horder h]
  cases executeSlotsBy rnd (sliceTime schedule) r rows side total schedule schedule.slices <;> rfl

end Impact
end PerpCarry
