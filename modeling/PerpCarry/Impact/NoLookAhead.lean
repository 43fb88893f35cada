import PerpCarry.Impact.SlicedExecution

/-!
# Impact.NoLookAhead

A slice cannot see the rows that arrive after it.

* `advance_append`, `slot_append`: rows that begin after a slot's time stay behind the cursor.
* `executeSlots_append`: so do they over all slots up to that one, if none of them is later.
* `Unseen`: two feeds throw the same error before slot `i` is done or give the same fills for all
  slots up to `i`. If `i` is the last slot the calls are equal.
* `unseen_of_ordered`: whatever the times are, if they are in order.
-/

namespace PerpCarry
namespace Impact

variable {rnd : Rounding} {side : OrderSide} {schedule : SliceSchedule} {total : Double}

theorem sliceTime_mono (hd : 0 ≤ schedule.durationMs) (hn : 0 < schedule.slices) {i j : Nat}
    (h : i ≤ j) : sliceTime schedule i ≤ sliceTime schedule j := by
  unfold sliceTime
  have hi : 0 ≤ schedule.durationMs * i := Int.mul_nonneg hd (by omega)
  have hj : 0 ≤ schedule.durationMs * j := Int.mul_nonneg hd (by omega)
  rw [Int.tdiv_eq_ediv_of_nonneg hi, Int.tdiv_eq_ediv_of_nonneg hj]
  have hij : schedule.durationMs * i ≤ schedule.durationMs * j :=
    Int.mul_le_mul_of_nonneg_left (by omega) hd
  have := Int.ediv_le_ediv (by omega : (0 : Int) < schedule.slices) hij
  omega

/-- The rows `suffix`, not yet read, behind those of `s`. -/
def Execution.followedBy (suffix : List BookUpdate) (s : Execution) : Execution :=
  { s with updates := s.updates ++ suffix }

/-- The rows of `suffix` begin after `time`. -/
def BeginsAfter (time : Int) (suffix : List BookUpdate) : Prop :=
  ∀ u ∈ suffix.head?, time < u.timestamp

variable {suffix : List BookUpdate} {time : Int}

theorem advance_after (h : BeginsAfter time suffix) (r : BookReplayer) :
    advance r time suffix = .ok (r, suffix) := by
  cases suffix with
  | nil => rfl
  | cons u us =>
    have : time < u.timestamp := h u rfl
    unfold advance
    rw [if_neg (by omega)]

theorem advance_append (h : BeginsAfter time suffix) (r : BookReplayer) (rows : List BookUpdate) :
    advance r time (rows ++ suffix) =
      (advance r time rows).map fun a => (a.1, a.2 ++ suffix) := by
  induction rows generalizing r with
  | nil => exact advance_after h r
  | cons u us ih =>
    simp only [List.cons_append, advance]
    by_cases hu : u.timestamp ≤ time
    · rw [if_pos hu, if_pos hu]
      cases r.apply u with
      | ok x r' => exact ih r'
      | error e r' => rfl
    · rw [if_neg hu, if_neg hu]
      rfl

theorem slot_append {times : Nat → Int} (slice : Double × Nat)
    (h : BeginsAfter (times slice.2) suffix) (s : Execution) :
    slotBy rnd side times (s.followedBy suffix) slice =
      (slotBy rnd side times s slice).map (Execution.followedBy suffix) := by
  simp only [slotBy, Execution.followedBy, advance_append h]
  cases advance s.replayer (times slice.2) s.updates with
  | error e => rfl
  | ok a =>
    simp only [Except.map]
    by_cases hz : slice.1.le .zero = true
    · rw [if_pos hz, if_pos hz]
      rfl
    · rw [if_neg hz, if_neg hz]
      cases executeMarketOrder rnd a.1.book side slice.1 <;> rfl

theorem mem_slots_take {k : Nat} {slice : Double × Nat}
    (h : slice ∈ (slots rnd total schedule).take k) : slice.2 < k := by
  obtain ⟨j, hj, rfl⟩ := List.getElem_of_mem h
  have : j < k := by
    have := List.length_take_le k (slots rnd total schedule)
    omega
  simpa [slots] using this

variable {initial : BookReplayer} {rows : List BookUpdate}

theorem enter_append :
    enter rnd initial (rows ++ suffix) total schedule =
      (enter rnd initial rows total schedule).map (Execution.followedBy suffix) := by
  unfold enter
  split
  · rfl
  · split <;> rfl

theorem enter_inv {s : Execution} (h : enter rnd initial rows total schedule = .ok s) :
    validateSchedule rnd total schedule = .ok () ∧ s.replayer = initial ∧ s.updates = rows ∧
      s.result = { parent := { requestedQuantity := total } } := by
  unfold enter at h
  split at h
  · cases h
  · rename_i hv
    split at h
    · cases h
    · cases h
      exact ⟨hv, rfl, rfl, rfl⟩

/-- Slots up to `i` pass over the suffix. -/
theorem executeSlots_append {times : Nat → Int} {i k : Nat} (hk : k ≤ i + 1)
    (horder : Validated rnd total schedule → ∀ j ≤ i, times j ≤ times i)
    (h : BeginsAfter (times i) suffix) :
    executeSlotsBy rnd times initial (rows ++ suffix) side total schedule k =
      (executeSlotsBy rnd times initial rows side total schedule k).map
        (Execution.followedBy suffix) := by
  unfold executeSlotsBy
  rw [enter_append]
  cases hent : enter rnd initial rows total schedule with
  | error e => rfl
  | ok entry =>
    have hvalid := validateSchedule_ok (enter_inv hent).1
    refine Lib.run_map (f := Execution.followedBy suffix) (fun slice hmem s => ?_) entry
    refine slot_append slice (fun u hu => ?_) s
    have hlt : slice.2 < k := mem_slots_take hmem
    have : times slice.2 ≤ times i := horder hvalid _ (by omega)
    have := h u hu
    omega

/-! ## What later slots leave alone -/

variable {times : Nat → Int}

theorem slot_slices {s s' : Execution} {slice : Double × Nat}
    (h : slotBy rnd side times s slice = .ok s') : s.result.slices <+: s'.result.slices := by
  simp only [slotBy] at h
  split at h
  · cases h
  · split at h
    · cases h
      exact List.prefix_refl _
    · split at h
      · cases h
      · cases h
        exact List.prefix_append _ _

theorem run_slices {s s' : Execution} {slices : List (Double × Nat)}
    (h : Lib.run (slotBy rnd side times) s slices = .ok s') :
    s.result.slices <+: s'.result.slices :=
  Lib.run_history (fun _ t => s.result.slices <+: t.result.slices)
    (fun _ _ _ _ ht hstep => ht.trans (slot_slices hstep)) [] (List.prefix_refl _) h

variable {k n : Nat}

/-- The first `n` slots are the first `k` and then the others. -/
theorem executeSlots_le (hkn : k ≤ n) :
    executeSlotsBy rnd times initial rows side total schedule n =
      (executeSlotsBy rnd times initial rows side total schedule k).bind fun s =>
        Lib.run (slotBy rnd side times) s (((slots rnd total schedule).take n).drop k) := by
  unfold executeSlotsBy
  cases enter rnd initial rows total schedule with
  | error e => rfl
  | ok entry =>
    have hsplit := List.take_append_drop k ((slots rnd total schedule).take n)
    rw [List.take_take, Nat.min_eq_left hkn] at hsplit
    show Lib.run _ entry _ = (Lib.run _ entry _).bind _
    rw [← Lib.run_append, hsplit]

/-! ## Two feeds -/

theorem call_after (hk : k ≤ schedule.slices) :
    (∀ e, executeSlotsBy rnd times {} rows side total schedule k = .error e →
      simulateBy rnd times rows side total schedule = .error e) ∧
    ∀ s, executeSlotsBy rnd times {} rows side total schedule k = .ok s →
      ∀ f, simulateBy rnd times rows side total schedule = .ok f →
        s.result.slices <+: f.slices := by
  unfold simulateBy
  rw [executeSlots_le hk]
  constructor
  · intro e h
    rw [h]
    rfl
  · intro s h f hf
    rw [h] at hf
    simp only [Except.bind] at hf
    cases hrun : Lib.run (slotBy rnd side times) s
        (((slots rnd total schedule).take schedule.slices).drop k) with
    | error e => rw [hrun] at hf; cases hf
    | ok t =>
      rw [hrun] at hf
      cases hf
      exact run_slices hrun

/-- Two calls, on `rows` and on `rows` with a suffix, are the same up to slot `i`. -/
structure Unseen (rnd : Rounding) (times : Nat → Int) (rows suffix : List BookUpdate)
    (side : OrderSide) (total : Double) (schedule : SliceSchedule) (i : Nat) : Prop where
  slots : ∀ j ≤ i,
    let after feed := executeSlotsBy rnd times {} feed side total schedule (j + 1)
    let call feed := simulateBy rnd times feed side total schedule
    (∃ e, after rows = .error e ∧ after (rows ++ suffix) = .error e ∧
      call rows = .error e ∧ call (rows ++ suffix) = .error e) ∨
    ∃ s s', after rows = .ok s ∧ after (rows ++ suffix) = .ok s' ∧
      s.result = s'.result ∧ s.replayer = s'.replayer ∧
      (∀ f, call rows = .ok f → s.result.slices <+: f.slices) ∧
      ∀ f, call (rows ++ suffix) = .ok f → s.result.slices <+: f.slices
  whole : i + 1 = schedule.slices →
    simulateBy rnd times rows side total schedule =
      simulateBy rnd times (rows ++ suffix) side total schedule

/-- A suffix that begins after the time of slot `i`, when no slot before it is later. -/
theorem unseen_of_ordered {suffix : List BookUpdate} {i : Nat} (hi : i < schedule.slices)
    (horder : ∀ j ≤ i, times j ≤ times i) (hs : BeginsAfter (times i) suffix) :
    Unseen rnd times rows suffix side total schedule i := by
  have happend : ∀ k ≤ i + 1,
      executeSlotsBy rnd times {} (rows ++ suffix) side total schedule k =
        (executeSlotsBy rnd times {} rows side total schedule k).map (.followedBy suffix) :=
    fun k hk => executeSlots_append hk (fun _ => horder) hs
  constructor
  · intro j hj
    have hk : j + 1 ≤ schedule.slices := by omega
    have hsuffix := happend (j + 1) (by omega)
    cases hrows : executeSlotsBy rnd times {} rows side total schedule (j + 1) with
    | error e =>
      rw [hrows] at hsuffix
      exact .inl ⟨e, hrows, hsuffix, (call_after hk).1 e hrows, (call_after hk).1 e hsuffix⟩
    | ok s =>
      rw [hrows] at hsuffix
      exact .inr ⟨s, s.followedBy suffix, hrows, hsuffix, rfl, rfl, (call_after hk).2 s hrows,
        (call_after hk).2 (s.followedBy suffix) hsuffix⟩
  · intro hlast
    unfold simulateBy
    rw [happend schedule.slices (by omega)]
    cases executeSlotsBy rnd times {} rows side total schedule schedule.slices <;> rfl

end Impact
end PerpCarry
