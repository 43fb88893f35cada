import PerpCarry.Impact.Checkpoint
import PerpCarry.Models.CalibrationDataset

/-!
# Models.SliceGrid

The slice times in machine words: the grid of `cpp/src/impact_simulator.cpp` beside the bound that
`python/perpcarry/models/calibration_dataset.py` computes for its last slice.

C++ multiplies before it divides, in `std::int64_t`, where a result that does not fit is undefined;
Python has no such limit. `sliceTime64` is `none` where the C++ is undefined.

* `sliceTime64_eq`: within `GridFits` every time is the unbounded one.
* `grid_iff_fits`: for a schedule that is accepted, the grid is sound exactly within it.
* `no_look_ahead_iff`: and the slots are blind to later rows exactly within it, whatever a compiled
  call does where the C++ is undefined.
* `slices_covered`: and then the groups that Python has read ahead are all that C++ looks at.
-/

namespace PerpCarry
namespace Models
namespace Calibration

open Impact

/-- The values of a `std::int64_t`. -/
def FitsInt64 (value : Int) : Prop := -2 ^ 63 ≤ value ∧ value < 2 ^ 63

instance (value : Int) : Decidable (FitsInt64 value) := by unfold FitsInt64; infer_instance

/-- The result of an operation on `std::int64_t`, which is undefined when it does not fit. -/
def checked (value : Int) : Option Int := if FitsInt64 value then some value else none

/-- `static_cast<std::int64_t>` of a `std::size_t`. -/
def toInt64 (value : Nat) : Int := (value : Int).bmod (2 ^ 64)

/-- A schedule whose fields are machine words. -/
structure MachineSchedule (schedule : SliceSchedule) : Prop where
  start : FitsInt64 schedule.startTimestamp
  duration : FitsInt64 schedule.durationMs
  slices : schedule.slices < 2 ^ 64

/-- `slice_time` of slot `i`, one machine operation after the other. -/
def sliceTime64 (schedule : SliceSchedule) (i : Nat) : Option Int := do
  let product ← checked (schedule.durationMs * toInt64 i)
  let share ← checked (product.tdiv (toInt64 schedule.slices))
  checked (schedule.startTimestamp + share)

/-- `last_slice`, of the schedule that is handed to C++. -/
def lastSlice (schedule : SliceSchedule) : Int :=
  schedule.startTimestamp + schedule.durationMs * ((schedule.slices - 1 : Nat) : Int) /
    schedule.slices

theorem lastSlice_sliceSchedule (args : Arguments) (timestamp : Int) :
    lastSlice (args.sliceSchedule timestamp) = args.lastSlice timestamp := rfl

/-- What the slots of a schedule are to be: defined, in order, from the start to the last slice. -/
structure SoundGrid (schedule : SliceSchedule) : Prop where
  defined : ∀ i < schedule.slices, ∃ time, sliceTime64 schedule i = some time
  first : sliceTime64 schedule 0 = some schedule.startTimestamp
  ordered : ∀ i j a b, i ≤ j → j < schedule.slices → sliceTime64 schedule i = some a →
    sliceTime64 schedule j = some b → a ≤ b
  within : ∀ i time, i < schedule.slices → sliceTime64 schedule i = some time →
    schedule.startTimestamp ≤ time ∧ time ≤ schedule.startTimestamp + schedule.durationMs
  last : sliceTime64 schedule (schedule.slices - 1) = some (lastSlice schedule)

/-- The largest product and the largest sum fit. -/
def GridFits (schedule : SliceSchedule) : Prop :=
  schedule.durationMs * ((schedule.slices - 1 : Nat) : Int) < 2 ^ 63 ∧
    lastSlice schedule < 2 ^ 63

theorem checked_eq {value result : Int} :
    checked value = some result ↔ FitsInt64 value ∧ result = value := by
  unfold checked
  by_cases h : FitsInt64 value
  · simp [h, eq_comm]
  · simp [h]

theorem toInt64_small {value : Nat} (h : value < 2 ^ 63) : toInt64 value = value := by
  unfold toInt64
  apply Int.bmod_eq_of_le
  · omega
  · omega

/-- Above the middle a size wraps to a negative number. -/
theorem toInt64_large {value : Nat} (h : 2 ^ 63 ≤ value) (hword : value < 2 ^ 64) :
    toInt64 value = value - 2 ^ 64 := by
  unfold toInt64
  rw [Int.bmod_def, Int.emod_eq_of_lt (by omega) (by omega), if_neg (by omega)]
  omega

variable {schedule : SliceSchedule}

theorem sliceTime64_some {i : Nat} {time : Int} :
    sliceTime64 schedule i = some time ↔
      FitsInt64 (schedule.durationMs * toInt64 i) ∧
      FitsInt64 ((schedule.durationMs * toInt64 i).tdiv (toInt64 schedule.slices)) ∧
      FitsInt64 (schedule.startTimestamp +
        (schedule.durationMs * toInt64 i).tdiv (toInt64 schedule.slices)) ∧
      time = schedule.startTimestamp +
        (schedule.durationMs * toInt64 i).tdiv (toInt64 schedule.slices) := by
  unfold sliceTime64
  simp only [Option.bind_eq_bind, Option.bind_eq_some_iff, checked_eq]
  constructor
  · rintro ⟨_, ⟨hproduct, rfl⟩, _, ⟨hshare, rfl⟩, htime, rfl⟩
    exact ⟨hproduct, hshare, htime, rfl⟩
  · rintro ⟨hproduct, hshare, htime, rfl⟩
    exact ⟨_, ⟨hproduct, rfl⟩, _, ⟨hshare, rfl⟩, htime, rfl⟩

/-! ## Within the bounds -/

theorem sliceTime_bounds (hduration : 0 ≤ schedule.durationMs) {i : Nat}
    (hi : i < schedule.slices) : schedule.startTimestamp ≤ sliceTime schedule i ∧
      sliceTime schedule i ≤ schedule.startTimestamp + schedule.durationMs ∧
      sliceTime schedule i ≤ lastSlice schedule := by
  have hproduct : 0 ≤ schedule.durationMs * (i : Int) := Int.mul_nonneg hduration (by omega)
  have hslices : (0 : Int) < schedule.slices := by omega
  have hle : schedule.durationMs * (i : Int) ≤ schedule.durationMs * schedule.slices :=
    Int.mul_le_mul_of_nonneg_left (by omega) hduration
  have hlast : schedule.durationMs * (i : Int) ≤
      schedule.durationMs * ((schedule.slices - 1 : Nat) : Int) :=
    Int.mul_le_mul_of_nonneg_left (by omega) hduration
  unfold sliceTime lastSlice
  rw [Int.tdiv_eq_ediv_of_nonneg hproduct]
  have hshare := Int.ediv_nonneg hproduct hslices.le
  have hwhole := Int.ediv_le_ediv hslices hle
  have hbefore := Int.ediv_le_ediv hslices hlast
  rw [Int.mul_ediv_cancel _ hslices.ne'] at hwhole
  omega

/-- Where the largest product fits, neither cast changes a result: a count of slices that wraps goes
with a duration of at most one millisecond. -/
theorem machine_share (hduration : 0 ≤ schedule.durationMs) (hword : schedule.slices < 2 ^ 64)
    (hproduct : schedule.durationMs * ((schedule.slices - 1 : Nat) : Int) < 2 ^ 63) {i : Nat}
    (hi : i < schedule.slices) :
    schedule.durationMs * toInt64 i = schedule.durationMs * i ∧
      (schedule.durationMs * i).tdiv (toInt64 schedule.slices) =
        (schedule.durationMs * i).tdiv schedule.slices := by
  rcases hduration.eq_or_lt with hzero | hpos
  · simp [← hzero]
  · have hcount : ((schedule.slices - 1 : Nat) : Int) ≤
        schedule.durationMs * ((schedule.slices - 1 : Nat) : Int) :=
      le_mul_of_one_le_left (Int.natCast_nonneg _) hpos
    have hsmall : i < 2 ^ 63 := by omega
    rw [toInt64_small hsmall]
    refine ⟨rfl, ?_⟩
    by_cases hslices : schedule.slices < 2 ^ 63
    · rw [toInt64_small hslices]
    · have hexact : schedule.slices = 2 ^ 63 := by omega
      have hone : schedule.durationMs = 1 := by
        rw [hexact] at hproduct
        omega
      rw [toInt64_large (not_lt.mp hslices) hword, hone, one_mul, hexact]
      have hwraps : ((2 ^ 63 : Nat) : Int) - 2 ^ 64 = -((2 ^ 63 : Nat) : Int) := by norm_num
      have hnothing : (i : Int).tdiv ((2 ^ 63 : Nat) : Int) = 0 :=
        Int.tdiv_eq_zero_of_lt (Int.natCast_nonneg _) (by exact_mod_cast hsmall)
      rw [hwraps, Int.tdiv_neg, hnothing, neg_zero]

/-- Where the largest results fit, every machine result is the unbounded one. -/
theorem sliceTime64_eq (hmachine : MachineSchedule schedule) (hduration : 0 ≤ schedule.durationMs)
    (hfits : GridFits schedule) {i : Nat} (hi : i < schedule.slices) :
    sliceTime64 schedule i = some (sliceTime schedule i) := by
  obtain ⟨hstart, hend, hlate⟩ := sliceTime_bounds hduration hi
  obtain ⟨hproduct, hshare⟩ := machine_share hduration hmachine.slices hfits.1 hi
  have hlower : 0 ≤ schedule.durationMs * (i : Int) := Int.mul_nonneg hduration (by omega)
  have hupper : schedule.durationMs * (i : Int) ≤
      schedule.durationMs * ((schedule.slices - 1 : Nat) : Int) :=
    Int.mul_le_mul_of_nonneg_left (by omega) hduration
  have hlargest := hfits.1
  have hsum := hfits.2
  have hfirst := hmachine.start.1
  have hlength := hmachine.duration.2
  have htime : sliceTime schedule i = schedule.startTimestamp +
      (schedule.durationMs * (i : Int)).tdiv schedule.slices := rfl
  rw [sliceTime64_some, hproduct, hshare, ← htime]
  unfold FitsInt64
  refine ⟨⟨?_, ?_⟩, ⟨?_, ?_⟩, ⟨?_, ?_⟩, rfl⟩ <;> omega

theorem sliceTime_last (hduration : 0 ≤ schedule.durationMs) :
    sliceTime schedule (schedule.slices - 1) = lastSlice schedule := by
  have hnonneg : 0 ≤ schedule.durationMs * ((schedule.slices - 1 : Nat) : Int) :=
    Int.mul_nonneg hduration (Int.natCast_nonneg _)
  unfold sliceTime lastSlice
  rw [Int.tdiv_eq_ediv_of_nonneg hnonneg]

theorem fits_sound (hmachine : MachineSchedule schedule) (hduration : 0 ≤ schedule.durationMs)
    (hslices : 0 < schedule.slices) (hfits : GridFits schedule) : SoundGrid schedule := by
  have htimes : ∀ i < schedule.slices, sliceTime64 schedule i = some (sliceTime schedule i) :=
    fun i hi => sliceTime64_eq hmachine hduration hfits hi
  refine ⟨?_, ?_, ?_, ?_, ?_⟩
  · intro i hi
    exact ⟨_, htimes i hi⟩
  · rw [htimes 0 hslices]
    simp [sliceTime]
  · intro i j a b hij hj ha hb
    rw [htimes i (by omega)] at ha
    rw [htimes j hj] at hb
    cases ha
    cases hb
    exact sliceTime_mono hduration hslices hij
  · intro i time hi htime
    rw [htimes i hi] at htime
    cases htime
    obtain ⟨hstart, hend, _⟩ := sliceTime_bounds hduration hi
    exact ⟨hstart, hend⟩
  · rw [htimes _ (by omega), sliceTime_last hduration]

/-! ## Only within the bounds -/

/-- Every slot has a time, and none is before the start. -/
def Started (schedule : SliceSchedule) : Prop :=
  ∀ i < schedule.slices, ∃ time, sliceTime64 schedule i = some time ∧
    schedule.startTimestamp ≤ time

/-- With so many slices that their number wraps, the last positive slot divides by a negative number
that is no larger. -/
theorem few_slices (hmachine : MachineSchedule schedule) (hpos : 0 < schedule.durationMs)
    (hstarted : Started schedule) : schedule.slices ≤ 2 ^ 63 := by
  by_contra hmany
  obtain ⟨time, htime, hstart⟩ := hstarted (2 ^ 63 - 1) (by omega)
  obtain ⟨hproduct, _, _, rfl⟩ := sliceTime64_some.mp htime
  have hslot : toInt64 (2 ^ 63 - 1) = 2 ^ 63 - 1 := by
    rw [toInt64_small (by norm_num)]
    norm_num
  have hone : schedule.durationMs = 1 := by
    have hfits := hproduct.2
    rw [hslot] at hfits
    omega
  have hword := hmachine.slices
  rw [hslot, hone, toInt64_large (by omega) hword, one_mul] at hstart
  have hdivisor : (schedule.slices : Int) - 2 ^ 64 = -(2 ^ 64 - schedule.slices) := by ring
  have hquotient : (1 : Int) ≤ (2 ^ 63 - 1 : Int).tdiv (2 ^ 64 - schedule.slices) := by
    rw [Int.tdiv_eq_ediv_of_nonneg (by norm_num), Int.le_ediv_iff_mul_le (by omega)]
    omega
  rw [hdivisor, Int.tdiv_neg] at hstart
  omega

theorem started_fits (hmachine : MachineSchedule schedule) (hduration : 0 ≤ schedule.durationMs)
    (hslices : 0 < schedule.slices) (hstarted : Started schedule) : GridFits schedule := by
  rcases hduration.eq_or_lt with hzero | hpos
  · have hstart := hmachine.start.2
    unfold GridFits lastSlice
    rw [← hzero, zero_mul, Int.zero_ediv]
    omega
  · have hfew := few_slices hmachine hpos hstarted
    obtain ⟨time, htime, -⟩ := hstarted (schedule.slices - 1) (by omega)
    obtain ⟨hproduct, _, hsum, -⟩ := sliceTime64_some.mp htime
    have hlarge := hproduct.2
    rw [toInt64_small (by omega)] at hlarge
    obtain ⟨heq, hshare⟩ := machine_share hduration hmachine.slices hlarge
      (by omega : schedule.slices - 1 < schedule.slices)
    refine ⟨hlarge, ?_⟩
    rw [heq, hshare] at hsum
    rw [← sliceTime_last hduration]
    exact hsum.2

theorem sound_fits (hmachine : MachineSchedule schedule) (hduration : 0 ≤ schedule.durationMs)
    (hslices : 0 < schedule.slices) (hsound : SoundGrid schedule) : GridFits schedule := by
  refine started_fits hmachine hduration hslices ?_
  intro i hi
  obtain ⟨time, htime⟩ := hsound.defined i hi
  exact ⟨time, htime, (hsound.within i time hi htime).1⟩

/-- Of the schedules that are accepted, the ones whose grid is sound. -/
theorem grid_iff_fits {rnd : Rounding} {total : Double} (hmachine : MachineSchedule schedule)
    (h : validateSchedule rnd total schedule = .ok ()) :
    SoundGrid schedule ↔ GridFits schedule := by
  have hvalid := validateSchedule_ok h
  constructor
  · exact sound_fits hmachine hvalid.duration_nonneg hvalid.slices_pos
  · exact fits_sound hmachine hvalid.duration_nonneg hvalid.slices_pos

/-- Ten seconds in five slices, what calibration asks for by default. -/
def defaultSchedule : SliceSchedule where
  startTimestamp := 1750000000000
  durationMs := 10000
  slices := 5

theorem grid_iff_fits_default : SoundGrid defaultSchedule := by
  have hmachine : MachineSchedule defaultSchedule := ⟨by decide, by decide, by decide⟩
  have haccepted : validateSchedule exact (.finite 1) defaultSchedule = .ok () := by decide +kernel
  refine (grid_iff_fits hmachine haccepted).mpr ?_
  unfold GridFits
  decide

/-- Three slices over `2 ^ 62` ms: the last product is `2 ^ 63`. -/
def longSchedule : SliceSchedule where
  durationMs := 4611686018427387904
  slices := 3

theorem grid_overflows : MachineSchedule longSchedule ∧
    validateSchedule exact (.finite 1) longSchedule = .ok () ∧
    sliceTime64 longSchedule 2 = none ∧ ¬ SoundGrid longSchedule := by
  have hnone : sliceTime64 longSchedule 2 = none := by decide
  refine ⟨⟨by decide, by decide, by decide⟩, by decide +kernel, hnone, ?_⟩
  intro hsound
  obtain ⟨time, htime⟩ := hsound.defined 2 (by decide)
  rw [hnone] at htime
  cases htime

/-! ## The law of two feeds -/

/-- The times of a compiled call: those of the machine, and anything where they are undefined. -/
def Compiled (schedule : SliceSchedule) (times : Nat → Int) : Prop :=
  ∀ i < schedule.slices, ∀ time, sliceTime64 schedule i = some time → times i = time

/-- No slot sees rows that begin after its time, whatever they are. -/
def NoLookAhead (rnd : Rounding) (times : Nat → Int) (total : Double) (schedule : SliceSchedule) :
    Prop :=
  ∀ (rows suffix : List BookUpdate) (side : OrderSide) (i : Nat), i < schedule.slices →
    BeginsAfter (times i) suffix → Unseen rnd times rows suffix side total schedule i

theorem sliceTime64_zero (hmachine : MachineSchedule schedule) :
    sliceTime64 schedule 0 = some schedule.startTimestamp := by
  have hslot : toInt64 0 = 0 := toInt64_small (by norm_num)
  rw [sliceTime64_some, hslot, mul_zero, Int.zero_tdiv, add_zero]
  exact ⟨by decide, by decide, hmachine.start, rfl⟩

theorem executeMarketOrder_invalid {rnd : Rounding} {side : OrderSide} {size : Double} {e : Error}
    {book : OrderBook} (h : executeMarketOrder rnd {} side size = .error e book) :
    ∃ what, e = .invalidArgument what := by
  have hempty : ∀ side, OrderBook.levels {} (consumedSide side) = [] := by
    intro side
    cases side <;> rfl
  unfold executeMarketOrder walk at h
  split at h
  · rename_i hwalk
    split at hwalk
    · cases hwalk
      cases h
      exact ⟨_, rfl⟩
    · cases hwalk
  · rename_i hwalk
    split at hwalk
    · cases hwalk
    · cases hwalk
      rw [hempty] at h
      cases h

section FirstSlot

variable {rnd : Rounding} {total : Double} {times : Nat → Int}

/-- The first slot of an accepted call. -/
theorem executeSlots_first (h : validateSchedule rnd total schedule = .ok ()) (side : OrderSide)
    (rows : List BookUpdate) : ∃ size,
      executeSlotsBy rnd times {} rows side total schedule 1 =
        slotBy rnd side times ⟨{}, rows, { parent := { requestedQuantity := total } }⟩
          (size, 0) := by
  have hslices := (validateSchedule_ok h).slices_pos
  obtain ⟨size, others, hslots⟩ := @slots_first rnd schedule total hslices
  have htake := congrArg (List.take 1) hslots
  rw [List.take_take, Nat.min_eq_left hslices] at htake
  refine ⟨size, ?_⟩
  have henter : enter rnd {} rows total schedule =
      .ok ⟨{}, rows, { parent := { requestedQuantity := total } }⟩ := by
    rw [enter, h]
    rfl
  unfold executeSlotsBy
  rw [henter, htake, List.take_succ_cons, List.take_zero]
  simp only [Lib.run]
  cases slotBy rnd side times ⟨{}, rows, { parent := { requestedQuantity := total } }⟩ (size, 0) <;>
    rfl

/-- With no rows the first slot can only refuse its size. -/
theorem first_alone {side : OrderSide} {size : Double} {result : SlicedFill} {e : Error}
    (h : slotBy rnd side times ⟨{}, [], result⟩ (size, 0) = .error e) :
    ∃ what, e = .invalidArgument what := by
  simp only [slotBy, advance] at h
  split at h
  · cases h
  · split at h
    · rename_i horder
      cases h
      exact executeMarketOrder_invalid horder
    · cases h

/-- A slot before the start would be after slot 0, which has read a row of its millisecond. -/
theorem start_le (h : validateSchedule rnd total schedule = .ok ())
    (hzero : times 0 = schedule.startTimestamp) (hlaw : NoLookAhead rnd times total schedule)
    {i : Nat} (hi : i < schedule.slices) : schedule.startTimestamp ≤ times i := by
  by_contra hearly
  let suffix : List BookUpdate := [.diff schedule.startTimestamp .ask 1 1]
  have hafter : BeginsAfter (times i) suffix := by
    rintro u ⟨⟩
    exact not_le.mp hearly
  have hrefused : executeSlotsBy rnd times {} ([] ++ suffix) .buy total schedule 1 =
      .error BookReplayer.notOpened := by
    obtain ⟨size, hfirst⟩ := @executeSlots_first schedule rnd total times h .buy ([] ++ suffix)
    have hadvance : advance {} (times 0) ([] ++ suffix) = .error BookReplayer.notOpened := by
      have hread : (BookUpdate.diff schedule.startTimestamp .ask 1 1).timestamp ≤ times 0 := hzero.ge
      rw [List.nil_append, advance, if_pos hread]
      rfl
    simp only [hfirst, slotBy, hadvance]
  have hslots := (hlaw [] suffix .buy i hi hafter).slots 0 (Nat.zero_le _)
  simp only [Nat.zero_add, hrefused, reduceCtorEq, false_and, and_false, exists_false, or_false]
    at hslots
  obtain ⟨e, halone, heq, -⟩ := hslots
  obtain ⟨size, hfirst⟩ := @executeSlots_first schedule rnd total times h .buy []
  rw [hfirst] at halone
  obtain ⟨what, rfl⟩ := first_alone halone
  cases heq

end FirstSlot

/-- Of the schedules that are accepted, the ones of which the law holds for every compiled call. -/
theorem no_look_ahead_iff {rnd : Rounding} {total : Double} (hmachine : MachineSchedule schedule)
    (h : validateSchedule rnd total schedule = .ok ()) :
    (∀ times, Compiled schedule times → NoLookAhead rnd times total schedule) ↔
      GridFits schedule := by
  have hvalid := validateSchedule_ok h
  constructor
  · intro hlaw
    refine started_fits hmachine hvalid.duration_nonneg hvalid.slices_pos ?_
    let times : Nat → Int := fun i =>
      (sliceTime64 schedule i).getD (schedule.startTimestamp - 1)
    have hcompiled : Compiled schedule times := by
      intro i _ time htime
      simp [times, htime]
    have hzero : times 0 = schedule.startTimestamp := by
      simp [times, sliceTime64_zero hmachine]
    intro i hi
    have hstart := start_le h hzero (hlaw times hcompiled) hi
    cases htime : sliceTime64 schedule i with
    | none =>
      simp only [times, htime, Option.getD_none] at hstart
      omega
    | some time =>
      simp only [times, htime, Option.getD_some] at hstart
      exact ⟨time, rfl, hstart⟩
  · intro hfits times hcompiled rows suffix side i hi hs
    have htimes : ∀ j < schedule.slices, times j = sliceTime schedule j := fun j hj =>
      hcompiled j hj _ (sliceTime64_eq hmachine hvalid.duration_nonneg hfits hj)
    refine unseen_of_ordered hi ?_ hs
    intro j hj
    rw [htimes j (by omega), htimes i hi]
    exact sliceTime_mono hvalid.duration_nonneg hvalid.slices_pos hj

/-- Two slots over 100 ms, and a diff that arrives between the last slot and the end. -/
theorem no_look_ahead_iff_lateRow :
    let rows : List BookUpdate := [.snap 1000 .bid 99 5, .snap 1000 .ask 101 7]
    let schedule : SliceSchedule := { startTimestamp := 1000, durationMs := 100, slices := 2 }
    simulateSlicedExecution exact rows .buy (.finite 4) schedule =
      simulateSlicedExecution exact (rows ++ [.diff 1051 .ask 101 0]) .buy (.finite 4)
        schedule := by
  intro rows schedule
  have hmachine : MachineSchedule schedule := ⟨by decide, by decide, by decide⟩
  have haccepted : validateSchedule exact (.finite 4) schedule = .ok () := by decide +kernel
  have hfits : GridFits schedule := by
    unfold GridFits
    decide
  have hcompiled : Compiled schedule (sliceTime schedule) := by
    intro i hi time htime
    rw [sliceTime64_eq hmachine (by decide) hfits hi] at htime
    exact Option.some.inj htime
  have hlaw := (no_look_ahead_iff hmachine haccepted).mpr hfits _ hcompiled
  exact (hlaw rows [.diff 1051 .ask 101 0] .buy 1 (by decide)
    (by unfold BeginsAfter; decide)).whole rfl

/-- The slot times in two's complement, where every operation has a result. -/
def wrappedTime (schedule : SliceSchedule) (i : Nat) : Int :=
  (schedule.startTimestamp + ((schedule.durationMs * toInt64 i).bmod (2 ^ 64)).tdiv
    (toInt64 schedule.slices)).bmod (2 ^ 64)

/-- The last slot falls before the first, so slot 1 reads the row that is after the last. -/
theorem look_ahead_overflows :
    let rows : List BookUpdate := [.snap 0 .bid 99 5, .snap 0 .ask 101 7]
    let suffix : List BookUpdate := [.diff 5 .ask 101 0]
    let call feed := simulateBy exact (wrappedTime longSchedule) feed .buy (.finite 3) longSchedule
    MachineSchedule longSchedule ∧
      validateSchedule exact (.finite 3) longSchedule = .ok () ∧
      Compiled longSchedule (wrappedTime longSchedule) ∧
      BeginsAfter (wrappedTime longSchedule 2) suffix ∧ call rows ≠ call (rows ++ suffix) ∧
      ¬ NoLookAhead exact (wrappedTime longSchedule) (.finite 3) longSchedule := by
  intro rows suffix call
  have hafter : BeginsAfter (wrappedTime longSchedule 2) suffix := by
    unfold BeginsAfter
    decide
  have hdiffer : call rows ≠ call (rows ++ suffix) := by decide +kernel
  refine ⟨⟨by decide, by decide, by decide⟩, by decide +kernel, ?_, hafter, hdiffer, ?_⟩
  · unfold Compiled
    decide
  · intro hlaw
    exact hdiffer ((hlaw rows suffix .buy 2 (by decide) hafter).whole rfl)

/-- Within the bounds no slice lies beyond the groups that have been read ahead. -/
theorem slices_covered {args : Arguments} {timestamp : Int}
    (hmachine : MachineSchedule (args.sliceSchedule timestamp))
    (hfits : GridFits (args.sliceSchedule timestamp)) :
    ∀ i < args.config.slices, ∃ time, sliceTime64 (args.sliceSchedule timestamp) i = some time ∧
      time ≤ args.lastSlice timestamp := by
  intro i hi
  have hduration : 0 ≤ (args.sliceSchedule timestamp).durationMs := args.config.sized.2
  refine ⟨_, sliceTime64_eq hmachine hduration hfits hi, ?_⟩
  rw [← lastSlice_sliceSchedule]
  exact (sliceTime_bounds hduration hi).2.2

end Calibration
end Models
end PerpCarry
