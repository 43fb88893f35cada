import PerpCarry.Book.Lockstep
import PerpCarry.Impact.Splitting
import PerpCarry.Lib.Greedy

/-!
# Impact.Trace

A sliced execution as the sequence of what happens to its book: rows replayed, slices executed.

* `trace`: the events of a call, read off the rows and the slots.
* `slots_trace`: the call's replayer is the run of its events.
* `takes`: what one pass of the loop of `walk` takes at each level it touches.
* `resting_replayed`, `resting_executed`: what one event does to the quantity at a price.
-/

namespace PerpCarry
namespace Impact

open Lib OrderBook

inductive Event where
  | replayed (update : BookUpdate)
  | executed (size : Double)

def Event.step (rnd : Rounding) (side : OrderSide) (r : BookReplayer) :
    Event → Except Error BookReplayer
  | .replayed update =>
    match r.apply update with
    | .error e _ => .error e
    | .ok () r => .ok r
  | .executed size =>
    match executeMarketOrder rnd r.book side size with
    | .error e _ => .error e
    | .ok _ book => .ok { r with book }

/-- The rows at or before `time`, for rows in order of time. -/
def due (time : Int) (updates : List BookUpdate) : List BookUpdate :=
  updates.takeWhile fun u => u.timestamp ≤ time

def notDue (time : Int) (updates : List BookUpdate) : List BookUpdate :=
  updates.dropWhile fun u => u.timestamp ≤ time

/-- The events of the slots `slices`, with `updates` behind the cursor. -/
def trace (schedule : SliceSchedule) : List BookUpdate → List (Double × Nat) → List Event
  | _, [] => []
  | updates, slice :: slices =>
    (due (sliceTime schedule slice.2) updates).map .replayed ++
      ((if slice.1.le .zero then [] else [.executed slice.1]) ++
        trace schedule (notDue (sliceTime schedule slice.2) updates) slices)

/-- The rows among the events. -/
def replayedRows (events : List Event) : List BookUpdate :=
  events.filterMap fun
    | .replayed update => some update
    | .executed _ => none

/-- The sizes of the slices among the events. -/
def executedSizes (events : List Event) : List Double :=
  events.filterMap fun
    | .replayed _ => none
    | .executed size => some size

@[simp] theorem replayedRows_replayed (u : BookUpdate) (events : List Event) :
    replayedRows (.replayed u :: events) = u :: replayedRows events := rfl

@[simp] theorem replayedRows_executed (size : Double) (events : List Event) :
    replayedRows (.executed size :: events) = replayedRows events := rfl

@[simp] theorem executedSizes_replayed (u : BookUpdate) (events : List Event) :
    executedSizes (.replayed u :: events) = executedSizes events := rfl

@[simp] theorem executedSizes_executed (size : Double) (events : List Event) :
    executedSizes (.executed size :: events) = size :: executedSizes events := rfl

@[simp] theorem replayedRows_append (events events' : List Event) :
    replayedRows (events ++ events') = replayedRows events ++ replayedRows events' :=
  List.filterMap_append

@[simp] theorem replayedRows_map (rows : List BookUpdate) :
    replayedRows (rows.map .replayed) = rows := by
  simp [replayedRows]

@[simp] theorem executedSizes_append (events events' : List Event) :
    executedSizes (events ++ events') = executedSizes events ++ executedSizes events' :=
  List.filterMap_append

@[simp] theorem executedSizes_map (rows : List BookUpdate) :
    executedSizes (rows.map .replayed) = [] := by
  simp [executedSizes]

section Run

variable {rnd : Rounding} {side : OrderSide} {schedule : SliceSchedule}

theorem advance_trace (rnd : Rounding) (side : OrderSide) (r : BookReplayer) (time : Int) (updates : List BookUpdate) :
    advance r time updates =
      (Lib.run (Event.step rnd side) r ((due time updates).map .replayed)).map
        fun r => (r, notDue time updates) := by
  induction updates generalizing r with
  | nil => rfl
  | cons u us ih =>
    by_cases hu : u.timestamp ≤ time
    · simp only [advance, if_pos hu, due, notDue, List.takeWhile_cons, List.dropWhile_cons,
        decide_eq_true hu, if_true, List.map_cons, Lib.run, Event.step]
      cases r.apply u with
      | error e r' => rfl
      | ok x r' => exact ih r'
    · simp [advance, due, notDue, hu, Except.map]

/-- The replayer after the slots is the replayer after their events. -/
theorem slots_trace (r : BookReplayer) (updates : List BookUpdate) (result : SlicedFill)
    (slices : List (Double × Nat)) :
    (Lib.run (slot rnd side schedule) ⟨r, updates, result⟩ slices).map Execution.replayer =
      Lib.run (Event.step rnd side) r (trace schedule updates slices) := by
  induction slices generalizing r updates result with
  | nil => rfl
  | cons slice slices ih =>
    simp only [Lib.run, slotBy, trace, Lib.run_append,
      advance_trace rnd side r (sliceTime schedule slice.2)]
    cases Lib.run (Event.step rnd side) r ((due (sliceTime schedule slice.2) updates).map .replayed)
      with
    | error e => rfl
    | ok r =>
      simp only [Except.map, Except.bind]
      by_cases hz : slice.1.le .zero = true
      · simp only [if_pos hz, Lib.run_nil]
        exact ih r _ result
      · simp only [if_neg hz, Lib.run, Event.step]
        cases executeMarketOrder rnd r.book side slice.1 with
        | error e book => rfl
        | ok fill book => exact ih _ _ _

/-- The rows of a trace are rows of the feed, in order from the front. -/
theorem replayedRows_trace (updates : List BookUpdate) (slices : List (Double × Nat)) :
    replayedRows (trace schedule updates slices) <+: updates := by
  induction slices generalizing updates with
  | nil => exact List.nil_prefix
  | cons slice slices ih =>
    obtain ⟨rest, hrest⟩ := ih (notDue (sliceTime schedule slice.2) updates)
    have hslice : replayedRows (if slice.1.le .zero then [] else [.executed slice.1]) = [] := by
      split <;> rfl
    refine ⟨rest, ?_⟩
    simp only [trace, replayedRows_append, replayedRows_map, hslice, List.nil_append,
      List.append_assoc, hrest]
    exact List.takeWhile_append_dropWhile

theorem executedSizes_trace (updates : List BookUpdate) (slices : List (Double × Nat)) :
    executedSizes (trace schedule updates slices) =
      (slices.map Prod.fst).filter fun size => !size.le .zero := by
  induction slices generalizing updates with
  | nil => rfl
  | cons slice slices ih =>
    simp only [trace, executedSizes_append, executedSizes_map, List.nil_append, ih,
      List.map_cons, List.filter_cons]
    by_cases hz : slice.1.le .zero = true
    · simp [hz, executedSizes]
    · simp [hz, executedSizes]

end Run

/-! ## What a slice takes -/

/-- `taken` in one pass of the loop of `walk`. -/
def Walk.taken (w : Walk) (level : Level) : Double :=
  if w.remaining.lt level.quantity then w.remaining else level.quantity

/-- The price and `taken` of each pass of the loop. -/
def takes (rnd : Rounding) : List Level → Walk → List (Double × Double)
  | [], _ => []
  | level :: levels, w =>
    if w.remaining.le .zero then []
    else (level.price, w.taken level) :: takes rnd levels (w.touch rnd level)

/-- What an order of `size` takes at `price`. -/
def takenAt (rnd : Rounding) (book : OrderBook) (side : OrderSide) (size price : Double) : ℚ :=
  (((takes rnd (book.levels (consumedSide side)) { remaining := size }).filter fun t =>
    t.1 = price).map fun t => t.2.value).sum

theorem takes_exact (L : List (ℚ × ℚ)) (q c f : ℚ) (worst : Double) (n : Nat)
    (consumed : List Level) :
    takes exact (L.map toLevel) ⟨.finite q, .finite c, .finite f, worst, n, consumed⟩ =
      (take q L).map fun t => (.finite t.1, .finite t.2) := by
  induction L generalizing q c f worst n consumed with
  | nil => rfl
  | cons l L ih =>
    obtain ⟨p, x⟩ := l
    by_cases hq : 0 < q
    · have htaken : Walk.taken ⟨.finite q, .finite c, .finite f, worst, n, consumed⟩
          (toLevel (p, x)) = .finite (min q x) := by
        by_cases hqx : q < x
        · simp [Walk.taken, toLevel, hqx, min_eq_left hqx.le]
        · simp [Walk.taken, toLevel, hqx, min_eq_right (not_lt.mp hqx)]
      simp only [List.map_cons, takes, touch_exact, htaken]
      rw [if_neg (by simp [Double.zero, hq]), ih, take, if_pos hq]
      rfl
    · simp [takes, take, hq, Double.zero, not_lt.mp hq]

/-- The quantity on a side at a price, zero when there is no level. -/
def resting (book : OrderBook) (side : Side) (p : ℚ) : ℚ := held p (ladder book side)

section Resting

variable {book : OrderBook} {side : OrderSide} {x : ℚ}

theorem takenAt_exact (h : book.WellFormed) (side : OrderSide) (x p : ℚ) :
    takenAt exact book side (.finite x) (.finite p) =
      held p (take x (ladder book (consumedSide side))) := by
  unfold takenAt
  rw [levels_eq_ladder h,
    show ({ remaining := .finite x } : Walk) = ⟨.finite x, .finite 0, .finite 0, .finite 0, 0, []⟩
      from rfl, takes_exact]
  unfold held value
  induction take x (ladder book (consumedSide side)) with
  | nil => rfl
  | cons t ts ih =>
    by_cases ht : t.1 = p
    · simp [ht, ih]
    · simp [ht, ih]

theorem takenAt_nonneg (h : book.WellFormed) (side : OrderSide) (x p : ℚ) :
    0 ≤ takenAt exact book side (.finite x) (.finite p) := by
  rw [takenAt_exact h]
  refine held_nonneg (fun t ht => ?_) p
  exact ((take_within (ladder_stocked h _) x).mem ht).1

theorem resting_nonneg (h : book.WellFormed) (s : Side) (p : ℚ) : 0 ≤ resting book s p :=
  held_nonneg (fun l hl => (ladder_stocked h s l hl).le) p

theorem ladder_prices (h : book.WellFormed) (s : Side) :
    (ladder book s).Pairwise fun l m => l.1 ≠ m.1 := by
  refine (ladder_sorted h s).imp ?_
  intro l m hlm heq
  rw [heq] at hlm
  exact irrefl_of (Book.Better s) _ hlm

theorem shown_eq (h : book.WellFormed) (s : Side) (p : ℚ) :
    book.shown s (.finite p) =
      if resting book s p = 0 then none else some (.finite (resting book s p)) := by
  cases hshown : book.shown s (.finite p) with
  | none =>
    have hzero : resting book s p = 0 := by
      refine held_eq_zero fun l hl hp => ?_
      have hmem : toLevel l ∈ book.levels s := by
        rw [levels_eq_ladder h]
        exact List.mem_map_of_mem hl
      have := ((shown_refines h).entries s (.finite l.1) (.finite l.2)).mp hmem
      rw [hp, hshown] at this
      cases this
    rw [if_pos hzero]
  | some quantity =>
    have hmem := ((shown_refines h).entries s (.finite p) quantity).mpr hshown
    rw [levels_eq_ladder h] at hmem
    obtain ⟨l, hl, heq⟩ := List.mem_map.mp hmem
    obtain ⟨hp, rfl⟩ := Level.mk.inj heq
    obtain rfl : l.1 = p := Double.finite.inj hp
    have hrest : resting book s l.1 = l.2 := held_of_mem (ladder_prices h s) hl
    rw [hrest, if_neg (ladder_stocked h s l hl).ne']

/-- A level that shows `quantity` rests there. -/
theorem resting_of_shown (h : book.WellFormed) {s : Side} {p : ℚ} {shown : Option Double}
    (hshown : book.shown s (.finite p) = shown) :
    resting book s p = (shown.map Double.value).getD 0 := by
  rw [← hshown, shown_eq h]
  by_cases hzero : resting book s p = 0
  · rw [if_pos hzero, hzero]
    rfl
  · rw [if_neg hzero]
    rfl

/-- One replayed row: its own price is set, a new block empties the others. -/
theorem resting_replayed {r r' : BookReplayer} {u : BookUpdate} (h : r.book.WellFormed)
    (ha : r.apply u = .ok () r') (s : Side) (p : ℚ) :
    resting r'.book s p =
      if s = u.side ∧ .finite p = u.price then u.quantity.value
      else if r.opens u = true then 0 else resting r.book s p := by
  have hwf := BookReplayer.apply_wellFormed h ha
  have hshown := congrFun (congrFun (BookReplayer.apply_shown h ha) s) (.finite p)
  rw [resting_of_shown hwf hshown, BookMap.write]
  by_cases htouch : s = u.side ∧ Double.finite p = u.price
  · rw [if_pos htouch, if_pos htouch]
    by_cases hq : u.quantity = .zero
    · rw [if_pos hq, hq]
      rfl
    · rw [if_neg hq]
      rfl
  · rw [if_neg htouch, if_neg htouch]
    by_cases hopens : r.opens u = true
    · rw [if_pos hopens, if_pos hopens]
      rfl
    · rw [if_neg hopens, if_neg hopens, ← resting_of_shown h rfl]

/-- One slice: what it takes at a price is gone from there. -/
theorem resting_executed (h : book.WellFormed) (side : OrderSide) (hx : 0 < x) (p : ℚ) :
    resting (depleted book side x) (consumedSide side) p =
      resting book (consumedSide side) p - takenAt exact book side (.finite x) (.finite p) := by
  have := held_take_leave (ladder_stocked h (consumedSide side)) hx.le p
  rw [takenAt_exact h, resting, ladder_depleted, resting]
  linarith

end Resting

end Impact
end PerpCarry
