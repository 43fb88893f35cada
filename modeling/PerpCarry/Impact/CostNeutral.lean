import PerpCarry.Impact.Splitting

/-!
# Impact.CostNeutral

Splitting an order at one instant does not change what it costs.

* `execute_compose`: an order of `a` and then one of `b` are one order of `a + b`.
* `split_cost_neutral`: a schedule of no duration fills, costs and depletes like the whole order.
-/

namespace PerpCarry
namespace Impact

open Lib OrderBook

variable {book : OrderBook} {Q : ℚ}

/-- What two orders in a row take and leave is what one order of the total size does. -/
def Compose (book : OrderBook) (side : OrderSide) (a b : ℚ) : Prop :=
  ∃ first second whole left final,
    executeMarketOrder exact book side (.finite a) = .ok first left ∧
    executeMarketOrder exact left side (.finite b) = .ok second final ∧
    executeMarketOrder exact book side (.finite (a + b)) = .ok whole final ∧
    whole.filledQuantity = first.filledQuantity.add exact second.filledQuantity ∧
    whole.notional = first.notional.add exact second.notional ∧
    whole.worstPrice = worsen side first.worstPrice second.worstPrice ∧
    (whole.exhaustedBook = true ↔ first.exhaustedBook = true ∨ second.exhaustedBook = true) ∧
    whole.midAtEntry = first.midAtEntry ∧ whole.touchAtEntry = first.touchAtEntry ∧
    whole.crossedAtEntry = first.crossedAtEntry

theorem execute_compose (h : book.WellFormed) (side : OrderSide) {a b : ℚ} (ha : 0 < a)
    (hb : 0 < b) : Compose book side a b := by
  have hL := ladder_stocked h (consumedSide side)
  obtain ⟨hfirst, hleft⟩ := execute_exact h side ha
  have hsecond := (execute_exact hleft side hb).1
  have hwhole := (execute_exact h side (add_pos ha hb)).1
  rw [depleted_depleted h side ha.le hb.le] at hsecond
  refine ⟨_, _, _, _, _, hfirst, hsecond, hwhole, ?_, ?_, ?_, ?_, rfl, rfl, rfl⟩
  · simp only [exactFill_filledQuantity, Double.add_exact, ladder_left]
    rw [value_add _ hL ha.le hb.le]
  · simp only [exactFill_notional, Double.add_exact, ladder_left]
    rw [value_add _ hL ha.le hb.le]
  · simp only [exactFill_worstPrice, ladder_left]
    exact (worsen_exact h side ha.le hb.le).symm
  · have hwholeExh := exhausted_left h side le_rfl (add_pos ha hb)
    have hfirstExh := exhausted_left h side le_rfl ha
    rw [depleted_zero h, zero_add] at hwholeExh hfirstExh
    rw [hwholeExh, hfirstExh, exhausted_left h side ha.le hb]
    exact ⟨.inr, fun hor => hor.elim (fun hd => by linarith) id⟩

/-- The parent of a finished split, against the fill of the whole order. -/
theorem parent_exact (h : book.WellFormed) {side : OrderSide} {start : Int}
    {past : List (Double × Nat)} {s : Execution} (hQ : 0 < Q) (hsum : executed past = Q)
    (hs : Split book side start (.finite Q) past s) :
    (s.result.finish exact side).parent =
      { exactFill book side Q with
        levelsConsumed := (s.result.finish exact side).parent.levelsConsumed
        beyondValidatedDepth := (s.result.finish exact side).parent.beyondValidatedDepth } := by
  have hL := ladder_stocked h (consumedSide side)
  obtain ⟨hmid, htouch, hcrossed⟩ := hs.arrival (by rw [hsum]; exact hQ)
  have hworst := hs.worst_eq (by rw [hsum]; exact hQ)
  have hexh : decide (0 < s.result.slicesExhausted) = (exactFill book side Q).exhaustedBook := by
    have := exhausted_left h side le_rfl hQ
    rw [depleted_zero h, zero_add, ← hsum, ← hs.exhausted_iff, hsum] at this
    rw [Bool.eq_iff_iff, decide_eq_true_eq, this]
  have hfilled := hs.filled_eq
  have hnotional := hs.notional_eq
  rw [hsum] at hfilled hnotional hworst
  simp only [SlicedFill.finish, hs.requested_eq, hfilled, hnotional, hmid, htouch, hcrossed, hworst,
    hexh]
  by_cases hf : 0 < value (fun _ => 1) (take Q (ladder book (consumedSide side)))
  · simp [exactFill, Double.zero, hf, Double.div_exact hf.ne']
  · simp [exactFill, worstOf, Double.zero, hf, lastPrice_eq_none hL hf]

/-- The split order and one market order of its size: same fill but for the two depth counts, and
the same book left behind. -/
def CostNeutral (initial entry : BookReplayer) (updates : List BookUpdate) (side : OrderSide) (Q : ℚ)
    (schedule : SliceSchedule) : Prop :=
  ∃ split whole done final,
    simulateSlicedExecutionFromState exact initial updates side (.finite Q) schedule = .ok split ∧
    simulateMarketOrder exact entry.book side (.finite Q) = .ok whole ∧
    split.parent = { whole with
      levelsConsumed := split.parent.levelsConsumed
      beyondValidatedDepth := split.parent.beyondValidatedDepth } ∧
    executeSlots exact initial updates side (.finite Q) schedule schedule.slices = .ok done ∧
    executeMarketOrder exact entry.book side (.finite Q) = .ok whole final ∧
    done.replayer.book = final

/-- A schedule of no duration against one market order, from any replayed state. -/
theorem split_cost_neutral {history updates rest : List BookUpdate} {initial entry : BookReplayer}
    {side : OrderSide} {schedule : SliceSchedule}
    (hinitial : ({} : BookReplayer).applyRows history = .ok () initial)
    (hlate : ¬ (0 < initial.stats.applied ∧ schedule.startTimestamp < initial.stats.lastTimestamp))
    (hentry : advance initial schedule.startTimestamp updates = .ok (entry, rest))
    (hvalid : validateSchedule exact (.finite Q) schedule = .ok ())
    (hduration : schedule.durationMs = 0) :
    CostNeutral initial entry updates side Q schedule ∧
    ∀ a b, 0 < a → 0 < b → Compose entry.book side a b := by
  obtain ⟨hwf, hwf', hQ⟩ := entry_wellFormed hinitial hentry hvalid
  obtain ⟨hsum, done, hdone, hs⟩ := executeSlots_split side hwf hentry hvalid hlate hduration
  refine ⟨⟨done.result.finish exact side, exactFill entry.book side Q, done, _, ?_,
    simulate_exact hwf' side hQ, parent_exact hwf' hQ hsum hs, hdone,
    (execute_exact hwf' side hQ).1, ?_⟩, fun a b => execute_compose hwf' side⟩
  · unfold simulateSlicedExecutionFromState
    rw [hdone]
    rfl
  · rw [hs.book_eq, hsum]

def splitDay : List BookUpdate := [
  .snap 1000 .bid 99 5, .snap 1000 .ask 101 3, .snap 1000 .ask 102 4, .diff 1001 .ask 101 0]

/-- Three slots, the second skipped, that exhaust the offers. -/
theorem split_cost_neutral_exhausted :
    CostNeutral {} (({} : BookReplayer).applyRows (splitDay.take 3)).state splitDay .buy 8
      { startTimestamp := 1000, slices := 3, weights := [.finite 1, .finite 0, .finite 3] } := by
  have hinitial : ({} : BookReplayer).applyRows [] = .ok () {} := rfl
  have hentry : advance {} 1000 splitDay =
      .ok ((({} : BookReplayer).applyRows (splitDay.take 3)).state, splitDay.drop 3) := by decide
  exact (split_cost_neutral hinitial (by decide) hentry (by decide +kernel) rfl).1

end Impact
end PerpCarry
