import Mathlib.Algebra.BigOperators.Ring.List
import Mathlib.Algebra.Order.BigOperators.Group.List
import Mathlib.Tactic.Positivity
import PerpCarry.Impact.ExactWalk
import PerpCarry.Impact.NoLookAhead

/-!
# Impact.Splitting

An order split into slices at one instant, over exact rationals.

* `sliceQuantities_exact`: the child sizes are nonnegative and add up to the order.
* `Split`: after slices of total size `S`, book and parent fill are those of one order of size `S`.
* `slot_split`, `executeSlots_split`: one slot, and all slots, keep `Split`.
-/

namespace PerpCarry
namespace Impact

open Lib OrderBook

/-! ## The child sizes -/

theorem sum_exact (xs : List ℚ) : sum exact (xs.map .finite) = .finite xs.sum := by
  have hfold : ∀ acc : ℚ, (xs.map Double.finite).foldl (Double.add exact) (.finite acc) =
      .finite (acc + xs.sum) := by
    induction xs with
    | nil => intro acc; simp
    | cons x xs ih =>
      intro acc
      rw [List.map_cons, List.foldl_cons, Double.add_exact, ih, List.sum_cons, add_assoc]
  have := hfold 0
  rwa [zero_add] at this

variable {schedule : SliceSchedule} {Q : ℚ}

theorem weights_exact {total : Double} (h : Validated exact total schedule) :
    ∃ ws : List ℚ, (if schedule.weights.isEmpty then List.replicate schedule.slices (.finite 1)
        else schedule.weights) = ws.map Double.finite ∧
      (∀ w ∈ ws, 0 ≤ w) ∧ 0 < ws.sum ∧ ws.length = schedule.slices := by
  rcases h.weights_ok with hnil | ⟨hlen, hgood, hsum⟩
  · refine ⟨List.replicate schedule.slices 1, by simp [hnil], ?_, ?_, by simp⟩
    · intro w hw
      rw [List.eq_of_mem_replicate hw]
      norm_num
    · simpa using h.slices_pos
  · have hne : schedule.weights ≠ [] := by
      intro hnil
      have := h.slices_pos
      rw [hnil] at hlen
      simp at hlen
      omega
    have hfinite : schedule.weights = (schedule.weights.map Double.value).map Double.finite := by
      rw [List.map_map]
      symm
      refine (List.map_congr_left fun w hw => ?_).trans (List.map_id _)
      have hw : badWeight w = false := by
        simpa using (List.any_eq_false.mp hgood) w hw
      cases w with
      | finite q => rfl
      | infinity s => simp [badWeight, Double.isFinite] at hw
      | nan => simp [badWeight, Double.isFinite] at hw
    refine ⟨schedule.weights.map Double.value, ?_, ?_, ?_, by simpa using hlen⟩
    · rw [if_neg (by simpa using hne)]
      exact hfinite
    · intro q hq
      obtain ⟨w, hw, rfl⟩ := List.mem_map.mp hq
      have hw : badWeight w = false := by
        simpa using (List.any_eq_false.mp hgood) w hw
      cases w with
      | finite q => simpa [badWeight, Double.zero] using hw
      | infinity s => exact le_rfl
      | nan => exact le_rfl
    · rw [hfinite, sum_exact] at hsum
      simpa [Double.zero] using hsum

theorem sliceQuantities_exact (h : Validated exact (.finite Q) schedule) :
    ∃ sizes : List ℚ, sliceQuantities exact (.finite Q) schedule = sizes.map Double.finite ∧
      (∀ x ∈ sizes, 0 ≤ x) ∧ sizes.sum = Q ∧ sizes.length = schedule.slices := by
  obtain ⟨ws, hws, hnonneg, hW, hlen⟩ := weights_exact h
  have hQ : 0 < Q := by simpa [Double.zero] using h.total_pos
  have hn := h.slices_pos
  let front := (ws.take (schedule.slices - 1)).map fun w => Q * w / ws.sum
  have hfront : ((ws.map Double.finite).take (schedule.slices - 1)).map (fun w =>
      (Double.mul exact (.finite Q) w).div exact (.finite ws.sum)) = front.map Double.finite := by
    rw [← List.map_take, List.map_map, List.map_map]
    refine List.map_congr_left fun w _ => ?_
    show (Double.mul exact (.finite Q) (.finite w)).div exact (.finite ws.sum) = _
    rw [Double.mul_exact, Double.div_exact hW.ne']
    rfl
  refine ⟨front ++ [Q - front.sum], ?_, ?_, by simp, ?_⟩
  · unfold sliceQuantities
    simp only [hws, sum_exact, hfront, Double.sub_exact, List.map_append, List.map_cons, List.map_nil]
  · have hfsum : front.sum ≤ Q := by
      have hle : (ws.take (schedule.slices - 1)).sum ≤ ws.sum := by
        have hsplit := List.sum_take_add_sum_drop ws (schedule.slices - 1)
        have : 0 ≤ (ws.drop (schedule.slices - 1)).sum :=
          List.sum_nonneg fun w hw => hnonneg w (List.mem_of_mem_drop hw)
        linarith
      have hsum : front.sum = Q * (ws.take (schedule.slices - 1)).sum / ws.sum := by
        have : front = (ws.take (schedule.slices - 1)).map fun w => w * (Q / ws.sum) :=
          List.map_congr_left fun w _ => by ring
        rw [this, List.sum_map_mul_right, List.map_id']
        ring
      rw [hsum, div_le_iff₀ hW]
      exact mul_le_mul_of_nonneg_left hle hQ.le
    intro x hx
    rcases List.mem_append.mp hx with hx | hx
    · obtain ⟨w, hw, rfl⟩ := List.mem_map.mp hx
      have := hnonneg w (List.mem_of_mem_take hw)
      positivity
    · rw [List.mem_singleton.mp hx]
      exact sub_nonneg.mpr hfsum
  · simp [front, hlen]
    omega

/-! ## After slices of total size `S` -/

/-- The total size of the slots done. -/
def executed (past : List (Double × Nat)) : ℚ := (past.map fun slice => slice.1.value).sum

/-- After the slots `past`, all at the entry time, on the book `entry`. -/
structure Split (entry : OrderBook) (side : OrderSide) (start : Int) (total : Double)
    (past : List (Double × Nat)) (s : Execution) : Prop where
  nonneg : 0 ≤ executed past
  book_eq : s.replayer.book = depleted entry side (executed past)
  waits : BeginsAfter start s.updates
  requested_eq : s.result.parent.requestedQuantity = total
  notional_eq : s.result.parent.notional =
    .finite (value id (take (executed past) (ladder entry (consumedSide side))))
  filled_eq : s.result.parent.filledQuantity =
    .finite (value (fun _ => 1) (take (executed past) (ladder entry (consumedSide side))))
  fresh : s.result.slices = [] ↔ executed past = 0
  arrival : 0 < executed past → s.result.parent.midAtEntry = midAtEntry exact entry ∧
    s.result.parent.touchAtEntry = touchAtEntry entry side ∧
    s.result.parent.crossedAtEntry = entry.isCrossed
  worst_eq : 0 < executed past →
    s.result.parent.worstPrice = worstOf (ladder entry (consumedSide side)) (executed past)
  exhausted_iff : 0 < s.result.slicesExhausted ↔
    depth (ladder entry (consumedSide side)) < executed past

section Slot

variable {entry : OrderBook} {side : OrderSide} {start : Int} {total : Double}
variable {past : List (Double × Nat)} {s : Execution} {x S : ℚ}

theorem depleted_wellFormed (h : entry.WellFormed) (side : OrderSide) (hS : 0 ≤ S) :
    (depleted entry side S).WellFormed := by
  rcases hS.eq_or_lt with rfl | hS
  · rwa [depleted_zero h]
  · exact (execute_exact h side hS).2

@[simp] theorem executed_append (slice : Double × Nat) :
    executed (past ++ [slice]) = executed past + slice.1.value := by
  simp [executed]

/-- A deeper worst price replaces the parent's. -/
theorem worsen_exact (h : entry.WellFormed) (side : OrderSide) (hS : 0 ≤ S) (hx : 0 ≤ x) :
    worsen side (worstOf (ladder entry (consumedSide side)) S)
        (worstOf (leave S (ladder entry (consumedSide side))) x) =
      worstOf (ladder entry (consumedSide side)) (S + x) := by
  have hL := ladder_stocked h (consumedSide side)
  unfold worstOf
  rw [last_add hL hS hx]
  cases hlast : lastPrice (take x (leave S (ladder entry (consumedSide side)))) with
  | none => rfl
  | some w' =>
    cases hfirst : lastPrice (take S (ladder entry (consumedSide side))) with
    | none => cases side <;> rfl
    | some w =>
      have hdeep := last_deeper (ladder_sorted h (consumedSide side)) hL hS hfirst hlast
      rcases hdeep with rfl | hdeep
      · cases side <;> simp [worsen]
      · cases side <;> simp_all [worsen, consumedSide, Book.Better]

theorem sliceTime_instant (hd : schedule.durationMs = 0) (i : Nat) :
    sliceTime schedule i = schedule.startTimestamp := by
  simp [sliceTime, hd]

theorem ladder_left (side : OrderSide) (S : ℚ) :
    ladder (depleted entry side S) (consumedSide side) = leave S (ladder entry (consumedSide side)) :=
  ladder_depleted side

/-- A slice after `S` exhausts the side when the order so far would. -/
theorem exhausted_left (h : entry.WellFormed) (side : OrderSide) (hS : 0 ≤ S) (hx : 0 < x) :
    (exactFill (depleted entry side S) side x).exhaustedBook = true ↔
      depth (ladder entry (consumedSide side)) < S + x := by
  have hL := ladder_stocked h (consumedSide side)
  simp only [exactFill, ladder_left, decide_eq_true_eq]
  rw [value_one (leave_stocked hL S) hx.le, depth_leave hL hS]
  rcases le_total S (depth (ladder entry (consumedSide side))) with hle | hle
  · rw [min_eq_left hle]
    simp [sub_lt_iff_lt_add']
  · rw [min_eq_right hle, sub_self, min_eq_right hx.le]
    exact ⟨fun _ => by linarith, fun _ => hx⟩

theorem push_split (h : entry.WellFormed) (hs : Split entry side start total past s) (hx : 0 < x)
    (i : Nat) (r : BookReplayer) :
    Split entry side start total (past ++ [(.finite x, i)])
      { replayer := { r with book := depleted (depleted entry side (executed past)) side x }
        updates := s.updates
        result := s.result.push exact side
          (exactFill (depleted entry side (executed past)) side x) } := by
  have hL := ladder_stocked h (consumedSide side)
  have hS := hs.nonneg
  have hsum : executed (past ++ [(Double.finite x, i)]) = executed past + x := by simp
  have hpos : 0 < executed past + x := by linarith
  constructor
  · rw [hsum]
    exact hpos.le
  · rw [hsum]
    exact depleted_depleted h side hS hx.le
  · exact hs.waits
  · rw [push_requestedQuantity, hs.requested_eq]
  · rw [push_notional, hs.notional_eq, exactFill_notional, Double.add_exact, ladder_left, hsum,
      value_add id hL hS hx.le]
  · rw [push_filledQuantity, hs.filled_eq, exactFill_filledQuantity, Double.add_exact, ladder_left, hsum,
      value_add _ hL hS hx.le]
  · rw [hsum]
    refine ⟨fun hnil => ?_, fun h0 => absurd h0 hpos.ne'⟩
    simp at hnil
  · intro _
    by_cases hnil : s.result.slices = []
    · obtain ⟨⟨hmid, htouch, hcrossed⟩, _⟩ := push_first exact side s.result
        (exactFill (depleted entry side (executed past)) side x) hnil
      rw [hs.fresh.mp hnil, depleted_zero h] at hmid htouch hcrossed ⊢
      exact ⟨hmid, htouch, hcrossed⟩
    · obtain ⟨⟨hmid, htouch, hcrossed⟩, _⟩ := push_later exact side s.result
        (exactFill (depleted entry side (executed past)) side x) hnil
      obtain ⟨hm, ht, hc⟩ := hs.arrival (hS.lt_of_ne fun h0 => hnil (hs.fresh.mpr h0.symm))
      exact ⟨hmid.trans hm, htouch.trans ht, hcrossed.trans hc⟩
  · intro _
    rw [hsum]
    by_cases hnil : s.result.slices = []
    · rw [(push_first exact side s.result _ hnil).2, hs.fresh.mp hnil, depleted_zero h, zero_add]
      rfl
    · rw [(push_later exact side s.result _ hnil).2, ← worsen_exact h side hS hx.le, ← ladder_left,
        hs.worst_eq (hS.lt_of_ne fun h0 => hnil (hs.fresh.mpr h0.symm))]
      rfl
  · show 0 < s.result.slicesExhausted + Bool.toNat _ ↔ _
    rw [hsum, Nat.add_pos_iff_pos_or_pos, hs.exhausted_iff, Nat.pos_iff_ne_zero, Ne,
      Bool.toNat_eq_zero, Bool.not_eq_false, exhausted_left h side hS hx]
    exact ⟨fun hor => hor.elim (fun hd => by linarith) id, .inr⟩

theorem skip_split (hs : Split entry side start total past s) (i : Nat) :
    Split entry side start total (past ++ [(.finite 0, i)]) s where
  nonneg := by simpa using hs.nonneg
  book_eq := by simpa using hs.book_eq
  waits := hs.waits
  requested_eq := hs.requested_eq
  notional_eq := by simpa using hs.notional_eq
  filled_eq := by simpa using hs.filled_eq
  fresh := by simpa using hs.fresh
  arrival := by simpa using hs.arrival
  worst_eq := by simpa using hs.worst_eq
  exhausted_iff := by simpa using hs.exhausted_iff

theorem slot_split (h : entry.WellFormed) (hd : schedule.durationMs = 0) (hx : 0 ≤ x) (i : Nat)
    (hs : Split entry side schedule.startTimestamp total past s) :
    ∃ s', slot exact side schedule s (.finite x, i) = .ok s' ∧
      Split entry side schedule.startTimestamp total (past ++ [(.finite x, i)]) s' := by
  unfold slot slotBy
  rw [sliceTime_instant hd, advance_after hs.waits]
  rcases hx.eq_or_lt with rfl | hx
  · exact ⟨s, if_pos (by simp [Double.zero]), skip_split hs i⟩
  · have hwf := depleted_wellFormed h side hs.nonneg
    refine ⟨_, ?_, push_split h hs hx i s.replayer⟩
    dsimp only
    rw [if_neg (by simp [Double.zero, hx]), hs.book_eq, (execute_exact hwf side hx).1]

variable {initial r : BookReplayer} {updates rest : List BookUpdate}

theorem advance_waits (h : advance initial start updates = .ok (r, rest)) :
    BeginsAfter start rest := by
  induction updates generalizing initial with
  | nil =>
    cases h
    intro u hu
    cases hu
  | cons u us ih =>
    simp only [advance] at h
    split at h
    · split at h
      · cases h
      · exact ih h
    · cases h
      intro v hv
      cases hv
      omega

theorem advance_wellFormed (hwf : initial.book.WellFormed)
    (h : advance initial start updates = .ok (r, rest)) : r.book.WellFormed := by
  induction updates generalizing initial with
  | nil => cases h; exact hwf
  | cons u us ih =>
    simp only [advance] at h
    split at h
    · split at h
      · cases h
      · exact ih (BookReplayer.apply_wellFormed hwf ‹_›) h
    · cases h
      exact hwf

/-- A replayed state and what is advanced from it are well-formed, and a valid order is positive. -/
theorem entry_wellFormed {history : List BookUpdate}
    (hinitial : ({} : BookReplayer).applyRows history = .ok () initial)
    (hentry : advance initial schedule.startTimestamp updates = .ok (r, rest))
    (hv : validateSchedule exact (.finite Q) schedule = .ok ()) :
    initial.book.WellFormed ∧ r.book.WellFormed ∧ 0 < Q := by
  have hwf : initial.book.WellFormed :=
    BookReplayer.applyRows_wellFormed OrderBook.wellFormed_empty hinitial
  refine ⟨hwf, advance_wellFormed hwf hentry, ?_⟩
  simpa [Double.zero] using (validateSchedule_ok hv).total_pos

/-- The first slot replays up to the entry time; it makes no difference to do so before it. -/
theorem slot_entered {rnd : Rounding} (hd : schedule.durationMs = 0) (result : SlicedFill)
    (slice : Double × Nat) (h : advance initial schedule.startTimestamp updates = .ok (r, rest)) :
    slot rnd side schedule ⟨initial, updates, result⟩ slice =
      slot rnd side schedule ⟨r, rest, result⟩ slice := by
  unfold slot slotBy
  rw [sliceTime_instant hd]
  simp only [h, advance_after (advance_waits h)]

/-- What the slots of a valid schedule are, over exact rationals. -/
theorem slots_exact (hvalid : Validated exact (.finite Q) schedule) :
    slots exact (.finite Q) schedule ≠ [] ∧
      (∀ slice ∈ slots exact (.finite Q) schedule, ∃ x, 0 ≤ x ∧ slice.1 = .finite x) ∧
      executed (slots exact (.finite Q) schedule) = Q ∧
      (slots exact (.finite Q) schedule).take schedule.slices =
        slots exact (.finite Q) schedule := by
  obtain ⟨sizes, hsizes, hnonneg, hsum, hlen⟩ := sliceQuantities_exact hvalid
  have hslots : slots exact (.finite Q) schedule = (sizes.map Double.finite).zipIdx := by
    rw [slots, hsizes]
  have hpos := hvalid.slices_pos
  rw [hslots]
  refine ⟨?_, ?_, ?_, ?_⟩
  · rw [← List.length_pos_iff]
    simp
    omega
  · intro slice hslice
    have hfst := List.fst_mem_of_mem_zipIdx hslice
    obtain ⟨x, hx, heq⟩ := List.mem_map.mp hfst
    exact ⟨x, hnonneg x hx, heq.symm⟩
  · have hmap : (sizes.map Double.finite).zipIdx.map (fun slice => slice.1.value) = sizes := by
      show ((sizes.map Double.finite).zipIdx.map (Double.value ∘ Prod.fst)) = sizes
      rw [← List.map_map, List.zipIdx_map_fst, List.map_map]
      exact List.map_id _
    rw [executed, hmap, hsum]
  · refine List.take_of_length_le ?_
    simp [hlen]

theorem split_entered (hwf : r.book.WellFormed) (hwaits : BeginsAfter start rest) :
    Split r.book side start (.finite Q) []
      ⟨r, rest, { parent := { requestedQuantity := .finite Q } }⟩ := by
  have hD := depth_nonneg (ladder_stocked hwf (consumedSide side))
  constructor
  · exact le_rfl
  · exact (depleted_zero hwf side).symm
  · exact hwaits
  · rfl
  · rw [executed, List.map_nil, List.sum_nil, take_of_nonpos le_rfl]
    rfl
  · rw [executed, List.map_nil, List.sum_nil, take_of_nonpos le_rfl]
    rfl
  · simp [executed]
  · simp [executed]
  · simp [executed]
  · simp [executed, hD]

theorem executeSlots_split (side : OrderSide) (hwf : initial.book.WellFormed)
    (hentry : advance initial schedule.startTimestamp updates = .ok (r, rest))
    (hv : validateSchedule exact (.finite Q) schedule = .ok ())
    (hlate : ¬ (0 < initial.stats.applied ∧ schedule.startTimestamp < initial.stats.lastTimestamp))
    (hd : schedule.durationMs = 0) :
    executed (slots exact (.finite Q) schedule) = Q ∧
      ∃ s, executeSlots exact initial updates side (.finite Q) schedule schedule.slices = .ok s ∧
        Split r.book side schedule.startTimestamp (.finite Q) (slots exact (.finite Q) schedule)
          s := by
  obtain ⟨hne, hmem, hexecuted, hall⟩ := slots_exact (validateSchedule_ok hv)
  have hwf' := advance_wellFormed hwf hentry
  refine ⟨hexecuted, ?_⟩
  have hkeep : ∀ slice ∈ slots exact (.finite Q) schedule, ∀ past s,
      Split r.book side schedule.startTimestamp (.finite Q) past s →
        ∃ s', slot exact side schedule s slice = .ok s' ∧
          Split r.book side schedule.startTimestamp (.finite Q) (past ++ [slice]) s' := by
    intro slice hslice past s hs
    obtain ⟨x, hx, heq⟩ := hmem slice hslice
    obtain ⟨size, i⟩ := slice
    subst heq
    exact slot_split hwf' hd hx i hs
  obtain ⟨s, hrun, hs⟩ :=
    Lib.run_progress _ hkeep [] (split_entered hwf' (advance_waits hentry))
  refine ⟨s, ?_, hs⟩
  have hent : enter exact initial updates (.finite Q) schedule =
      .ok ⟨initial, updates, { parent := { requestedQuantity := .finite Q } }⟩ := by
    unfold enter
    rw [hv]
    exact if_neg hlate
  unfold executeSlots executeSlotsBy
  rw [hent, hall]
  cases hcons : slots exact (.finite Q) schedule with
  | nil => exact absurd hcons hne
  | cons slice more =>
    rw [hcons] at hrun
    show Lib.run (slot exact side schedule) (⟨initial, updates, _⟩ : Execution) _ = _
    rw [Lib.run, slot_entered hd _ slice hentry]
    exact hrun

end Slot

end Impact
end PerpCarry
