import PerpCarry.Impact.Splitting

/-!
# Impact.DepthFlag

The validated-depth flag of an order split at one instant, in doubles.

Each slice counts the levels it touches on the book the earlier slices left, and the parent's flag
is the disjunction of the slices' flags. So the levels of the whole order are never counted
together: 26 levels taken in two slices of 13 are reported as within the validated depth
(`depth_flag_lost`). `depth_flag_iff` says exactly when the parent still reports what the whole
order would, for every rounding.
-/

namespace PerpCarry
namespace Impact

open Lib OrderBook

variable {rnd : Rounding} {history updates rest : List BookUpdate} {initial entry : BookReplayer}
variable {side : OrderSide} {total : Double} {schedule : SliceSchedule} {split : SlicedFill}

/-! ## Levels without a book -/

/-- The levels that an order reaches, with what it leaves at each of them: the smaller of the
quantity and of what remains is subtracted from both, until nothing remains. -/
def reached (rnd : Rounding) (remaining : Double) : List Level → List Level
  | [] => []
  | level :: levels =>
    if remaining.le .zero then []
    else
      let taken := if remaining.lt level.quantity then remaining else level.quantity
      ⟨level.price, level.quantity.sub rnd taken⟩ :: reached rnd (remaining.sub rnd taken) levels

/-- The levels behind an order: those it emptied are gone. -/
def leftBy (rnd : Rounding) (levels : List Level) (quantity : Double) : List Level :=
  ((reached rnd quantity levels).flatMap fun l => OrderBook.entry l.price l.quantity) ++
    levels.drop (reached rnd quantity levels).length

/-- Some slot by itself reaches more levels of what the slots before it left than were validated. -/
def SomeSlotBeyond (rnd : Rounding) (levels : List Level) (sizes : List Double) : Prop :=
  ∃ before size after, sizes = before ++ size :: after ∧
    kValidatedDepth < (reached rnd size (before.foldl (leftBy rnd) levels)).length

/-- The whole order stays within the validated depth, or one slot by itself goes past it. -/
def FlagKept (rnd : Rounding) (levels : List Level) (total : Double) (sizes : List Double) : Prop :=
  (reached rnd total levels).length ≤ kValidatedDepth ∨ SomeSlotBeyond rnd levels sizes

theorem reached_of_le {quantity : Double} (h : quantity.le .zero = true) (levels : List Level) :
    reached rnd quantity levels = [] := by
  cases levels with
  | nil => rfl
  | cons level levels => exact if_pos h

theorem leftBy_of_le {quantity : Double} (h : quantity.le .zero = true) (levels : List Level) :
    leftBy rnd levels quantity = levels := by
  rw [leftBy, reached_of_le h]
  rfl

theorem reached_prices (quantity : Double) (levels : List Level) :
    (reached rnd quantity levels).map Level.price <+: levels.map Level.price := by
  induction levels generalizing quantity with
  | nil => exact List.prefix_rfl
  | cons level levels ih =>
    unfold reached
    split
    · exact List.nil_prefix
    · exact List.cons_prefix_cons.mpr ⟨rfl, ih _⟩

theorem someSlotBeyond_append (levels : List Level) (sizes : List Double) (size : Double) :
    SomeSlotBeyond rnd levels (sizes ++ [size]) ↔ SomeSlotBeyond rnd levels sizes ∨
      kValidatedDepth < (reached rnd size (sizes.foldl (leftBy rnd) levels)).length := by
  constructor
  · rintro ⟨before, found, after, heq, hbeyond⟩
    rcases List.eq_nil_or_concat after with rfl | ⟨front, last, rfl⟩
    · obtain ⟨rfl, hlast⟩ := List.append_inj' heq rfl
      cases hlast
      exact .inr hbeyond
    · rw [List.concat_eq_append, ← List.cons_append, ← List.append_assoc] at heq
      obtain ⟨rfl, _⟩ := List.append_inj' heq rfl
      exact .inl ⟨before, found, front, rfl, hbeyond⟩
  · rintro (⟨before, found, after, rfl, hbeyond⟩ | hbeyond)
    · exact ⟨before, found, after ++ [size], by simp, hbeyond⟩
    · exact ⟨sizes, size, [], rfl, hbeyond⟩

/-! ## An order on the book -/

theorem walkLevels_reached (levels : List Level) (w : Walk) :
    (walkLevels rnd levels w).levelsConsumed =
        w.levelsConsumed + (reached rnd w.remaining levels).length ∧
      (walkLevels rnd levels w).consumed = w.consumed ++ reached rnd w.remaining levels := by
  induction levels generalizing w with
  | nil => simp [walkLevels, reached]
  | cons level levels ih =>
    unfold walkLevels reached
    split
    · simp
    · obtain ⟨hcount, hconsumed⟩ := ih (w.touch rnd level)
      rw [hcount, hconsumed]
      simp only [Walk.touch, List.length_cons, List.append_assoc, List.singleton_append, and_true]
      omega

variable {book book' : OrderBook}

/-- Calls at the prices of some neighbouring levels replace these levels. -/
theorem deplete_ok {side : Side} {front levels consumed : List Level} (h : book.WellFormed)
    (hlevels : book.levels side = front ++ levels)
    (hprices : consumed.map Level.price <+: levels.map Level.price)
    (hd : deplete book side consumed = .ok () book') :
    book'.WellFormed ∧ book'.levels side =
      front ++ ((consumed.flatMap fun l => OrderBook.entry l.price l.quantity) ++
        levels.drop consumed.length) := by
  induction consumed generalizing book front levels with
  | nil =>
    cases hd
    exact ⟨h, hlevels⟩
  | cons l consumed ih =>
    cases levels with
    | nil => exact absurd (List.prefix_nil.mp hprices) (List.cons_ne_nil _ _)
    | cons level levels =>
      obtain ⟨hprice, hprices⟩ := List.cons_prefix_cons.mp hprices
      unfold deplete at hd
      cases happly : book.apply side l.price l.quantity with
      | error e book₁ =>
        rw [happly] at hd
        cases hd
      | ok u book₁ =>
        simp only [happly] at hd
        have ha := apply_acceptable happly
        obtain ⟨book₂, hbook₂, hwf, _⟩ := apply_ok h side ha
        rw [hprice] at happly hbook₂ ha
        rw [apply_at h hlevels ha] at happly hbook₂
        cases happly
        cases hbook₂
        obtain ⟨hwf', hlevels'⟩ := ih hwf (levels_setLevels _ _ _) hprices hd
        refine ⟨hwf', ?_⟩
        rw [hlevels', List.flatMap_cons, hprice, List.length_cons, List.drop_succ_cons]
        simp only [List.append_assoc]

theorem walk_reached {quantity : Double} {fill : Fill} {consumed : List Level}
    (h : walk rnd book side quantity = .ok (fill, consumed)) :
    (fill.beyondValidatedDepth = true ↔
        kValidatedDepth < (reached rnd quantity (book.levels (consumedSide side))).length) ∧
      consumed = reached rnd quantity (book.levels (consumedSide side)) := by
  obtain ⟨hcount, hconsumed⟩ :=
    @walkLevels_reached rnd (book.levels (consumedSide side)) { remaining := quantity }
  unfold walk at h
  split at h
  · cases h
  · cases h
    refine ⟨?_, by rw [hconsumed, List.nil_append]⟩
    rw [decide_eq_true_iff, hcount, Nat.zero_add]

theorem executeMarketOrder_reached {quantity : Double} {fill : Fill} (h : book.WellFormed)
    (hexec : executeMarketOrder rnd book side quantity = .ok fill book') :
    (fill.beyondValidatedDepth = true ↔
        kValidatedDepth < (reached rnd quantity (book.levels (consumedSide side))).length) ∧
      book'.WellFormed ∧
      book'.levels (consumedSide side) = leftBy rnd (book.levels (consumedSide side)) quantity := by
  unfold executeMarketOrder at hexec
  cases hwalk : walk rnd book side quantity with
  | error e =>
    rw [hwalk] at hexec
    cases hexec
  | ok found =>
    obtain ⟨fill₁, consumed⟩ := found
    obtain ⟨hflag, rfl⟩ := walk_reached hwalk
    simp only [hwalk] at hexec
    split at hexec
    · cases hexec
    · rename_i hdeplete
      cases hexec
      exact ⟨hflag, deplete_ok h (List.nil_append _).symm (reached_prices quantity _) hdeplete⟩

/-! ## All slots -/

/-- After slots of the sizes `past` on the levels `levels`, all at the instant `start`. -/
structure Deep (rnd : Rounding) (side : OrderSide) (start : Int) (levels : List Level)
    (past : List Double) (s : Execution) : Prop where
  wellFormed : s.replayer.book.WellFormed
  levels_eq : s.replayer.book.levels (consumedSide side) = past.foldl (leftBy rnd) levels
  waits : BeginsAfter start s.updates
  beyond_iff : 0 < s.result.slicesBeyondValidatedDepth ↔ SomeSlotBeyond rnd levels past

theorem slot_deep {levels : List Level} {past : List Double} {s s' : Execution}
    {slice : Double × Nat} (hd : schedule.durationMs = 0)
    (h : Deep rnd side schedule.startTimestamp levels past s)
    (hslot : slot rnd side schedule s slice = .ok s') :
    Deep rnd side schedule.startTimestamp levels (past ++ [slice.1]) s' := by
  unfold slot slotBy at hslot
  rw [sliceTime_instant hd, advance_after h.waits] at hslot
  dsimp only at hslot
  split at hslot
  · rename_i hzero
    cases hslot
    refine ⟨h.wellFormed, ?_, h.waits, ?_⟩
    · rw [List.foldl_append, List.foldl_cons, List.foldl_nil, leftBy_of_le hzero]
      exact h.levels_eq
    · rw [someSlotBeyond_append, reached_of_le hzero]
      exact h.beyond_iff.trans (or_iff_left (Nat.not_lt_zero _)).symm
  · split at hslot
    · cases hslot
    · rename_i hexec
      cases hslot
      obtain ⟨hflag, hwf, hlevels⟩ := executeMarketOrder_reached h.wellFormed hexec
      rw [h.levels_eq] at hflag hlevels
      refine ⟨hwf, ?_, h.waits, ?_⟩
      · rw [List.foldl_append, List.foldl_cons, List.foldl_nil]
        exact hlevels
      · rw [someSlotBeyond_append, ← h.beyond_iff, ← hflag]
        refine Nat.add_pos_iff_pos_or_pos.trans (or_congr_right ?_)
        rw [Nat.pos_iff_ne_zero, Ne, Bool.toNat_eq_zero, Bool.not_eq_false]

theorem sliceQuantities_length (h : Validated rnd total schedule) :
    (sliceQuantities rnd total schedule).length = schedule.slices := by
  have hpos := h.slices_pos
  unfold sliceQuantities
  simp only [List.length_append, List.length_map, List.length_take, List.length_singleton]
  rcases h.weights_ok with hnil | ⟨hlen, _⟩
  · rw [if_pos (List.isEmpty_iff.mpr hnil), List.length_replicate]
    omega
  · have hne : ¬ schedule.weights.isEmpty = true := by
      rw [List.isEmpty_iff_length_eq_zero]
      omega
    rw [if_neg hne]
    omega

/-- The size of the whole order is checked before it is split. -/
theorem walk_validated (h : Validated rnd total schedule) (book : OrderBook) (side : OrderSide) :
    ∃ whole consumed, walk rnd book side total = .ok (whole, consumed) := by
  unfold walk
  rw [if_neg (by simp [h.total_finite, h.total_pos])]
  exact ⟨_, _, rfl⟩

theorem slots_fst (total : Double) :
    (slots rnd total schedule).map Prod.fst = sliceQuantities rnd total schedule :=
  List.zipIdx_map_fst _ _

theorem executeSlots_deep {s : Execution} (hwf : initial.book.WellFormed)
    (hentry : advance initial schedule.startTimestamp updates = .ok (entry, rest))
    (hduration : schedule.durationMs = 0)
    (h : executeSlots rnd initial updates side total schedule schedule.slices = .ok s) :
    Validated rnd total schedule ∧
      Deep rnd side schedule.startTimestamp (entry.book.levels (consumedSide side))
        (sliceQuantities rnd total schedule) s := by
  unfold executeSlots executeSlotsBy at h
  split at h
  · cases h
  · rename_i first henter
    obtain ⟨hvalid, hinitial, hupdates, hresult⟩ := enter_inv henter
    obtain ⟨replayer, found, result⟩ := first
    dsimp only at hinitial hupdates hresult
    subst hinitial hupdates hresult
    have hlength := sliceQuantities_length (validateSchedule_ok hvalid)
    have hall : (slots rnd total schedule).take schedule.slices = slots rnd total schedule :=
      List.take_of_length_le (by rw [slots, List.length_zipIdx, hlength])
    rw [hall] at h
    have hstart : Deep rnd side schedule.startTimestamp (entry.book.levels (consumedSide side)) []
        ⟨entry, rest, { parent := { requestedQuantity := total } }⟩ := by
      refine ⟨advance_wellFormed hwf hentry, rfl, advance_waits hentry, ?_⟩
      refine ⟨fun h0 => absurd h0 (Nat.lt_irrefl 0), ?_⟩
      rintro ⟨before, _, _, hnil, _⟩
      simp at hnil
    refine ⟨validateSchedule_ok hvalid, ?_⟩
    rw [← slots_fst total]
    cases hslots : slots rnd total schedule with
    | nil =>
      have hpos := (validateSchedule_ok hvalid).slices_pos
      rw [← hlength, ← slots_fst total, hslots] at hpos
      exact absurd hpos (Nat.lt_irrefl 0)
    | cons slice slices =>
      rw [hslots, Lib.run_cons_ok] at h
      obtain ⟨t, hfirst, hrest⟩ := h
      have hfirst := (slot_entered hduration _ slice hentry).symm.trans hfirst
      refine Lib.run_history (fun past s => Deep rnd side schedule.startTimestamp
        (entry.book.levels (consumedSide side)) (past.map Prod.fst) s) ?_ [] hstart
        (Lib.run_cons_ok.mpr ⟨t, hfirst, hrest⟩)
      intro past s slice s' hs hstep
      rw [List.map_append]
      exact slot_deep hduration hs hstep

/-- When a split order is flagged whenever the whole order is. -/
theorem depth_flag_iff (hinitial : ({} : BookReplayer).applyRows history = .ok () initial)
    (hentry : advance initial schedule.startTimestamp updates = .ok (entry, rest))
    (hduration : schedule.durationMs = 0)
    (hsplit : simulateSlicedExecutionFromState rnd initial updates side total schedule =
      .ok split) :
    ∃ whole, simulateMarketOrder rnd entry.book side total = .ok whole ∧
      ((whole.beyondValidatedDepth = true → split.parent.beyondValidatedDepth = true) ↔
        FlagKept rnd (entry.book.levels (consumedSide side)) total
          (sliceQuantities rnd total schedule)) := by
  have hwf : initial.book.WellFormed :=
    BookReplayer.applyRows_wellFormed OrderBook.wellFormed_empty hinitial
  obtain ⟨s, hs, rfl⟩ := map_ok.mp hsplit
  obtain ⟨hvalid, hdeep⟩ := executeSlots_deep hwf hentry hduration hs
  have hparent : (s.result.finish rnd side).parent.beyondValidatedDepth = true ↔
      SomeSlotBeyond rnd (entry.book.levels (consumedSide side))
        (sliceQuantities rnd total schedule) := by
    rw [← hdeep.beyond_iff]
    exact decide_eq_true_iff
  obtain ⟨whole, consumed, hwhole⟩ := walk_validated hvalid entry.book side
  refine ⟨whole, by rw [simulateMarketOrder, hwhole]; rfl, ?_⟩
  rw [(walk_reached hwhole).1, hparent, FlagKept, imp_iff_not_or, not_lt]

/-- Offers of one unit at 101, 102, ... -/
def unitOffers (n : Nat) : List BookUpdate :=
  .snap 1000 .bid 100 1 :: (List.range n).map fun i => .snap 1000 .ask (101 + i) 1

/-- Two offers, one for each slice. -/
theorem depth_flag_shallow :
    ∃ split whole,
      simulateSlicedExecutionFromState exact {} (unitOffers 2) .buy (.finite 2)
        { startTimestamp := 1000, slices := 2 } = .ok split ∧
      simulateMarketOrder exact (({} : BookReplayer).applyRows (unitOffers 2)).state.book .buy
        (.finite 2) = .ok whole ∧
      ((whole.beyondValidatedDepth = true → split.parent.beyondValidatedDepth = true) ↔
        FlagKept exact ((({} : BookReplayer).applyRows (unitOffers 2)).state.book.levels .ask)
          (.finite 2) (sliceQuantities exact (.finite 2) { startTimestamp := 1000, slices := 2 })) := by
  have hinitial : ({} : BookReplayer).applyRows [] = .ok () {} := rfl
  have hentry : advance {} 1000 (unitOffers 2) =
      .ok ((({} : BookReplayer).applyRows (unitOffers 2)).state, []) := by decide +kernel
  have hok : (simulateSlicedExecutionFromState exact {} (unitOffers 2) .buy (.finite 2)
      { startTimestamp := 1000, slices := 2 }).isOk = true := by decide +kernel
  cases hsplit : simulateSlicedExecutionFromState exact {} (unitOffers 2) .buy (.finite 2)
      { startTimestamp := 1000, slices := 2 } with
  | error e =>
    rw [hsplit] at hok
    cases hok
  | ok split =>
    obtain ⟨whole, hwhole, hiff⟩ := depth_flag_iff hinitial hentry rfl hsplit
    exact ⟨split, whole, rfl, hwhole, hiff⟩

/-- One order for 26 units is flagged, two slices of 13 are not. -/
theorem depth_flag_lost :
    (simulateMarketOrder exact (({} : BookReplayer).applyRows (unitOffers 26)).state.book .buy
        (.finite 26)).map (·.beyondValidatedDepth) = .ok true ∧
      (simulateSlicedExecution exact (unitOffers 26) .buy (.finite 26)
        { startTimestamp := 1000, slices := 2 }).map (·.parent.beyondValidatedDepth) =
          .ok false := by
  decide +kernel

end Impact
end PerpCarry
