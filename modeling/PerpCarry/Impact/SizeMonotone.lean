import PerpCarry.Impact.Liquidity
import PerpCarry.Impact.StaticCost

/-!
# Impact.SizeMonotone

A sliced order costs no less when it is larger, over exact rationals.

Two orders of sizes `q ≤ Q` run on the same feed with the same schedule.

* `sliceQuantities_shares`: slot by slot they take the same share of their size.
* `Dominates`: the book the smaller one leaves is at least as deep at every price, and until a slice
  of the larger one is starved the smaller one has paid no more for a unit.
* `slot_dominates`, `run_dominates`: one slot, and all slots, keep that.
* `sliced_cost_mono`: what the two calls return.
-/

namespace PerpCarry
namespace Impact

open Lib OrderBook BookReplayer

/-! ## The sizes of the slots -/

variable {schedule : SliceSchedule} {side : OrderSide} {q Q : ℚ}

/-- The sizes are shares of the order that do not depend on it. -/
theorem sliceQuantities_shares (h : Validated exact (.finite Q) schedule) :
    ∃ shares : List ℚ, (∀ share ∈ shares, 0 ≤ share) ∧ shares.sum = 1 ∧
      shares.length = schedule.slices ∧
      ∀ q, sliceQuantities exact (.finite q) schedule =
        shares.map fun share => .finite (q * share) := by
  obtain ⟨ws, hws, hnonneg, hW, hlen⟩ := weights_exact h
  have hn := h.slices_pos
  let front := (ws.take (schedule.slices - 1)).map fun w => w / ws.sum
  have hfront : ∀ q, ((ws.map Double.finite).take (schedule.slices - 1)).map (fun w =>
      (Double.mul exact (.finite q) w).div exact (.finite ws.sum)) =
        (front.map (q * ·)).map Double.finite := by
    intro q
    rw [← List.map_take, List.map_map, List.map_map, List.map_map]
    refine List.map_congr_left fun w _ => ?_
    show (Double.mul exact (.finite q) (.finite w)).div exact (.finite ws.sum) = _
    rw [Double.mul_exact, Double.div_exact hW.ne']
    simp [mul_div_assoc]
  have hshares : ∀ q, sliceQuantities exact (.finite q) schedule =
      (front ++ [1 - front.sum]).map fun share => .finite (q * share) := by
    intro q
    have hsum : (front.map (q * ·)).sum = q * front.sum := by
      rw [List.sum_map_mul_left, List.map_id']
    unfold sliceQuantities
    simp only [hws, sum_exact, hfront, hsum, Double.sub_exact, List.map_append, List.map_cons,
      List.map_nil]
    rw [List.map_map, mul_sub, mul_one]
    rfl
  refine ⟨front ++ [1 - front.sum], ?_, by simp, by simp [front, hlen]; omega, hshares⟩
  -- the sizes of an order are not negative, so neither are its shares
  obtain ⟨sizes, hsizes, hpos, _⟩ := sliceQuantities_exact h
  have hQ : 0 < Q := by simpa [Double.zero] using h.total_pos
  have hmap : (front ++ [1 - front.sum]).map (Q * ·) = sizes := by
    have := (hshares Q).symm.trans hsizes
    have := congrArg (List.map Double.value) this
    simpa [List.map_map, Function.comp_def] using this
  intro share hshare
  have : Q * share ∈ sizes := by
    rw [← hmap]
    exact List.mem_map_of_mem hshare
  exact nonneg_of_mul_nonneg_right (hpos _ this) hQ

/-! ## The two books -/

/-- At least as deep at every price of a side. -/
def Deeper (s : Side) (book book' : OrderBook) : Prop :=
  ∀ p : ℚ, resting book' s p ≤ resting book s p

theorem Deeper.within {book book' : OrderBook} {s : Side} (h : Deeper s book book')
    (hwf : book.WellFormed) (hwf' : book'.WellFormed) :
    Within (ladder book' s) (ladder book s) := by
  refine Within.of_mem (r := Book.Better s) inferInstance (ladder_sorted hwf s)
    (ladder_sorted hwf' s) ?_ fun a b hab hba => irrefl_of (Book.Better s) a (trans_of _ hab hba)
  intro t ht
  have hpos := ladder_stocked hwf' s t ht
  refine ⟨hpos.le, ?_⟩
  have hmore := h t.1
  rw [resting, held_of_mem (ladder_prices hwf' s) ht] at hmore
  by_contra hnone
  push Not at hnone
  -- the deeper book has a level there, and by its quantity it is one we look for
  have hlevel : ∃ l ∈ ladder book s, l.1 = t.1 := by
    by_contra hempty
    push Not at hempty
    rw [resting, held_eq_zero hempty] at hmore
    linarith
  obtain ⟨l, hl, hp⟩ := hlevel
  have := hnone l hl hp
  rw [← hp, resting, held_of_mem (ladder_prices hwf s) hl] at hmore
  linarith

theorem Deeper.of_within {book book' : OrderBook} {s : Side}
    (h : Within (ladder book' s) (ladder book s)) (hwf : book.WellFormed) : Deeper s book book' :=
  fun p => h.held_le (ladder_stocked hwf s) p

/-- Books that show the same are the same. -/
theorem book_eq_of_shown {book book' : OrderBook} (h : book.WellFormed) (h' : book'.WellFormed)
    (hshown : book.shown = book'.shown) : book = book' := by
  have hbids := levels_eq_of_shown h h' (congrFun hshown .bid)
  have hasks := levels_eq_of_shown h h' (congrFun hshown .ask)
  obtain ⟨bids, asks⟩ := book
  obtain ⟨bids', asks'⟩ := book'
  obtain rfl : bids = bids' := hbids
  obtain rfl : asks = asks' := hasks
  rfl

/-- The replayer of the smaller order against that of the larger one. -/
structure DeeperReplay (side : OrderSide) (r R : BookReplayer) : Prop where
  lockstep : Lockstep r R
  wellFormed : r.book.WellFormed
  wellFormed' : R.book.WellFormed
  deeper : Deeper (consumedSide side) r.book R.book

variable {r R r' R' : BookReplayer} {updates : List BookUpdate} {time : Int}

/-- A row overwrites, removes or resets in both books alike. -/
theorem apply_deeper (h : DeeperReplay side r R) {u : BookUpdate} (ha : R.apply u = .ok () R') :
    ∃ r', r.apply u = .ok () r' ∧ DeeperReplay side r' R' ∧ (r.book = R.book → r'.book = R'.book) := by
  obtain ⟨r', hr', hstep⟩ := h.lockstep.apply h.wellFormed h.wellFormed' ha
  have hwf := apply_wellFormed h.wellFormed hr'
  have hwf' := apply_wellFormed h.wellFormed' ha
  refine ⟨r', hr', ⟨hstep, hwf, hwf', ?_⟩, ?_⟩
  · intro p
    rw [resting_replayed h.wellFormed hr', resting_replayed h.wellFormed' ha, h.lockstep.opens_eq]
    split
    · exact le_rfl
    · split
      · exact le_rfl
      · exact h.deeper p
  · intro heq
    refine book_eq_of_shown hwf hwf' ?_
    rw [apply_shown h.wellFormed hr', apply_shown h.wellFormed' ha, h.lockstep.opens_eq, heq]

theorem advance_deeper (h : DeeperReplay side r R) (time : Int) {final : BookReplayer}
    (ha : R.applyRows updates = .ok () final) :
    ∃ r' R' rest, advance r time updates = .ok (r', rest) ∧
      advance R time updates = .ok (R', rest) ∧ DeeperReplay side r' R' ∧
      (r.book = R.book → r'.book = R'.book) ∧ R'.applyRows rest = .ok () final := by
  induction updates generalizing r R with
  | nil => exact ⟨r, R, [], rfl, rfl, h, id, ha⟩
  | cons u us ih =>
    by_cases hu : u.timestamp ≤ time
    · obtain ⟨R₁, hR₁, hrest⟩ := applyRows_cons_ok.mp ha
      obtain ⟨r₁, hr₁, h₁, hsame⟩ := apply_deeper h hR₁
      obtain ⟨r', R', rest, hr', hR', h', hsame', hfinal⟩ := ih h₁ hrest
      refine ⟨r', R', rest, ?_, ?_, h', fun heq => hsame' (hsame heq), hfinal⟩
      · simp only [advance, if_pos hu, hr₁, hr']
      · simp only [advance, if_pos hu, hR₁, hR']
    · refine ⟨r, R, u :: us, ?_, ?_, h, id, ha⟩
      · simp only [advance, if_neg hu]
      · simp only [advance, if_neg hu]

theorem execute_deeper (h : DeeperReplay side r R) {x X : ℚ} (hx : 0 < x) (hxX : x ≤ X) :
    DeeperReplay side { r with book := depleted r.book side x }
      { R with book := depleted R.book side X } := by
  have hwf := (execute_exact h.wellFormed side hx).2
  have hwf' := (execute_exact h.wellFormed' side (hx.trans_le hxX)).2
  refine ⟨⟨h.lockstep.started, h.lockstep.previous, h.lockstep.clock⟩, hwf, hwf', ?_⟩
  refine Deeper.of_within ?_ hwf
  rw [ladder_depleted, ladder_depleted]
  exact (h.deeper.within h.wellFormed h.wellFormed').leave (ladder_stocked h.wellFormed' _)
    (ladder_stocked h.wellFormed _) hx.le hxX

/-! ## The two runs -/

/-- What the two orders have paid while no slice of the larger one has been starved. `done` is the
share executed so far. -/
structure Cheaper (side : OrderSide) (q Q done : ℚ) (small large : SlicedFill) : Prop where
  completed : small.slicesExhausted = 0
  filled : small.parent.filledQuantity = .finite (q * done)
  filled' : large.parent.filledQuantity = .finite (Q * done)
  notional : ∃ n N, small.parent.notional = .finite n ∧ large.parent.notional = .finite N ∧
    weight side n * Q ≤ weight side N * q
  slices : List.Forall₂ (fun f F : Fill => NoWorse side f.averagePrice F.averagePrice)
    small.slices large.slices

/-- The arrival mid of both orders is that of one book. -/
def SameArrival (small large : SlicedFill) : Prop :=
  ∃ arrival : OrderBook, arrival.WellFormed ∧
    small.parent.midAtEntry = midAtEntry exact arrival ∧
    large.parent.midAtEntry = midAtEntry exact arrival

structure Dominates (side : OrderSide) (q Q done : ℚ) (s S : Execution) : Prop where
  replay : DeeperReplay side s.replayer S.replayer
  rows : s.updates = S.updates
  accepted : ∃ final, S.replayer.applyRows S.updates = .ok () final
  nonneg : 0 ≤ done
  fresh : done = 0 → s.result.slices = [] ∧ S.result.slices = [] ∧ s.replayer.book = S.replayer.book
  arrived : 0 < done → s.result.slices ≠ [] ∧ S.result.slices ≠ [] ∧ SameArrival s.result S.result
  cheaper : S.result.slicesExhausted = 0 → Cheaper side q Q done s.result S.result

/-- What an order gets when the side is deep enough. -/
theorem exactFill_deep {book : OrderBook} (h : book.WellFormed) (side : OrderSide) {x : ℚ}
    (hx : 0 < x) (hdepth : x ≤ depth (ladder book (consumedSide side))) :
    (exactFill book side x).exhaustedBook = false ∧
      (exactFill book side x).filledQuantity = .finite x ∧
      (exactFill book side x).averagePrice =
        .finite (value id (take x (ladder book (consumedSide side))) / x) := by
  have hone := value_one (ladder_stocked h (consumedSide side)) hx.le
  rw [min_eq_left hdepth] at hone
  refine ⟨?_, by rw [exactFill_filledQuantity, hone], ?_⟩
  · simp only [exactFill, hone, lt_irrefl, decide_false]
  · simp only [exactFill, hone, if_pos hx]

theorem deep_of_exhausted {book : OrderBook} (h : book.WellFormed) (side : OrderSide) {x : ℚ}
    (hx : 0 < x) (hfull : (exactFill book side x).exhaustedBook = false) :
    x ≤ depth (ladder book (consumedSide side)) := by
  by_contra hlt
  have := (exactFill_walked h side hx).exhausted.mpr (not_le.mp hlt)
  rw [hfull] at this
  cases this

@[simp] theorem push_slicesExhausted (rnd : Rounding) (side : OrderSide) (result : SlicedFill)
    (fill : Fill) : (result.push rnd side fill).slicesExhausted =
      result.slicesExhausted + fill.exhaustedBook.toNat := rfl

theorem push_cheaper (h : DeeperReplay side r R) {done share : ℚ} {small large : SlicedFill}
    (hq : 0 < q) (hqQ : q ≤ Q) (hshare : 0 < share) (hc : Cheaper side q Q done small large)
    (hfull : (exactFill R.book side (Q * share)).exhaustedBook = false) :
    Cheaper side q Q (done + share) (small.push exact side (exactFill r.book side (q * share)))
      (large.push exact side (exactFill R.book side (Q * share))) := by
  have hx : 0 < q * share := mul_pos hq hshare
  have hX : 0 < Q * share := mul_pos (hq.trans_le hqQ) hshare
  have hxX : q * share ≤ Q * share := mul_le_mul_of_nonneg_right hqQ hshare.le
  have hL := ladder_stocked h.wellFormed (consumedSide side)
  have hM := ladder_stocked h.wellFormed' (consumedSide side)
  have hwithin := h.deeper.within h.wellFormed h.wellFormed'
  have hdeep' := deep_of_exhausted h.wellFormed' side hX hfull
  have hdeep := (hxX.trans hdeep').trans (hwithin.depth_le hL)
  obtain ⟨hnone, hfilled, haverage⟩ := exactFill_deep h.wellFormed side hx hdeep
  obtain ⟨_, hfilled', haverage'⟩ := exactFill_deep h.wellFormed' side hX hdeep'
  -- greedy on the deeper ladder, against what the larger order takes from the other
  have htaken := (take_within hM (Q * share)).trans hwithin
  have hdepth := depth_take hM hX.le
  rw [min_eq_left hdeep'] at hdepth
  have hpaid := htaken.average_le hL (ladder_weights h.wellFormed side) hx (by rw [hdepth]; exact hxX)
  rw [hdepth, value_weight, value_weight] at hpaid
  obtain ⟨n, N, hn, hN, hle⟩ := hc.notional
  refine ⟨?_, ?_, ?_, ?_, ?_⟩
  · rw [push_slicesExhausted, hc.completed, hnone]
    rfl
  · rw [push_filledQuantity, hc.filled, hfilled, Double.add_exact, mul_add]
  · rw [push_filledQuantity, hc.filled', hfilled', Double.add_exact, mul_add]
  · refine ⟨_, _, by rw [push_notional, hn, exactFill_notional, Double.add_exact],
      by rw [push_notional, hN, exactFill_notional, Double.add_exact], ?_⟩
    rw [weight_add, weight_add, add_mul, add_mul]
    refine add_le_add hle (le_of_mul_le_mul_right ?_ hshare)
    linarith
  · refine List.rel_append hc.slices (.cons ⟨_, _, haverage, haverage', ?_⟩ .nil)
    rw [weight_div, weight_div, div_le_div_iff₀ hx hX]
    exact hpaid

theorem push_arrived (small large : SlicedFill) {f F : Fill} {done : ℚ}
    (hfresh : done = 0 → small.slices = [] ∧ large.slices = [] ∧
      ∃ arrival : OrderBook, arrival.WellFormed ∧ f.midAtEntry = midAtEntry exact arrival ∧
        F.midAtEntry = midAtEntry exact arrival)
    (harrived : 0 < done → small.slices ≠ [] ∧ large.slices ≠ [] ∧ SameArrival small large)
    (hdone : 0 ≤ done) :
    (small.push exact side f).slices ≠ [] ∧ (large.push exact side F).slices ≠ [] ∧
      SameArrival (small.push exact side f) (large.push exact side F) := by
  refine ⟨by simp, by simp, ?_⟩
  rcases hdone.eq_or_lt with hzero | hpos
  · obtain ⟨hsmall, hlarge, arrival, hwf, hf, hF⟩ := hfresh hzero.symm
    exact ⟨arrival, hwf, (push_first exact side small f hsmall).1.1.trans hf,
      (push_first exact side large F hlarge).1.1.trans hF⟩
  · obtain ⟨hsmall, hlarge, arrival, hwf, hf, hF⟩ := harrived hpos
    exact ⟨arrival, hwf, (push_later exact side small f hsmall).1.1.trans hf,
      (push_later exact side large F hlarge).1.1.trans hF⟩

theorem slot_dominates {done share : ℚ} {s S : Execution} (hq : 0 < q) (hqQ : q ≤ Q)
    (hshare : 0 ≤ share) (i : Nat) (h : Dominates side q Q done s S) :
    ∃ s' S', slot exact side schedule s (.finite (q * share), i) = .ok s' ∧
      slot exact side schedule S (.finite (Q * share), i) = .ok S' ∧
      Dominates side q Q (done + share) s' S' := by
  obtain ⟨final, hfinal⟩ := h.accepted
  obtain ⟨r, R, rest, hr, hR, hreplay, hsame, hrest⟩ :=
    advance_deeper h.replay (sliceTime schedule i) hfinal
  unfold slot slotBy
  simp only [h.rows, hr, hR]
  rcases hshare.eq_or_lt with rfl | hshare
  · rw [if_pos (by simp [Double.zero]), if_pos (by simp [Double.zero])]
    refine ⟨_, _, rfl, rfl, ⟨hreplay, rfl, ⟨final, hrest⟩, ?_, ?_, ?_, ?_⟩⟩
    · simpa using h.nonneg
    · intro hdone
      obtain ⟨hs, hS, hbook⟩ := h.fresh (by simpa using hdone)
      exact ⟨hs, hS, hsame hbook⟩
    · simpa using h.arrived
    · simpa using h.cheaper
  · have hx : 0 < q * share := mul_pos hq hshare
    have hX : 0 < Q * share := mul_pos (hq.trans_le hqQ) hshare
    have hxX : q * share ≤ Q * share := mul_le_mul_of_nonneg_right hqQ hshare.le
    have hpos : 0 < done + share := add_pos_of_nonneg_of_pos h.nonneg hshare
    rw [if_neg (by simp [Double.zero, hx]), if_neg (by simp [Double.zero, hX]),
      (execute_exact hreplay.wellFormed side hx).1, (execute_exact hreplay.wellFormed' side hX).1]
    refine ⟨_, _, rfl, rfl, ⟨execute_deeper hreplay hx hxX, rfl, ?_, hpos.le,
      fun hdone => absurd hdone hpos.ne', fun _ => ?_, ?_⟩⟩
    · -- what is accepted does not depend on the book
      have hwf := (execute_exact hreplay.wellFormed' side hX).2
      exact (applyRows_ok_iff hwf).mpr ((applyRows_ok_iff hreplay.wellFormed').mp ⟨final, hrest⟩)
    · refine push_arrived s.result S.result ?_ h.arrived h.nonneg
      intro hdone
      obtain ⟨hs, hS, hbook⟩ := h.fresh hdone
      exact ⟨hs, hS, r.book, hreplay.wellFormed, rfl, by rw [hsame hbook]; rfl⟩
    · intro hnone
      rw [push_slicesExhausted] at hnone
      have hfull : (exactFill R.book side (Q * share)).exhaustedBook = false := by
        cases hb : (exactFill R.book side (Q * share)).exhaustedBook with
        | false => rfl
        | true => simp [hb] at hnone
      exact push_cheaper hreplay hq hqQ hshare (h.cheaper (by omega)) hfull

/-! ## The two calls -/

theorem slots_shares {shares : List ℚ}
    (h : ∀ q, sliceQuantities exact (.finite q) schedule =
      shares.map fun share => .finite (q * share)) (q : ℚ) :
    slots exact (.finite q) schedule = shares.zipIdx.map fun t => (.finite (q * t.1), t.2) := by
  rw [slots, h, List.zipIdx_map]
  rfl

/-- A schedule that is valid for an order is valid for any other. -/
theorem validateSchedule_size (hq : 0 < q)
    (hvalid : validateSchedule exact (.finite Q) schedule = .ok ()) :
    validateSchedule exact (.finite q) schedule = .ok () := by
  have hQ : 0 < Q := by simpa [Double.zero] using (validateSchedule_ok hvalid).total_pos
  unfold validateSchedule at hvalid ⊢
  rw [if_neg (by simp [Double.zero, hQ])] at hvalid
  rw [if_neg (by simp [Double.zero, hq]), hvalid]

variable {initial final : BookReplayer} {history : List BookUpdate}

theorem run_dominates (side : OrderSide) (hq : 0 < q) (hqQ : q ≤ Q)
    (hwf : initial.book.WellFormed) (hupdates : initial.applyRows updates = .ok () final)
    (hlate : ¬ (0 < initial.stats.applied ∧ schedule.startTimestamp < initial.stats.lastTimestamp))
    (hvalid : validateSchedule exact (.finite Q) schedule = .ok ()) {shares : List ℚ}
    (hnonneg : ∀ share ∈ shares, 0 ≤ share)
    (hshares : ∀ q, sliceQuantities exact (.finite q) schedule =
      shares.map fun share => .finite (q * share)) (k : Nat) :
    ∃ s S, executeSlots exact initial updates side (.finite q) schedule k = .ok s ∧
      executeSlots exact initial updates side (.finite Q) schedule k = .ok S ∧
      Dominates side q Q ((shares.zipIdx.take k).map Prod.fst).sum s S := by
  have hstart : Dominates side q Q 0
      ⟨initial, updates, { parent := { requestedQuantity := .finite q } }⟩
      ⟨initial, updates, { parent := { requestedQuantity := .finite Q } }⟩ := by
    refine ⟨⟨Lockstep.refl _, hwf, hwf, fun _ => le_rfl⟩, rfl, ⟨final, hupdates⟩, le_rfl,
      fun _ => ⟨rfl, rfl, rfl⟩, fun hpos => absurd hpos (lt_irrefl 0), fun _ => ?_⟩
    refine ⟨rfl, by rw [mul_zero]; rfl, by rw [mul_zero]; rfl, ⟨0, 0, rfl, rfl, ?_⟩, .nil⟩
    rw [show weight side 0 = 0 by cases side <;> simp [weight], zero_mul, zero_mul]
  have hkeep : ∀ t ∈ shares.zipIdx.take k, ∀ (past : List (ℚ × Nat)) s S,
      Dominates side q Q (past.map Prod.fst).sum s S →
      ∃ s' S', slot exact side schedule s (.finite (q * t.1), t.2) = .ok s' ∧
        slot exact side schedule S (.finite (Q * t.1), t.2) = .ok S' ∧
        Dominates side q Q ((past ++ [t]).map Prod.fst).sum s' S' := by
    intro t ht past s S h
    have hshare := hnonneg t.1 (List.fst_mem_of_mem_zipIdx (List.mem_of_mem_take ht))
    simpa using slot_dominates hq hqQ hshare t.2 h
  obtain ⟨s, S, hs, hS, h⟩ := Lib.run_pair _ hkeep [] hstart
  refine ⟨s, S, ?_, ?_, by simpa using h⟩
  · unfold executeSlots executeSlotsBy
    rw [enter_ok (validateSchedule_size hq hvalid) hlate, slots_shares hshares, ← List.map_take]
    dsimp only
    rw [Lib.run_list_map]
    exact hs
  · unfold executeSlots executeSlotsBy
    rw [enter_ok hvalid hlate, slots_shares hshares, ← List.map_take]
    dsimp only
    rw [Lib.run_list_map]
    exact hS

/-- Two slippages against one reference: both missing, or the first no larger. -/
def SlippageLe (a b : Double) : Prop :=
  (a = .nan ∧ b = .nan) ∨ ∃ x y, a = .finite x ∧ b = .finite y ∧ x ≤ y

theorem slippage_le {a b : Double} (h : NoWorse side a b) {arrival : OrderBook}
    (hwf : arrival.WellFormed) :
    SlippageLe (slippageBps exact side a (midAtEntry exact arrival))
      (slippageBps exact side b (midAtEntry exact arrival)) := by
  obtain ⟨x, y, rfl, rfl, hxy⟩ := h
  by_cases hboth : ∀ s, arrival.levels s ≠ []
  · obtain ⟨bid, ask, _, _, _, _, _, _, hmid, hbid, hask, _⟩ :=
      midAtEntry_exact hwf (hboth .bid) (hboth .ask)
    have hpos : 0 < (bid + ask) / 2 := by linarith
    rw [hmid, slippage_exact side hpos.ne', slippage_exact side hpos.ne']
    exact .inr ⟨_, _, rfl, rfl, slippage_mono side hpos hxy⟩
  · push Not at hboth
    obtain ⟨s, hs⟩ := hboth
    have hmid : midAtEntry exact arrival = .nan := by
      refine midAtEntry_nan exact ?_
      cases s with
      | bid => exact .inl hs
      | ask => exact .inr hs
    rw [hmid]
    exact .inl ⟨rfl, rfl⟩

/-- What the calls return for a completed larger order. -/
structure NoDearer (side : OrderSide) (small large : SlicedFill) : Prop where
  completed : small.completed = true
  slices : List.Forall₂ (fun f F : Fill => NoWorse side f.averagePrice F.averagePrice)
    small.slices large.slices
  average : NoWorse side small.parent.averagePrice large.parent.averagePrice
  slippage : SlippageLe small.parent.slippageVsMidBps large.parent.slippageVsMidBps

theorem finish_noDearer {small large : SlicedFill} (hq : 0 < q) (hqQ : q ≤ Q)
    (hc : Cheaper side q Q 1 small large) (harrival : SameArrival small large) :
    NoDearer side (small.finish exact side) (large.finish exact side) := by
  have hQ := hq.trans_le hqQ
  obtain ⟨n, N, hn, hN, hle⟩ := hc.notional
  obtain ⟨arrival, hwf, hmid, hmid'⟩ := harrival
  have haverage : (small.finish exact side).parent.averagePrice = .finite (n / q) := by
    simp [SlicedFill.finish, hc.filled, hn, Double.zero, hq, Double.div_exact hq.ne']
  have haverage' : (large.finish exact side).parent.averagePrice = .finite (N / Q) := by
    simp [SlicedFill.finish, hc.filled', hN, Double.zero, hQ, Double.div_exact hQ.ne']
  have hworse : NoWorse side (small.finish exact side).parent.averagePrice
      (large.finish exact side).parent.averagePrice := by
    refine ⟨_, _, haverage, haverage', ?_⟩
    rw [weight_div, weight_div, div_le_div_iff₀ hq hQ]
    exact hle
  refine ⟨decide_eq_true hc.completed, hc.slices, hworse, ?_⟩
  show SlippageLe (slippageBps exact side (small.finish exact side).parent.averagePrice
    small.parent.midAtEntry) (slippageBps exact side (large.finish exact side).parent.averagePrice
      large.parent.midAtEntry)
  rw [hmid, hmid']
  exact slippage_le hworse hwf

/-- Orders of `q` and `Q ≥ q` with one schedule on one accepted feed. -/
theorem sliced_cost_mono (side : OrderSide) (hq : 0 < q) (hqQ : q ≤ Q)
    (hinitial : ({} : BookReplayer).applyRows history = .ok () initial)
    (hupdates : initial.applyRows updates = .ok () final)
    (hlate : ¬ (0 < initial.stats.applied ∧ schedule.startTimestamp < initial.stats.lastTimestamp))
    (hvalid : validateSchedule exact (.finite Q) schedule = .ok ()) :
    (∀ k, ∃ s S, executeSlots exact initial updates side (.finite q) schedule k = .ok s ∧
      executeSlots exact initial updates side (.finite Q) schedule k = .ok S ∧
      Deeper (consumedSide side) s.replayer.book S.replayer.book) ∧
    ∃ small large,
      simulateSlicedExecutionFromState exact initial updates side (.finite q) schedule = .ok small ∧
      simulateSlicedExecutionFromState exact initial updates side (.finite Q) schedule = .ok large ∧
      (large.completed = true → NoDearer side small large) := by
  obtain ⟨shares, hnonneg, hsum, hlength, hshares⟩ :=
    sliceQuantities_shares (validateSchedule_ok hvalid)
  have hwf : initial.book.WellFormed := applyRows_wellFormed wellFormed_empty hinitial
  have hrun := run_dominates side hq hqQ hwf hupdates hlate hvalid hnonneg hshares
  constructor
  · intro k
    obtain ⟨s, S, hs, hS, h⟩ := hrun k
    exact ⟨s, S, hs, hS, h.replay.deeper⟩
  · obtain ⟨s, S, hs, hS, h⟩ := hrun schedule.slices
    rw [List.take_of_length_le (by simp [hlength]), List.zipIdx_map_fst, hsum] at h
    refine ⟨s.result.finish exact side, S.result.finish exact side, ?_, ?_, ?_⟩
    · unfold simulateSlicedExecutionFromState
      rw [hs]
      rfl
    · unfold simulateSlicedExecutionFromState
      rw [hS]
      rfl
    · intro hcompleted
      have hnone : S.result.slicesExhausted = 0 := of_decide_eq_true hcompleted
      exact finish_noDearer hq hqQ (h.cheaper hnone) (h.arrived zero_lt_one).2.2

/-- Orders of two and of four around a diff that writes the first offer anew. -/
theorem sliced_cost_mono_rewrittenDay :
    let schedule : SliceSchedule := { startTimestamp := 1000, durationMs := 100, slices := 2 }
    ∃ small large,
      simulateSlicedExecutionFromState exact {} rewrittenDay .buy (.finite 2) schedule = .ok small ∧
      simulateSlicedExecutionFromState exact {} rewrittenDay .buy (.finite 4) schedule = .ok large ∧
      (large.completed = true → NoDearer .buy small large) := by
  intro schedule
  have hempty : ({} : BookReplayer).applyRows [] = .ok () {} := rfl
  have hday : ({} : BookReplayer).applyRows rewrittenDay =
      .ok () (({} : BookReplayer).applyRows rewrittenDay).state := by decide +kernel
  have hvalid : validateSchedule exact (.finite 4) schedule = .ok () := by decide +kernel
  exact (sliced_cost_mono .buy (by norm_num) (by norm_num) hempty hday
    (fun hlate => absurd hlate.1 (by decide)) hvalid).2

end Impact
end PerpCarry
