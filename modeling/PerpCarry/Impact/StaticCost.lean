import PerpCarry.Book.Refinement
import PerpCarry.Impact.ExactWalk
import PerpCarry.Lib.Greedy

/-!
# Impact.StaticCost

What one market order costs, over exact rationals.

* `Walked`: everything a fill says, in terms of the levels of the consumed side.
* `Left`: what the order leaves in the book.
* `walk_specified`: `simulate_market_order` and `execute_market_order` on a well-formed book.
* `static_cost_mono`: a larger order gets no better a price, and no order a flattering one.
-/

namespace PerpCarry
namespace Impact

open Lib OrderBook

variable {book : OrderBook} {side : OrderSide} {q Q : ℚ}

/-! ## The whole of a fill -/

/-- The total prices of all the ways to take `s` units from a ladder. -/
def notionals (L : List (ℚ × ℚ)) (s : ℚ) : Set ℚ :=
  {c | ∃ T, Within T L ∧ depth T = s ∧ value id T = c}

/-- The least a buyer can pay, or the most a seller can get. -/
def BestNotional (side : OrderSide) (L : List (ℚ × ℚ)) (s c : ℚ) : Prop :=
  match side with
  | .buy => IsLeast (notionals L s) c
  | .sell => IsGreatest (notionals L s) c

/-- The price of the last of the `n` best levels. -/
def lastOf (levels : List Level) (n : Nat) : Double :=
  ((levels.take n).getLast?.map Level.price).getD .nan

structure Walked (book : OrderBook) (side : OrderSide) (q : ℚ) (fill : Fill) : Prop where
  filled : fill.filledQuantity = .finite (min q (depth (ladder book (consumedSide side))))
  notional : ∃ c, fill.notional = .finite c ∧
    BestNotional side (ladder book (consumedSide side))
      (min q (depth (ladder book (consumedSide side)))) c
  levels : IsLeast
    {n : Nat | min q (depth (ladder book (consumedSide side))) ≤
      depth ((ladder book (consumedSide side)).take n)} fill.levelsConsumed
  worst : fill.worstPrice = lastOf (book.levels (consumedSide side)) fill.levelsConsumed
  exhausted : fill.exhaustedBook = true ↔ depth (ladder book (consumedSide side)) < q

structure Left (book : OrderBook) (side : OrderSide) (q : ℚ) (left : OrderBook) : Prop where
  other : ∀ s, s ≠ consumedSide side → left.levels s = book.levels s
  depth_eq : depth (ladder left (consumedSide side)) =
    depth (ladder book (consumedSide side)) - min q (depth (ladder book (consumedSide side)))
  wellFormed : left.WellFormed

/-- What a price is worth to the trader who pays it: less is better. -/
def weight : OrderSide → ℚ → ℚ
  | .buy => id
  | .sell => fun p => -p

theorem ladder_weights (h : book.WellFormed) (side : OrderSide) :
    (ladder book (consumedSide side)).Pairwise fun l m => weight side l.1 ≤ weight side m.1 := by
  refine (ladder_sorted h (consumedSide side)).imp ?_
  intro l m hlm
  cases side with
  | buy =>
    have hlt : l.1 < m.1 := hlm
    exact hlt.le
  | sell =>
    have hlt : m.1 < l.1 := hlm
    exact neg_le_neg hlt.le

theorem weight_add (side : OrderSide) (a b : ℚ) :
    weight side (a + b) = weight side a + weight side b := by
  cases side with
  | buy => rfl
  | sell => exact neg_add a b

theorem weight_div (side : OrderSide) (a b : ℚ) : weight side (a / b) = weight side a / b := by
  cases side with
  | buy => rfl
  | sell => exact (neg_div b a).symm

theorem value_weight (side : OrderSide) (T : List (ℚ × ℚ)) :
    value (weight side) T = weight side (value id T) := by
  cases side with
  | buy => rfl
  | sell => exact value_neg T

theorem bestNotional_take (h : book.WellFormed) (side : OrderSide) (hq : 0 ≤ q) :
    BestNotional side (ladder book (consumedSide side))
      (min q (depth (ladder book (consumedSide side))))
      (value id (take q (ladder book (consumedSide side)))) := by
  have hL := ladder_stocked h (consumedSide side)
  have hdepth := depth_take hL hq
  have hmem : value id (take q (ladder book (consumedSide side))) ∈
      notionals (ladder book (consumedSide side))
        (min q (depth (ladder book (consumedSide side)))) :=
    ⟨_, take_within hL q, hdepth, rfl⟩
  -- asking for more than there is takes the same
  have htake : take (min q (depth (ladder book (consumedSide side))))
      (ladder book (consumedSide side)) = take q (ladder book (consumedSide side)) :=
    take_min hL hq
  have hbest : ∀ T, Within T (ladder book (consumedSide side)) →
      depth T = min q (depth (ladder book (consumedSide side))) →
      value (weight side) (take q (ladder book (consumedSide side))) ≤ value (weight side) T := by
    intro T hT hd
    have := hT.value_le hL (ladder_weights h side)
    rwa [hd, htake] at this
  cases side with
  | buy =>
    refine ⟨hmem, ?_⟩
    rintro c ⟨T, hT, hd, rfl⟩
    exact hbest T hT hd
  | sell =>
    refine ⟨hmem, ?_⟩
    rintro c ⟨T, hT, hd, rfl⟩
    have := hbest T hT hd
    rw [value_weight, value_weight] at this
    exact neg_le_neg_iff.mp this

theorem worstOf_eq (h : book.WellFormed) (side : Side) (q : ℚ) :
    worstOf (ladder book side) q =
      lastOf (book.levels side) (take q (ladder book side)).length := by
  unfold worstOf lastOf
  rw [lastPrice_take (ladder_stocked h side), levels_eq_ladder h, ← List.map_take,
    List.getLast?_map, lastPrice, Option.map_map, Option.map_map]
  rfl

theorem exactFill_walked (h : book.WellFormed) (side : OrderSide) (hq : 0 < q) :
    Walked book side q (exactFill book side q) := by
  have hL := ladder_stocked h (consumedSide side)
  refine ⟨?_, ⟨_, rfl, bestNotional_take h side hq.le⟩, length_take_least hL hq.le,
    worstOf_eq h _ q, ?_⟩
  · rw [exactFill_filledQuantity, value_one hL hq.le]
  · simp only [exactFill, decide_eq_true_eq, value_one hL hq.le]
    constructor
    · intro hlt
      rcases min_lt_iff.mp hlt with hlt | hlt
      · exact absurd hlt (lt_irrefl q)
      · exact hlt
    · exact fun hlt => min_lt_iff.mpr (.inr hlt)

theorem depleted_left (h : book.WellFormed) (side : OrderSide) (hq : 0 < q) :
    Left book side q (depleted book side q) where
  other := fun _ hs => levels_setLevels_ne _ _ _ hs
  depth_eq := by rw [ladder_depleted, depth_leave (ladder_stocked h _) hq.le]
  wellFormed := (execute_exact h side hq).2

/-- A market order on a well-formed book: one fill from both entry points. -/
theorem walk_specified (h : book.WellFormed) (side : OrderSide) (hq : 0 < q) :
    ∃ fill left, simulateMarketOrder exact book side (.finite q) = .ok fill ∧
      executeMarketOrder exact book side (.finite q) = .ok fill left ∧
      Walked book side q fill ∧ Left book side q left ∧
      (∀ s, (left.levels s).Pairwise fun a b => Book.isBetter s a.price b.price = true) ∧
      ∀ s, ((left.levels s).map Level.price).Nodup := by
  have hleft := depleted_left h side hq
  exact ⟨_, _, simulate_exact h side hq, (execute_exact h side hq).1, exactFill_walked h side hq,
    hleft, hleft.wellFormed.ordered, hleft.wellFormed.nodup_prices⟩

/-- Two offers and a bid. -/
def smallBook : OrderBook :=
  OrderBook.run [.apply .ask (.finite 102) (.finite 4), .apply .ask (.finite 101) (.finite 3),
    .apply .bid (.finite 99) (.finite 5)]

theorem smallBook_wellFormed : smallBook.WellFormed := (run_refines _).wellFormed

/-- An order filled exactly at the end of the first offer. -/
theorem walk_specified_edge :
    ∃ fill left, simulateMarketOrder exact smallBook .buy (.finite 3) = .ok fill ∧
      executeMarketOrder exact smallBook .buy (.finite 3) = .ok fill left ∧
      Walked smallBook .buy 3 fill ∧ Left smallBook .buy 3 left :=
  have ⟨fill, left, hsim, hexec, hwalked, hleft, _⟩ :=
    walk_specified smallBook_wellFormed .buy (q := 3) (by simp)
  ⟨fill, left, hsim, hexec, hwalked, hleft⟩

/-! ## Averages and slippages -/

/-- Two prices, the first no worse for the trader. -/
def NoWorse (side : OrderSide) (a b : Double) : Prop :=
  ∃ x y, a = .finite x ∧ b = .finite y ∧ weight side x ≤ weight side y

theorem slippage_exact (side : OrderSide) {a r : ℚ} (hr : r ≠ 0) :
    slippageBps exact side (.finite a) (.finite r) =
      .finite ((weight side a - weight side r) / r * 10000) := by
  cases side with
  | buy => simp [slippageBps, Double.zero, hr, Double.div_exact hr, weight]
  | sell =>
    simp only [slippageBps, Double.isFinite_finite, Double.zero, Double.eq_finite, hr, weight,
      Double.sub_exact, Double.div_exact hr, Double.mul_exact]
    simp only [Bool.not_true, decide_false, Bool.or_self, Bool.false_eq_true, if_false]
    congr 3
    ring

section Slippage

variable {a r : ℚ} (hr : 0 < r)
include hr

theorem slippage_nonneg (h : weight side r ≤ weight side a) :
    0 ≤ (weight side a - weight side r) / r * 10000 := by
  have := div_nonneg (sub_nonneg.mpr h) hr.le
  linarith

theorem slippage_eq_zero :
    (weight side a - weight side r) / r * 10000 = 0 ↔ weight side a = weight side r := by
  simp [hr.ne', sub_eq_zero]

end Slippage

/-- The slippage of a worse price is larger. -/
theorem slippage_mono (side : OrderSide) {a b r : ℚ} (hr : 0 < r)
    (hab : weight side a ≤ weight side b) :
    (weight side a - weight side r) / r * 10000 ≤ (weight side b - weight side r) / r * 10000 := by
  have := div_le_div_of_nonneg_right (sub_le_sub_right hab (weight side r)) hr.le
  linarith

/-- The average of an order's fills. -/
def average (L : List (ℚ × ℚ)) (q : ℚ) : ℚ := value id (take q L) / depth (take q L)

theorem weight_average (side : OrderSide) (L : List (ℚ × ℚ)) (q : ℚ) :
    weight side (average L q) = value (weight side) (take q L) / depth (take q L) := by
  rw [average, weight_div, value_weight]

section Stocked

variable {p x : ℚ} {L : List (ℚ × ℚ)} (hL : Stocked ((p, x) :: L))
include hL

theorem taken_pos (hq : 0 < q) : 0 < depth (take q ((p, x) :: L)) := by
  have hx : 0 < x := hL.head
  have := depth_nonneg hL.tail
  rw [depth_take hL hq.le, depth_cons]
  exact lt_min hq (by linarith)

theorem weight_average_mono (side : OrderSide)
    (hf : ((p, x) :: L).Pairwise fun l m => weight side l.1 ≤ weight side m.1) (hq : 0 < q)
    (hqQ : q ≤ Q) :
    weight side (average ((p, x) :: L) q) ≤ weight side (average ((p, x) :: L) Q) := by
  rw [weight_average, weight_average,
    div_le_div_iff₀ (taken_pos hL hq) (taken_pos hL (hq.trans_le hqQ))]
  exact average_mono hL hf hq hqQ

/-- The average is at the touch or behind it, and at it when one level is touched. -/
theorem weight_average_touch (side : OrderSide)
    (hf : ((p, x) :: L).Pairwise fun l m => weight side l.1 < weight side m.1) (hq : 0 < q) :
    weight side p ≤ weight side (average ((p, x) :: L) q) ∧
      (weight side (average ((p, x) :: L) q) = weight side p ↔
        (take q ((p, x) :: L)).length = 1) := by
  have hx : 0 < x := hL.head
  have hpos := taken_pos hL hq
  obtain ⟨hhead, _⟩ := List.pairwise_cons.mp hf
  have hbound : ∀ t ∈ take q ((p, x) :: L), 0 ≤ t.2 ∧ weight side p ≤ weight side t.1 := by
    intro t ht
    obtain ⟨h0, l, hl, hlt, _⟩ := (take_within hL q).mem ht
    refine ⟨h0, ?_⟩
    rw [← hlt]
    rcases List.mem_cons.mp hl with rfl | hl
    · exact le_rfl
    · exact (hhead l hl).le
  rw [weight_average]
  constructor
  · rw [le_div_iff₀ hpos, ← value_const]
    exact value_mono hbound
  · constructor
    · intro heq
      by_contra hlen
      have hlt : weight side p * depth (take q ((p, x) :: L)) <
          value (weight side) (take q ((p, x) :: L)) := by
        by_cases hqx : q < x
        · rw [take_cons_lt hq hqx] at hlen
          exact absurd rfl hlen
        · have hqx := not_lt.mp hqx
          rw [take_cons_ge hx hqx] at hlen hbound ⊢
          cases L with
          | nil => exact absurd rfl hlen
          | cons m L =>
            rcases hqx.eq_or_lt with rfl | hmore
            · rw [sub_self, take_of_nonpos le_rfl] at hlen
              exact absurd rfl hlen
            · have hmore : 0 < q - x := sub_pos.mpr hmore
              have hm : 0 < m.2 := hL.tail.head
              have hmem : (m.1, min (q - x) m.2) ∈ (p, x) :: take (q - x) (m :: L) := by
                simp [take, hmore]
              exact value_strict hbound hmem (lt_min hmore hm) (hhead m List.mem_cons_self)
      rw [div_eq_iff hpos.ne'] at heq
      linarith
    · intro hlen
      have hone : take q ((p, x) :: L) = [(p, min q x)] := by
        simp only [take, if_pos hq, List.length_cons] at hlen ⊢
        have hnil : take (q - min q x) L = [] := List.eq_nil_of_length_eq_zero (by omega)
        rw [hnil]
      have hmin : min q x ≠ 0 := (lt_min hq hx).ne'
      rw [hone, value_cons, value_nil, depth_cons, depth_nil, add_zero, add_zero,
        mul_div_cancel_right₀ _ hmin]

end Stocked

theorem ladder_weights_lt (h : book.WellFormed) (side : OrderSide) :
    (ladder book (consumedSide side)).Pairwise fun l m => weight side l.1 < weight side m.1 := by
  refine (ladder_sorted h (consumedSide side)).imp ?_
  intro l m hlm
  cases side with
  | buy => exact hlm
  | sell => exact neg_lt_neg hlm

theorem ladder_front (h : book.WellFormed) {s : Side} (hne : book.levels s ≠ []) :
    ∃ p x L, ladder book s = (p, x) :: L ∧ 0 < p ∧ book.best s = some (toLevel (p, x)) := by
  have hlevels := levels_eq_ladder h s
  cases hL : ladder book s with
  | nil =>
    rw [hL] at hlevels
    exact absurd hlevels hne
  | cons l L =>
    rw [hL] at hlevels
    refine ⟨l.1, l.2, L, rfl, ?_, by rw [OrderBook.best, hlevels]; rfl⟩
    exact (h.valid s (toLevel l) (by rw [hlevels]; simp)).price_pos

theorem exactFill_average (hpos : 0 < depth (take q (ladder book (consumedSide side)))) :
    (exactFill book side q).averagePrice =
      .finite (average (ladder book (consumedSide side)) q) := by
  rw [depth_eq_value] at hpos
  simp only [exactFill, if_pos hpos, average, depth_eq_value]

/-- The bid and the offer of a book with both sides, and the mid between them. -/
theorem midAtEntry_exact (h : book.WellFormed) (hbids : book.levels .bid ≠ [])
    (hasks : book.levels .ask ≠ []) :
    ∃ bid ask x y B A, ladder book .bid = (bid, x) :: B ∧ ladder book .ask = (ask, y) :: A ∧
      midAtEntry exact book = .finite ((bid + ask) / 2) ∧ 0 < bid ∧ 0 < ask ∧
      (book.isCrossed = false → bid < ask) := by
  obtain ⟨bid, x, B, hB, hbid, hbest⟩ := ladder_front h hbids
  obtain ⟨ask, y, A, hA, hask, hoffer⟩ := ladder_front h hasks
  refine ⟨bid, ask, x, y, B, A, hB, hA, ?_, hbid, hask, ?_⟩
  · simp [midAtEntry, bestBid, bestAsk, hbest, hoffer, toLevel, Double.div_exact]
  · intro hcrossed
    by_contra hle
    have : book.isCrossed = true := by
      rw [OrderBook.isCrossed_iff]
      refine ⟨toLevel (bid, x), toLevel (ask, y), hbest, hoffer, ?_⟩
      simpa [toLevel] using not_lt.mp hle
    rw [hcrossed] at this
    cases this

theorem midAtEntry_nan (rnd : Rounding) (hempty : book.levels .bid = [] ∨ book.levels .ask = []) :
    midAtEntry rnd book = .nan := by
  unfold midAtEntry bestBid bestAsk OrderBook.best
  rcases hempty with hnil | hnil
  · rw [hnil]
    rfl
  · rw [hnil]
    cases (book.levels .bid).head? <;> rfl

section References

variable {a p x r : ℚ}

theorem slippageVsTouch_exact (hbest : book.best (consumedSide side) = some (toLevel (p, x)))
    (hp : 0 < p) (ha : (exactFill book side q).averagePrice = .finite a) :
    (exactFill book side q).slippageVsTouchBps =
      .finite ((weight side a - weight side p) / p * 10000) := by
  have htouch : touchAtEntry book side = .finite p := by
    rw [touchAtEntry, hbest]
    rfl
  show slippageBps exact side (exactFill book side q).averagePrice (touchAtEntry book side) = _
  rw [ha, htouch, slippage_exact side hp.ne']

theorem slippageVsMid_exact (hmid : midAtEntry exact book = .finite r) (hr : 0 < r)
    (ha : (exactFill book side q).averagePrice = .finite a) :
    (exactFill book side q).slippageVsMidBps =
      .finite ((weight side a - weight side r) / r * 10000) := by
  show slippageBps exact side (exactFill book side q).averagePrice (midAtEntry exact book) = _
  rw [ha, hmid, slippage_exact side hr.ne']

theorem slippageVsMid_nan (hmid : midAtEntry exact book = .nan) :
    (exactFill book side q).slippageVsMidBps = .nan := by
  show slippageBps exact side (exactFill book side q).averagePrice (midAtEntry exact book) = _
  rw [hmid]
  rfl

end References

/-- Orders of `q` and `Q ≥ q` on one book. -/
theorem static_cost_mono (h : book.WellFormed) (side : OrderSide)
    (hne : book.levels (consumedSide side) ≠ []) (hq : 0 < q) (hqQ : q ≤ Q) :
    ∃ small large, simulateMarketOrder exact book side (.finite q) = .ok small ∧
      simulateMarketOrder exact book side (.finite Q) = .ok large ∧
      NoWorse side small.averagePrice large.averagePrice ∧
      (∃ x y, small.slippageVsTouchBps = .finite x ∧ large.slippageVsTouchBps = .finite y ∧
        x ≤ y ∧ 0 ≤ x ∧ (x = 0 ↔ small.levelsConsumed = 1)) ∧
      ((∀ s, book.levels s ≠ []) →
        ∃ x y, small.slippageVsMidBps = .finite x ∧ large.slippageVsMidBps = .finite y ∧
          x ≤ y ∧ (book.isCrossed = false → 0 ≤ x)) ∧
      ((∃ s, book.levels s = []) → small.slippageVsMidBps = .nan ∧ large.slippageVsMidBps = .nan) :=
    by
  have hQ := hq.trans_le hqQ
  have hstocked := ladder_stocked h (consumedSide side)
  have hstrict := ladder_weights_lt h side
  obtain ⟨p, x, L, hL, hp, hbest⟩ := ladder_front h hne
  rw [hL] at hstocked hstrict
  have haverage : ∀ {s}, 0 < s →
      (exactFill book side s).averagePrice = .finite (average ((p, x) :: L) s) := by
    intro s hs
    rw [exactFill_average (by rw [hL]; exact taken_pos hstocked hs), hL]
  have hsmall := haverage hq
  have hlarge := haverage hQ
  have hmono := weight_average_mono hstocked side (hstrict.imp le_of_lt) hq hqQ
  obtain ⟨htouch, hstays⟩ := weight_average_touch hstocked side hstrict hq
  refine ⟨_, _, simulate_exact h side hq, simulate_exact h side hQ,
    ⟨_, _, hsmall, hlarge, hmono⟩, ?_, ?_, ?_⟩
  · refine ⟨_, _, slippageVsTouch_exact hbest hp hsmall, slippageVsTouch_exact hbest hp hlarge,
      slippage_mono side hp hmono, slippage_nonneg hp htouch, ?_⟩
    rw [slippage_eq_zero hp, hstays, ← hL]
    rfl
  · intro hboth
    obtain ⟨bid, ask, x', y', B, A, hB, hA, hmid, hbid, hask, hopen⟩ :=
      midAtEntry_exact h (hboth .bid) (hboth .ask)
    have hpos : 0 < (bid + ask) / 2 := by linarith
    refine ⟨_, _, slippageVsMid_exact hmid hpos hsmall, slippageVsMid_exact hmid hpos hlarge,
      slippage_mono side hpos hmono, ?_⟩
    intro hcrossed
    have hlt := hopen hcrossed
    refine slippage_nonneg hpos (le_trans ?_ htouch)
    cases side with
    | buy =>
      obtain rfl : ask = p := by
        have := hA.symm.trans hL
        simpa using congrArg Prod.fst (List.cons.inj this).1
      show (bid + ask) / 2 ≤ ask
      linarith
    | sell =>
      obtain rfl : bid = p := by
        have := hB.symm.trans hL
        simpa using congrArg Prod.fst (List.cons.inj this).1
      show -((bid + ask) / 2) ≤ -bid
      linarith
  · rintro ⟨s, hs⟩
    have hmid : midAtEntry exact book = .nan := by
      refine midAtEntry_nan exact ?_
      cases s with
      | bid => exact .inl hs
      | ask => exact .inr hs
    exact ⟨slippageVsMid_nan hmid, slippageVsMid_nan hmid⟩

/-- Five units stay at the first offer of three and reach the second; three do not. -/
theorem static_cost_mono_smallBook :
    ∃ small large, simulateMarketOrder exact smallBook .buy (.finite 3) = .ok small ∧
      simulateMarketOrder exact smallBook .buy (.finite 5) = .ok large ∧
      NoWorse .buy small.averagePrice large.averagePrice :=
  have ⟨small, large, hsmall, hlarge, hworse, _⟩ := static_cost_mono smallBook_wellFormed .buy
    (q := 3) (by decide +kernel) (by simp) (by norm_num : (3 : ℚ) ≤ 5)
  ⟨small, large, hsmall, hlarge, hworse⟩

end Impact
end PerpCarry
