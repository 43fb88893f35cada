import PerpCarry.Book.WellFormed
import PerpCarry.Impact.MarketOrder
import PerpCarry.Lib.Ladder

/-!
# Impact.ExactWalk

The market-order walk over exact rationals is greedy consumption of a ladder.

* `walkLevels_exact`: the loop of `walk` computes `Lib.take`.
* `deplete_rests`: applying what the walk left of each level, best first, leaves `Lib.leave`.
* `simulate_exact`, `execute_exact`: the two entry points on a well-formed book.
-/

namespace PerpCarry
namespace Impact

open Lib OrderBook

def toLevel (l : ℚ × ℚ) : Level := ⟨.finite l.1, .finite l.2⟩

def ladder (book : OrderBook) (side : Side) : List (ℚ × ℚ) :=
  (book.levels side).map fun l => (l.price.value, l.quantity.value)

section Ladder

variable {book : OrderBook} (h : book.WellFormed) (side : Side)
include h

theorem levels_eq_ladder : book.levels side = (ladder book side).map toLevel := by
  rw [ladder, List.map_map]
  symm
  refine (List.map_congr_left fun l hl => ?_).trans (List.map_id _)
  obtain ⟨p, q, rfl, _, _⟩ := (h.valid side l hl).exists
  rfl

theorem ladder_stocked : Stocked (ladder book side) := by
  intro l hl
  obtain ⟨m, hm, rfl⟩ := List.mem_map.mp hl
  exact (h.valid side m hm).quantity_pos

theorem ladder_sorted : (ladder book side).Pairwise fun l m => Book.Better side l.1 m.1 :=
  List.pairwise_map.mpr (h.sorted side)

end Ladder

/-! ## The loop -/

/-- What the walk left of each level it touched. -/
def rests (q : ℚ) : List (ℚ × ℚ) → List (ℚ × ℚ)
  | [] => []
  | (p, x) :: L => if 0 < q then (p, x - min q x) :: rests (q - min q x) L else []

theorem rests_of_nonpos {q : ℚ} (h : q ≤ 0) (L : List (ℚ × ℚ)) : rests q L = [] := by
  cases L with
  | nil => rfl
  | cons l L => exact if_neg (not_lt.mpr h)

theorem touch_exact {q c f p x : ℚ} {worst : Double} {n : Nat} {consumed : List Level} :
    Walk.touch exact ⟨.finite q, .finite c, .finite f, worst, n, consumed⟩ (toLevel (p, x)) =
      ⟨.finite (q - min q x), .finite (c + min q x * p), .finite (f + min q x), .finite p, n + 1,
        consumed ++ [toLevel (p, x - min q x)]⟩ := by
  by_cases hqx : q < x
  · simp [Walk.touch, toLevel, hqx, min_eq_left hqx.le]
  · simp [Walk.touch, toLevel, hqx, min_eq_right (not_lt.mp hqx)]

theorem walkLevels_exact (L : List (ℚ × ℚ)) (q c f : ℚ) (worst : Double) (n : Nat)
    (consumed : List Level) :
    walkLevels exact (L.map toLevel) ⟨.finite q, .finite c, .finite f, worst, n, consumed⟩ =
      ⟨.finite (q - value (fun _ => 1) (take q L)), .finite (c + value id (take q L)),
        .finite (f + value (fun _ => 1) (take q L)),
        ((lastPrice (take q L)).map Double.finite).getD worst, n + (take q L).length,
        consumed ++ (rests q L).map toLevel⟩ := by
  induction L generalizing q c f worst n consumed with
  | nil => simp [walkLevels, rests, lastPrice]
  | cons l L ih =>
    obtain ⟨p, x⟩ := l
    by_cases hq : 0 < q
    · simp only [List.map_cons, walkLevels, touch_exact]
      rw [if_neg (by simp [Double.zero, hq]), ih]
      simp only [take, rests, if_pos hq, value_cons, lastPrice_cons, List.length_cons,
        List.map_cons, List.append_assoc, List.singleton_append, id, one_mul]
      congr 1
      · ring_nf
      · ring_nf
      · ring_nf
      · cases lastPrice (take (q - min q x) L) <;> rfl
      · omega
    · simp only [List.map_cons, walkLevels]
      rw [if_pos (by simpa [Double.zero] using hq)]
      simp [take, rests, if_neg hq, lastPrice]

/-! ## The fill -/

/-- The worst price of an order of size `q`. -/
def worstOf (L : List (ℚ × ℚ)) (q : ℚ) : Double := ((lastPrice (take q L)).map Double.finite).getD .nan

/-- The fill of an order of size `q` over exact rationals. -/
def exactFill (book : OrderBook) (side : OrderSide) (q : ℚ) : Fill :=
  let fills := take q (ladder book (consumedSide side))
  let filled := value (fun _ => 1) fills
  let averagePrice : Double := if 0 < filled then .finite (value id fills / filled) else .nan
  { requestedQuantity := .finite q
    filledQuantity := .finite filled
    notional := .finite (value id fills)
    averagePrice
    worstPrice := worstOf (ladder book (consumedSide side)) q
    midAtEntry := midAtEntry exact book
    touchAtEntry := touchAtEntry book side
    slippageVsMidBps := slippageBps exact side averagePrice (midAtEntry exact book)
    slippageVsTouchBps := slippageBps exact side averagePrice (touchAtEntry book side)
    levelsConsumed := fills.length
    exhaustedBook := decide (filled < q)
    beyondValidatedDepth := decide (kValidatedDepth < fills.length)
    crossedAtEntry := book.isCrossed }

section Fields

variable (book : OrderBook) (side : OrderSide) (q : ℚ)

@[simp] theorem exactFill_filledQuantity : (exactFill book side q).filledQuantity =
    .finite (value (fun _ => 1) (take q (ladder book (consumedSide side)))) := rfl

@[simp] theorem exactFill_notional : (exactFill book side q).notional =
    .finite (value id (take q (ladder book (consumedSide side)))) := rfl

@[simp] theorem exactFill_worstPrice : (exactFill book side q).worstPrice =
    worstOf (ladder book (consumedSide side)) q := rfl

end Fields

theorem lastPrice_isSome {fills : List (ℚ × ℚ)} (hf : 0 < value (fun _ => 1) fills) :
    ∃ p, lastPrice fills = some p := by
  cases fills with
  | nil => simp at hf
  | cons t ts =>
    rw [lastPrice_cons]
    cases lastPrice ts with
    | none => exact ⟨t.1, rfl⟩
    | some p => exact ⟨p, rfl⟩

theorem lastPrice_eq_none {L : List (ℚ × ℚ)} {q : ℚ} (hL : Stocked L)
    (hf : ¬ 0 < value (fun _ => 1) (take q L)) : lastPrice (take q L) = none := by
  cases L with
  | nil => rfl
  | cons l L =>
    rcases le_or_gt q 0 with hq | hq
    · rw [take_of_nonpos hq]
      rfl
    · refine absurd ?_ hf
      have hD : 0 < depth (l :: L) := by
        rw [depth_cons]
        have := hL.head
        have := depth_nonneg hL.tail
        linarith
      rw [value_one hL hq.le]
      exact lt_min hq hD

variable {book : OrderBook} {q : ℚ}

theorem walk_exact (h : book.WellFormed) (side : OrderSide) (hq : 0 < q) :
    walk exact book side (.finite q) =
      .ok (exactFill book side q, (rests q (ladder book (consumedSide side))).map toLevel) := by
  unfold walk
  rw [if_neg (by simp [Double.zero, hq]), levels_eq_ladder h,
    show ({ remaining := .finite q } : Walk) = ⟨.finite q, .finite 0, .finite 0, .finite 0, 0, []⟩
      from rfl, walkLevels_exact]
  have hL := ladder_stocked h (consumedSide side)
  by_cases hf : 0 < value (fun _ => 1) (take q (ladder book (consumedSide side)))
  · obtain ⟨p, hp⟩ := lastPrice_isSome hf
    simp [exactFill, worstOf, Double.zero, hf, hp, Double.div_exact hf.ne']
  · simp [exactFill, worstOf, Double.zero, hf, lastPrice_eq_none hL hf]

theorem simulate_exact (h : book.WellFormed) (side : OrderSide) (hq : 0 < q) :
    simulateMarketOrder exact book side (.finite q) = .ok (exactFill book side q) := by
  unfold simulateMarketOrder
  rw [walk_exact h side hq]
  rfl

/-! ## The book left behind -/

/-- The book once an order of size `q` has been taken out of it. -/
def depleted (book : OrderBook) (side : OrderSide) (q : ℚ) : OrderBook :=
  book.setLevels (consumedSide side) ((leave q (ladder book (consumedSide side))).map toLevel)

theorem deplete_rests (h : book.WellFormed) {side : Side} {L : List (ℚ × ℚ)} (hq : 0 ≤ q)
    (hL : Stocked L) (hlevels : book.levels side = L.map toLevel) :
    ∃ book', deplete book side ((rests q L).map toLevel) = .ok () book' ∧ book'.WellFormed ∧
      book' = book.setLevels side ((leave q L).map toLevel) := by
  induction L generalizing book q with
  | nil =>
    refine ⟨book, rfl, h, ?_⟩
    show book = book.setLevels side (List.map toLevel [])
    rw [← hlevels, setLevels_levels]
  | cons l L ih =>
    obtain ⟨p, x⟩ := l
    have hx : 0 < x := hL.head
    have hp : 0 < p := (h.valid side (toLevel (p, x)) (by rw [hlevels]; simp)).price_pos
    rcases hq.eq_or_lt with rfl | hpos
    · rw [rests_of_nonpos le_rfl, leave_zero hL, ← hlevels, setLevels_levels]
      exact ⟨book, rfl, h, rfl⟩
    · have hrest : 0 ≤ x - min q x := sub_nonneg.mpr (min_le_right q x)
      have ha : Book.Acceptable (toLevel (p, x)).price (.finite (x - min q x)) := ⟨rfl, hp, rfl, hrest⟩
      have hbest : book.levels side = [] ++ toLevel (p, x) :: L.map toLevel := hlevels
      have happly := apply_at h hbest ha
      obtain ⟨book₁, hbook₁, hwf, _⟩ := apply_ok h side ha
      rw [happly] at hbook₁
      cases hbook₁
      have hstep : book.apply side (toLevel (p, x - min q x)).price
          (toLevel (p, x - min q x)).quantity = .ok () (book.setLevels side
            (entry (toLevel (p, x)).price (.finite (x - min q x)) ++ L.map toLevel)) := happly
      simp only [rests, if_pos hpos, List.map_cons, deplete, hstep]
      by_cases hqx : q < x
      · have hne : (Double.finite (x - min q x)) ≠ .zero := by
          simp [Double.zero, min_eq_left hqx.le, sub_ne_zero.mpr hqx.ne']
        rw [min_eq_left hqx.le] at hne hwf ⊢
        rw [sub_self, rests_of_nonpos le_rfl, leave_cons_lt hqx]
        refine ⟨_, rfl, hwf, ?_⟩
        simp [entry, hne, toLevel]
      · have hqx := not_lt.mp hqx
        rw [min_eq_right hqx, sub_self] at hwf ⊢
        have hentry : entry (toLevel (p, x)).price (.finite 0) = [] := if_pos rfl
        rw [hentry, List.nil_append] at hwf ⊢
        obtain ⟨book', hd, hwf', heq⟩ := ih (q := q - x) hwf (by linarith) hL.tail (by simp)
        exact ⟨book', hd, hwf', by rw [heq, leave_cons_ge hqx, setLevels_setLevels]⟩

theorem execute_exact (h : book.WellFormed) (side : OrderSide) (hq : 0 < q) :
    executeMarketOrder exact book side (.finite q) =
        .ok (exactFill book side q) (depleted book side q) ∧
      (depleted book side q).WellFormed := by
  obtain ⟨book', hd, hwf, heq⟩ := deplete_rests h hq.le (ladder_stocked h (consumedSide side))
    (levels_eq_ladder h (consumedSide side))
  unfold executeMarketOrder
  rw [walk_exact h side hq]
  simp only [hd]
  rw [heq] at hwf ⊢
  exact ⟨rfl, hwf⟩

@[simp] theorem ladder_depleted (side : OrderSide) :
    ladder (depleted book side q) (consumedSide side) =
      leave q (ladder book (consumedSide side)) := by
  rw [ladder, depleted, levels_setLevels, List.map_map]
  exact List.map_id _

theorem depleted_zero (h : book.WellFormed) (side : OrderSide) : depleted book side 0 = book := by
  rw [depleted, leave_zero (ladder_stocked h _), ← levels_eq_ladder h, setLevels_levels]

/-- An order of `a` and one of `b` leave what one of `a + b` leaves. -/
theorem depleted_depleted (h : book.WellFormed) (side : OrderSide) {a b : ℚ} (ha : 0 ≤ a)
    (hb : 0 ≤ b) : depleted (depleted book side a) side b = depleted book side (a + b) := by
  rw [depleted, ladder_depleted, leave_leave (ladder_stocked h _) ha hb, depleted, setLevels_setLevels]
  rfl

end Impact
end PerpCarry
