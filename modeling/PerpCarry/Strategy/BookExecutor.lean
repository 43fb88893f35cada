import PerpCarry.Impact.StaticCost
import PerpCarry.Strategy.InferredExecutor

/-!
# Strategy.BookExecutor

Fills walked against copied book checkpoints: `BookExecutor` of
`python/perpcarry/strategy/execution.py`, over exact rationals.

Each leg asks the provider for the checkpoint of its market, walks the order against it without
touching it, and takes the average price if the walk was complete and trustworthy.

* `BookLeg`, `bookFill_ok`: what an accepted leg says of the book it was walked against.
* `book_trade`: a booked trade, both of its legs and what they cost.
-/

namespace PerpCarry
namespace Strategy

open Impact (OrderSide consumedSide ladder simulateMarketOrder BestNotional kValidatedDepth weight)
open Lib (depth take)

/-- A copied checkpoint: a book is only ever changed by updates, so it is well formed. -/
structure BookSnapshot where
  symbol : String
  timeMs : Int
  book : OrderBook
  wellFormed : book.WellFormed

/-- `BookExecutor.provider`: the checkpoint of a market at a time. -/
abbrev Provider := Int → Market → Except Raised BookSnapshot

/-- `math.isclose(a, b, rel_tol=..., abs_tol=0)`. -/
def isClose (relTol : ℚ) : Double → Double → Bool
  | .finite a, .finite b => decide (|a - b| ≤ relTol * max |a| |b|)
  | .infinity s, .infinity t => s == t
  | _, _ => false

/-- `Decimal(str(value))`. -/
def toDecimal : Double → Decimal ℚ
  | .finite q => .finite q
  | .infinity negative => .infinity negative
  | .nan => .nan

/-- The Python exception an exception of the core arrives as. -/
def fromCore {α : Type} : Except Error α → Except Raised α
  | .ok a => .ok a
  | .error (.invalidArgument what) => .error ⟨.valueError, what⟩
  | .error (.bookReplayError what) => .error ⟨.valueError, what⟩
  | .error (.validationError what) => .error ⟨.valueError, what⟩

def MarketEvent.mid (event : MarketEvent ℚ) : Market → Decimal ℚ
  | .spot => event.spotMid
  | .perp => event.perpMid

/-- The sign of a leg: an opening trade buys spot and sells perp. -/
def legSign (opening : Bool) : Market → ℚ
  | .spot => if opening then 1 else -1
  | .perp => if opening then -1 else 1

def sideOf (sign : ℚ) : OrderSide := if 0 < sign then .buy else .sell

/-- The tests of a walk: it filled the order, on an uncrossed book within the validated levels, and
its mid is the one the decision was made at. -/
def Rejected (result : Impact.Fill) (quantity : ℚ) (mid : Decimal ℚ) : Prop :=
  result.exhaustedBook = true ∨ result.crossedAtEntry = true ∨
    result.beyondValidatedDepth = true ∨
    isClose (1 / 1000000000000) result.filledQuantity (.finite quantity) = false ∨
    toDecimal result.midAtEntry ≠ mid

instance (result : Impact.Fill) (quantity : ℚ) (mid : Decimal ℚ) :
    Decidable (Rejected result quantity mid) := by
  unfold Rejected; infer_instance

/-- One pass of the loop of `BookExecutor.fills`. -/
def bookFill (provider : Provider) (event : MarketEvent ℚ) (quantity : ℚ) (opening : Bool)
    (market : Market) : Except Raised (Fill ℚ) := do
  let sign := legSign opening market
  let snapshot ← provider event.timeMs market
  raiseWhen (snapshot.symbol ≠ event.marks.symbol ∨ snapshot.timeMs ≠ event.timeMs)
    .executionUnavailable "Book checkpoint time/symbol does not match execution"
  let result ← fromCore
    (simulateMarketOrder exact snapshot.book (sideOf sign) (.finite quantity))
  raiseWhen (Rejected result quantity (event.mid market)) .executionUnavailable
    "Invalid, partial or unvalidated book execution"
  return {
    eventId := event.eventId ++ ":" ++ market.name
    symbol := event.marks.symbol
    timeMs := event.timeMs
    market
    quantity := .finite (sign * quantity)
    price := toDecimal result.averagePrice
    referenceMid := event.mid market }

/-- `BookExecutor.fills`. -/
def bookFills (provider : Provider) (event : MarketEvent ℚ) (quantity : ℚ) (opening : Bool) :
    Except Raised (List (Fill ℚ)) :=
  [Market.spot, Market.perp].mapM (bookFill provider event quantity opening)

/-- `BookExecutor(provider)`. -/
def bookExecutor (provider : Provider) : Executor ℚ Unit where
  mode := .book
  fills _ event quantity opening := (bookFills provider event quantity opening).map (·, ())

/-! ## One leg -/

/-- What an accepted leg of `quantity` at `price` says of the checkpoint it was walked against. -/
structure BookLeg (provider : Provider) (event : MarketEvent ℚ) (market : Market)
    (side : OrderSide) (quantity price mid : ℚ) : Prop where
  checkpoint : ∃ snapshot, provider event.timeMs market = .ok snapshot ∧
    snapshot.symbol = event.marks.symbol ∧ snapshot.timeMs = event.timeMs ∧
    (∃ bid ask, (snapshot.book.best .bid).map Level.price = some (.finite bid) ∧
      (snapshot.book.best .ask).map Level.price = some (.finite ask) ∧ bid < ask ∧
      mid = (bid + ask) / 2) ∧
    quantity ≤ depth ((ladder snapshot.book (consumedSide side)).take kValidatedDepth) ∧
    BestNotional side (ladder snapshot.book (consumedSide side)) quantity (quantity * price)
  positive : 0 < quantity
  mid_eq : event.mid market = .finite mid
  adverse : weight side mid < weight side price

section Walks

variable {book : OrderBook} {side : OrderSide} {q : ℚ}

open Impact OrderBook Lib

/-- A missing side leaves no mid to agree with. -/
theorem sides_of_mid {m : ℚ} (h : toDecimal (midAtEntry exact book) = .finite m) :
    book.levels .bid ≠ [] ∧ book.levels .ask ≠ [] := by
  by_contra hempty
  have hnan : midAtEntry exact book = .nan := midAtEntry_nan exact (by grind)
  rw [hnan] at h
  cases h

/-- An uncrossed book with both sides: the mid lies before the touch of either. -/
theorem mid_before_touch (h : book.WellFormed) (hsides : book.levels .bid ≠ [] ∧
    book.levels .ask ≠ []) (hcrossed : book.isCrossed = false) (side : OrderSide) :
    ∃ bid ask p z L, (book.best .bid).map Level.price = some (.finite bid) ∧
      (book.best .ask).map Level.price = some (.finite ask) ∧ bid < ask ∧
      midAtEntry exact book = .finite ((bid + ask) / 2) ∧
      ladder book (consumedSide side) = (p, z) :: L ∧
      weight side ((bid + ask) / 2) < weight side p := by
  obtain ⟨bid, ask, x, y, B, A, hB, hA, hmid, _, _, huncrossed⟩ :=
    midAtEntry_exact h hsides.1 hsides.2
  have hlt := huncrossed hcrossed
  have hbid : (book.best .bid).map Level.price = some (.finite bid) := by
    rw [OrderBook.best, levels_eq_ladder h, hB]
    rfl
  have hask : (book.best .ask).map Level.price = some (.finite ask) := by
    rw [OrderBook.best, levels_eq_ladder h, hA]
    rfl
  cases side with
  | buy =>
    refine ⟨bid, ask, ask, y, A, hbid, hask, hlt, hmid, hA, ?_⟩
    show (bid + ask) / 2 < ask
    linarith
  | sell =>
    refine ⟨bid, ask, bid, x, B, hbid, hask, hlt, hmid, hB, ?_⟩
    show -((bid + ask) / 2) < -bid
    linarith

/-- A fill that passed the tests, in terms of the levels of the book. -/
theorem accepted_walk (h : book.WellFormed) (hq : 0 < q) {mid : ℚ}
    (hok : ¬ Rejected (exactFill book side q) q (.finite mid)) :
    ∃ price bid ask, (exactFill book side q).averagePrice = .finite price ∧
      (book.best .bid).map Level.price = some (.finite bid) ∧
      (book.best .ask).map Level.price = some (.finite ask) ∧ bid < ask ∧
      mid = (bid + ask) / 2 ∧
      q ≤ depth ((ladder book (consumedSide side)).take kValidatedDepth) ∧
      BestNotional side (ladder book (consumedSide side)) q (q * price) ∧
      weight side mid < weight side price := by
  unfold Rejected at hok
  simp only [not_or, Bool.not_eq_true, Decidable.not_not] at hok
  obtain ⟨hexhausted, hcrossed, hvalidated, _, hmid⟩ := hok
  obtain ⟨bid, ask, p, z, L, hbid, hask, hlt, hm, hL, hfront⟩ :=
    mid_before_touch h (sides_of_mid hmid) hcrossed side
  have hmidEq : mid = (bid + ask) / 2 := by
    rw [show (exactFill book side q).midAtEntry = midAtEntry exact book from rfl, hm] at hmid
    cases hmid
    rfl
  have hwalked := exactFill_walked h side hq
  have hdepth : q ≤ depth (ladder book (consumedSide side)) := by
    by_contra hless
    rw [hwalked.exhausted.mpr (not_le.mp hless)] at hexhausted
    cases hexhausted
  have hmin : min q (depth (ladder book (consumedSide side))) = q := min_eq_left hdepth
  have hstocked := ladder_stocked h (consumedSide side)
  have hfilled : depth (take q (ladder book (consumedSide side))) = q := by
    rw [depth_take hstocked hq.le, hmin]
  refine ⟨average (ladder book (consumedSide side)) q, bid, ask,
    exactFill_average (by rw [hfilled]; exact hq), hbid, hask, hlt, hmidEq, ?_, ?_, ?_⟩
  · -- the least number of levels that hold the order is one of the validated
    have hleast := hwalked.levels.1
    rw [Set.mem_ofPred_eq, hmin] at hleast
    have hle : (exactFill book side q).levelsConsumed ≤ kValidatedDepth := by
      by_contra hmore
      have : (exactFill book side q).beyondValidatedDepth = true := by
        simpa [exactFill] using not_le.mp hmore
      rw [this] at hvalidated
      cases hvalidated
    exact hleast.trans (depth_take_mono hstocked hle)
  · obtain ⟨c, hc, hbest⟩ := hwalked.notional
    rw [hmin] at hbest
    have hvalue : c = q * average (ladder book (consumedSide side)) q := by
      rw [exactFill_notional] at hc
      cases hc
      rw [average, hfilled, mul_div_cancel₀ _ hq.ne']
    rw [← hvalue]
    exact hbest
  · rw [hmidEq]
    refine hfront.trans_le ?_
    have hweights := ladder_weights_lt h side
    rw [hL] at hstocked hweights ⊢
    exact (weight_average_touch hstocked side hweights hq).1

theorem simulated_pos {fill : Impact.Fill}
    (h : simulateMarketOrder exact book side (.finite q) = .ok fill) : 0 < q := by
  unfold simulateMarketOrder walk at h
  by_contra hq
  rw [if_pos (by simp [Double.zero, not_lt.mp hq])] at h
  cases h

end Walks

section Legs

variable {provider : Provider} {e : MarketEvent ℚ} {quantity : ℚ} {opening : Bool}

theorem fromCore_ok {α : Type} {x : Except Error α} {a : α} :
    fromCore x = .ok a ↔ x = .ok a := by
  cases x with
  | ok b => simp [fromCore]
  | error err => cases err <;> simp [fromCore]

theorem bookFill_mid {market : Market} {fill : Fill ℚ}
    (h : bookFill provider e quantity opening market = .ok fill) :
    fill.referenceMid = e.mid market := by
  unfold bookFill at h
  simp only [bind_ok, pure_ok] at h
  obtain ⟨_, _, _, _, _, _, _, _, rfl⟩ := h
  rfl

theorem bookFill_ok {market : Market} {fill : Fill ℚ} {mid : ℚ}
    (h : bookFill provider e quantity opening market = .ok fill)
    (hmid : e.mid market = .finite mid) :
    ∃ price, fill.market = market ∧ fill.quantity = .finite (legSign opening market * quantity) ∧
      fill.price = .finite price ∧ fill.referenceMid = .finite mid ∧
      BookLeg provider e market (sideOf (legSign opening market)) quantity price mid := by
  unfold bookFill at h
  simp only [bind_ok, raiseWhen_ok, pure_ok, not_or, Decidable.not_not, fromCore_ok] at h
  obtain ⟨snapshot, hsnapshot, _, ⟨hsymbol, htime⟩, result, hresult, _, haccepted, rfl⟩ := h
  have hq := simulated_pos hresult
  rw [Impact.simulate_exact snapshot.wellFormed _ hq] at hresult
  cases hresult
  rw [hmid] at haccepted
  obtain ⟨price, bid, ask, hprice, hbid, hask, hlt, hm, hdepth, hbest, hadverse⟩ :=
    accepted_walk snapshot.wellFormed hq haccepted
  refine ⟨price, rfl, rfl, ?_, hmid,
    ⟨snapshot, hsnapshot, hsymbol, htime, ⟨bid, ask, hbid, hask, hlt, hm⟩, hdepth, hbest⟩, hq,
    hmid, hadverse⟩
  show toDecimal _ = _
  rw [hprice]
  rfl

theorem bookFills_ok {fills : List (Fill ℚ)}
    (h : bookFills provider e quantity opening = .ok fills) :
    ∃ spot perp, bookFill provider e quantity opening .spot = .ok spot ∧
      bookFill provider e quantity opening .perp = .ok perp ∧ fills = [spot, perp] := by
  have hlegs := Lib.mapM_ok_iff.mp h
  obtain ⟨spot, rest, hspot, hrest, rfl⟩ := List.forall₂_cons_left_iff.mp hlegs
  obtain ⟨perp, rest', hperp, hnil, rfl⟩ := List.forall₂_cons_left_iff.mp hrest
  obtain rfl := List.forall₂_nil_left_iff.mp hnil
  exact ⟨spot, perp, hspot, hperp, rfl⟩

end Legs

end Strategy
end PerpCarry
