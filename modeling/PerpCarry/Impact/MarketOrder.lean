import PerpCarry.Book.OrderBook

/-!
# Impact.MarketOrder

A market order walked against the book: `walk`, `simulate_market_order` and `execute_market_order`
of `cpp/src/impact_simulator.cpp`.
-/

namespace PerpCarry
namespace Impact

inductive OrderSide where
  | buy
  | sell
  deriving DecidableEq

/-- Levels the vendor reference constrains. Not a limit on the walk. -/
def kValidatedDepth : Nat := 25

structure Fill where
  requestedQuantity : Double := .zero
  filledQuantity : Double := .zero
  notional : Double := .zero
  averagePrice : Double := .zero
  worstPrice : Double := .zero
  midAtEntry : Double := .zero
  touchAtEntry : Double := .zero
  slippageVsMidBps : Double := .zero
  slippageVsTouchBps : Double := .zero
  levelsConsumed : Nat := 0
  exhaustedBook : Bool := false
  beyondValidatedDepth : Bool := false
  crossedAtEntry : Bool := false
  deriving DecidableEq

/-- A buy lifts the offers; a sell hits the bids. -/
def consumedSide : OrderSide → Side
  | .buy => .ask
  | .sell => .bid

def slippageBps (rnd : Rounding) (side : OrderSide) (averagePrice reference : Double) : Double :=
  if !reference.isFinite || reference.eq .zero || !averagePrice.isFinite then .nan
  else
    let cost :=
      match side with
      | .buy => averagePrice.sub rnd reference
      | .sell => reference.sub rnd averagePrice
    (cost.div rnd reference).mul rnd (.finite 10000)

/-- The variables of the loop over the levels. -/
structure Walk where
  remaining : Double
  notional : Double := .zero
  filledQuantity : Double := .zero
  worstPrice : Double := .zero
  levelsConsumed : Nat := 0
  consumed : List Level := []
  deriving DecidableEq

/-- One pass of the loop body. -/
def Walk.touch (rnd : Rounding) (w : Walk) (level : Level) : Walk :=
  let taken := if w.remaining.lt level.quantity then w.remaining else level.quantity
  { remaining := w.remaining.sub rnd taken
    notional := w.notional.add rnd (taken.mul rnd level.price)
    filledQuantity := w.filledQuantity.add rnd taken
    worstPrice := level.price
    levelsConsumed := w.levelsConsumed + 1
    consumed := w.consumed ++ [⟨level.price, level.quantity.sub rnd taken⟩] }

def walkLevels (rnd : Rounding) : List Level → Walk → Walk
  | [], w => w
  | level :: levels, w =>
    if w.remaining.le .zero then w else walkLevels rnd levels (w.touch rnd level)

def badQuantity (quantity : Double) : Error :=
  .invalidArgument ("order quantity must be finite and positive, got " ++ quantity.toString)

def midAtEntry (rnd : Rounding) (book : OrderBook) : Double :=
  match book.bestBid, book.bestAsk with
  | some bid, some ask => (bid.price.add rnd ask.price).div rnd (.finite 2)
  | _, _ => .nan

def touchAtEntry (book : OrderBook) (side : OrderSide) : Double :=
  match book.best (consumedSide side) with
  | some touch => touch.price
  | none => .nan

/-- The fill, and the levels it touched with what is left at each. -/
def walk (rnd : Rounding) (book : OrderBook) (side : OrderSide) (quantity : Double) :
    Except Error (Fill × List Level) :=
  if !quantity.isFinite || quantity.le .zero then .error (badQuantity quantity)
  else
    let w := walkLevels rnd (book.levels (consumedSide side)) { remaining := quantity }
    let filled := Double.zero.lt w.filledQuantity
    let averagePrice := if filled then w.notional.div rnd w.filledQuantity else .nan
    let worstPrice := if filled then w.worstPrice else .nan
    let mid := midAtEntry rnd book
    let touch := touchAtEntry book side
    .ok ({
      requestedQuantity := quantity
      filledQuantity := w.filledQuantity
      notional := w.notional
      averagePrice
      worstPrice
      midAtEntry := mid
      touchAtEntry := touch
      slippageVsMidBps := slippageBps rnd side averagePrice mid
      slippageVsTouchBps := slippageBps rnd side averagePrice touch
      levelsConsumed := w.levelsConsumed
      exhaustedBook := Double.zero.lt w.remaining
      beyondValidatedDepth := decide (kValidatedDepth < w.levelsConsumed)
      crossedAtEntry := book.isCrossed }, w.consumed)

def simulateMarketOrder (rnd : Rounding) (book : OrderBook) (side : OrderSide) (quantity : Double) :
    Except Error Fill :=
  (walk rnd book side quantity).map Prod.fst

/-- What the order took is taken from the book, level by level. -/
def deplete (book : OrderBook) (side : Side) : List Level → Call OrderBook Unit
  | [] => .ok () book
  | level :: consumed =>
    match book.apply side level.price level.quantity with
    | .error e book => .error e book
    | .ok () book => deplete book side consumed

def executeMarketOrder (rnd : Rounding) (book : OrderBook) (side : OrderSide) (quantity : Double) :
    Call OrderBook Fill :=
  match walk rnd book side quantity with
  | .error e => .error e book
  | .ok (fill, consumed) =>
    match deplete book (consumedSide side) consumed with
    | .error e book => .error e book
    | .ok () book => .ok fill book

end Impact
end PerpCarry
