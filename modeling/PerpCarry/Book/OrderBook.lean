import PerpCarry.Core.Call
import PerpCarry.Core.Double
import PerpCarry.Lib.PartitionPoint

/-!
# Book.OrderBook

The price-level order book of `cpp/src/order_book.cpp`: two vectors of levels, best first.
-/

namespace PerpCarry

inductive Side where
  | bid
  | ask
  deriving DecidableEq

structure Level where
  price : Double
  quantity : Double
  deriving DecidableEq

namespace Book

open Lib

/-- Levels are stored best first: a higher bid is better, a lower ask is better. -/
def isBetter (side : Side) (lhs rhs : Double) : Bool :=
  match side with
  | .bid => rhs.lt lhs
  | .ask => lhs.lt rhs

def validate (price quantity : Double) : Except Error Unit :=
  if !price.isFinite || price.le .zero then
    .error (.invalidArgument ("order book price must be finite and positive, got " ++ price.toString))
  else if !quantity.isFinite || quantity.lt .zero then
    .error (.invalidArgument
      ("order book quantity must be finite and non-negative, got " ++ quantity.toString))
  else .ok ()

end Book

structure OrderBook where
  bids : List Level := []
  asks : List Level := []
  deriving DecidableEq

namespace OrderBook

open Lib Book

def levels (book : OrderBook) : Side → List Level
  | .bid => book.bids
  | .ask => book.asks

def setLevels (book : OrderBook) (side : Side) (ls : List Level) : OrderBook :=
  match side with
  | .bid => { book with bids := ls }
  | .ask => { book with asks := ls }

/-- First level not better than `price`, as an index. -/
def position (side : Side) (levels : List Level) (price : Double) : Nat :=
  lowerBound (fun level => isBetter side level.price price) levels

/-- `pos != end && pos->price == price`. -/
def found (levels : List Level) (pos : Nat) (price : Double) : Bool :=
  match levels[pos]? with
  | some level => level.price.eq price
  | none => false

def apply (book : OrderBook) (side : Side) (price quantity : Double) : Call OrderBook Unit :=
  match validate price quantity with
  | .error e => .error e book
  | .ok () =>
    let levels := book.levels side
    let pos := position side levels price
    if quantity.eq .zero then
      if found levels pos price then .ok () (book.setLevels side (levels.eraseIdx pos))
      else .ok () book
    else if found levels pos price then
      .ok () (book.setLevels side (levels.modify pos fun level => { level with quantity }))
    else .ok () (book.setLevels side (levels.insertIdx pos ⟨price, quantity⟩))

def clear (_ : OrderBook) : OrderBook := { bids := [], asks := [] }

def best (book : OrderBook) (side : Side) : Option Level := (book.levels side).head?

def bestBid (book : OrderBook) : Option Level := book.best .bid

def bestAsk (book : OrderBook) : Option Level := book.best .ask

def isCrossed (book : OrderBook) : Bool :=
  match book.bids, book.asks with
  | bid :: _, ask :: _ => ask.price.le bid.price
  | _, _ => false

def levelCount (book : OrderBook) (side : Side) : Nat := (book.levels side).length

variable (book : OrderBook) (side : Side) (ls : List Level)

@[simp] theorem levels_setLevels : (book.setLevels side ls).levels side = ls := by
  cases side <;> rfl

theorem levels_setLevels_ne {side' : Side} (h : side' ≠ side) :
    (book.setLevels side ls).levels side' = book.levels side' := by
  cases side <;> cases side' <;> first | rfl | exact absurd rfl h

@[simp] theorem setLevels_levels : book.setLevels side (book.levels side) = book := by
  cases side <;> rfl

@[simp] theorem setLevels_setLevels (ls' : List Level) :
    (book.setLevels side ls).setLevels side ls' = book.setLevels side ls' := by
  cases side <;> rfl

@[simp] theorem levels_clear : book.clear.levels side = [] := by cases side <;> rfl

end OrderBook

end PerpCarry
