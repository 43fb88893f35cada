import PerpCarry.Book.WellFormed

/-!
# Book.Refinement

The order book refines a finite map.

What an order book is for is to know the quantity resting at each price (`BookMap`). A positive
quantity overwrites the entry of its price, a zero quantity removes it, `clear` removes everything
and a rejected call does nothing. `Refines` relates a stored book to the map it stands for.

* `refines_call`: one call of the code and one of the map keep `Refines`.
* `run_refines`: so does any sequence of calls, rejected ones included.
* `orderBook_refines_map` reads off what `Refines` says about the vectors, the best levels and the
  crossed test.
-/

namespace PerpCarry

open Lib Book

/-- The quantity resting at each price, if any. -/
abbrev BookMap := Side → Double → Option Double

namespace BookMap

def empty : BookMap := fun _ _ => none

/-- A positive quantity overwrites, a zero quantity removes. -/
def write (m : BookMap) (side : Side) (price quantity : Double) : BookMap := fun s p =>
  if s = side ∧ p = price then (if quantity = .zero then none else some quantity) else m s p

end BookMap

/-- A call of the public interface that changes the book. -/
inductive BookCall where
  | apply (side : Side) (price quantity : Double)
  | clear

/-- The book after the call. A caller that catches the exception goes on with this state. -/
def OrderBook.call (book : OrderBook) : BookCall → OrderBook
  | .apply side price quantity => (book.apply side price quantity).state
  | .clear => book.clear

def OrderBook.run (calls : List BookCall) : OrderBook := calls.foldl OrderBook.call {}

def BookMap.call (m : BookMap) : BookCall → BookMap
  | .apply side price quantity => if Acceptable price quantity then m.write side price quantity else m
  | .clear => .empty

def BookMap.run (calls : List BookCall) : BookMap := calls.foldl BookMap.call .empty

/-- `book` stores exactly the entries of `m`. -/
structure Refines (book : OrderBook) (m : BookMap) : Prop where
  wellFormed : book.WellFormed
  entries : ∀ side price quantity,
    ⟨price, quantity⟩ ∈ book.levels side ↔ m side price = some quantity

theorem refines_empty : Refines {} .empty where
  wellFormed := OrderBook.wellFormed_empty
  entries := by intro side price quantity; cases side <;> simp [OrderBook.levels, BookMap.empty]

theorem refines_clear (book : OrderBook) : Refines book.clear .empty := refines_empty

theorem refines_write {book book' : OrderBook} {m : BookMap} {side : Side} {price quantity : Double}
    (h : Refines book m) (ha : Acceptable price quantity)
    (hb : book.apply side price quantity = .ok () book') :
    Refines book' (m.write side price quantity) := by
  obtain ⟨b, happly, hwf, hother, hmem⟩ := OrderBook.apply_ok h.wellFormed side ha
  rw [hb] at happly
  cases happly
  refine ⟨hwf, fun side' p q => ?_⟩
  by_cases hs : side' = side
  · subst hs
    rw [hmem, h.entries]
    by_cases hp : p = price
    · subst hp
      by_cases hq : quantity = .zero
      · simp [BookMap.write, hq]
      · simp [BookMap.write, hq, eq_comm]
    · simp [BookMap.write, hp]
  · rw [hother side' hs, h.entries]
    simp [BookMap.write, hs]

theorem refines_call {book : OrderBook} {m : BookMap} (h : Refines book m) (c : BookCall) :
    Refines (book.call c) (m.call c) := by
  cases c with
  | apply side price quantity =>
    by_cases ha : Acceptable price quantity
    · obtain ⟨book', happly, _⟩ := OrderBook.apply_ok h.wellFormed side ha
      simp only [OrderBook.call, BookMap.call, happly, if_pos ha, Call.state_ok]
      exact refines_write h ha happly
    · obtain ⟨e, happly⟩ := OrderBook.apply_rejected book side ha
      simpa only [OrderBook.call, BookMap.call, happly, if_neg ha, Call.state_error] using h
  | clear => exact refines_clear book

theorem run_refines (calls : List BookCall) : Refines (OrderBook.run calls) (BookMap.run calls) := by
  suffices hfold : ∀ (cs : List BookCall) (book : OrderBook) (m : BookMap), Refines book m →
      Refines (cs.foldl OrderBook.call book) (cs.foldl BookMap.call m) from
    hfold calls {} .empty refines_empty
  intro cs
  induction cs with
  | nil => intro book m h; exact h
  | cons c cs ih => intro book m h; exact ih _ _ (refines_call h c)

section Reading

variable {book : OrderBook} {m : BookMap} {side : Side}

theorem OrderBook.WellFormed.ordered (h : book.WellFormed) (side : Side) :
    (book.levels side).Pairwise fun a b => isBetter side a.price b.price = true := by
  refine List.Pairwise.imp_of_mem ?_ (h.sorted side)
  intro a b ha hb hab
  obtain ⟨p, q, rfl, _, _⟩ := (h.valid side a ha).exists
  obtain ⟨p', q', rfl, _, _⟩ := (h.valid side b hb).exists
  exact (isBetter_finite side p p').mpr hab

theorem OrderBook.WellFormed.nodup_prices (h : book.WellFormed) (side : Side) :
    ((book.levels side).map Level.price).Nodup := by
  rw [List.Nodup, List.pairwise_map]
  refine List.Pairwise.imp ?_ (h.sorted side)
  intro a b hab he
  rw [priceKey, priceKey, he] at hab
  exact irrefl_of (Better side) _ hab

/-- The front level is the one no other level of its side is better than. -/
theorem OrderBook.WellFormed.best_iff (h : book.WellFormed) (side : Side) (l : Level) :
    book.best side = some l ↔
      l ∈ book.levels side ∧ ∀ l' ∈ book.levels side, isBetter side l'.price l.price = false := by
  have hord := h.ordered side
  simp only [OrderBook.best]
  cases hl : book.levels side with
  | nil => simp
  | cons x xs =>
    rw [hl] at hord
    obtain ⟨hx, _⟩ := List.pairwise_cons.mp hord
    have hasym : ∀ {a b : Level}, isBetter side a.price b.price = true →
        isBetter side b.price a.price = false := by
      intro a b hab
      cases hba : isBetter side b.price a.price
      · rfl
      · cases side
        · exact absurd (Double.lt_trans hab hba) (by rw [Double.lt_irrefl]; simp)
        · exact absurd (Double.lt_trans hab hba) (by rw [Double.lt_irrefl]; simp)
    have hself : ∀ a : Level, isBetter side a.price a.price = false := by
      intro a; cases side <;> exact Double.lt_irrefl _
    constructor
    · intro hsome
      cases hsome
      refine ⟨List.mem_cons_self, fun l' hl' => ?_⟩
      rcases List.mem_cons.mp hl' with rfl | hl'
      · exact hself l'
      · exact hasym (hx l' hl')
    · rintro ⟨hmem, hall⟩
      rcases List.mem_cons.mp hmem with rfl | hmem
      · rfl
      · have := hall x List.mem_cons_self
        rw [hx l hmem] at this
        cases this

theorem Refines.best_none (h : Refines book m) (side : Side) :
    book.best side = none ↔ ∀ price, m side price = none := by
  rw [OrderBook.best, List.head?_eq_none_iff]
  constructor
  · intro hnil price
    cases hm : m side price with
    | none => rfl
    | some q => rw [← h.entries, hnil] at hm; cases hm
  · intro hall
    refine List.eq_nil_iff_forall_not_mem.mpr ?_
    rintro ⟨p, q⟩ hl
    rw [h.entries, hall p] at hl
    cases hl

theorem Refines.best_some (h : Refines book m) (side : Side) (l : Level) :
    book.best side = some l ↔ m side l.price = some l.quantity ∧
      ∀ price quantity, m side price = some quantity → isBetter side price l.price = false := by
  rw [h.wellFormed.best_iff side l]
  refine and_congr (h.entries side l.price l.quantity) ?_
  constructor
  · intro hall price quantity hm
    exact hall ⟨price, quantity⟩ ((h.entries _ _ _).mpr hm)
  · rintro hall ⟨price, quantity⟩ hl
    exact hall price quantity ((h.entries _ _ _).mp hl)

theorem Refines.price_finite (h : Refines book m) {side : Side} {price quantity : Double}
    (hm : m side price = some quantity) : ∃ p, price = .finite p := by
  obtain ⟨p, _, hp, _⟩ := (h.wellFormed.valid _ _ ((h.entries _ _ _).mpr hm)).exists
  exact ⟨p, (Level.mk.inj hp).1⟩

/-- No bid is better than the best one: every bid is at or below it. -/
theorem Refines.bestBid_some (h : Refines book m) (l : Level) :
    book.bestBid = some l ↔ m .bid l.price = some l.quantity ∧
      ∀ price quantity, m .bid price = some quantity → price.le l.price = true := by
  rw [OrderBook.bestBid, h.best_some .bid l]
  refine and_congr_right fun hl => forall₂_congr fun price quantity => imp_congr_right fun hm => ?_
  obtain ⟨p, hp⟩ := h.price_finite hl
  obtain ⟨p', rfl⟩ := h.price_finite hm
  rw [hp]
  simp [isBetter]

theorem Refines.bestAsk_some (h : Refines book m) (l : Level) :
    book.bestAsk = some l ↔ m .ask l.price = some l.quantity ∧
      ∀ price quantity, m .ask price = some quantity → l.price.le price = true := by
  rw [OrderBook.bestAsk, h.best_some .ask l]
  refine and_congr_right fun hl => forall₂_congr fun price quantity => imp_congr_right fun hm => ?_
  obtain ⟨p, hp⟩ := h.price_finite hl
  obtain ⟨p', rfl⟩ := h.price_finite hm
  rw [hp]
  simp [isBetter]

theorem OrderBook.isCrossed_iff (book : OrderBook) :
    book.isCrossed = true ↔
      ∃ bid ask, book.bestBid = some bid ∧ book.bestAsk = some ask ∧
        ask.price.le bid.price = true := by
  obtain ⟨bids, asks⟩ := book
  cases bids <;> cases asks <;> simp [isCrossed, bestBid, bestAsk, best, levels]

end Reading

/-- The order book is the finite map of its call history. -/
theorem orderBook_refines_map (calls : List BookCall) :
    let book := OrderBook.run calls
    let m := BookMap.run calls
    (∀ side price quantity,
      ⟨price, quantity⟩ ∈ book.levels side ↔ m side price = some quantity) ∧
    (∀ side, (book.levels side).Pairwise fun a b => isBetter side a.price b.price = true) ∧
    (∀ side, ((book.levels side).map Level.price).Nodup) ∧
    (∀ side, ∀ l ∈ book.levels side, Double.zero.lt l.quantity = true) ∧
    (∀ side, book.best side = none ↔ ∀ price, m side price = none) ∧
    (∀ l, book.bestBid = some l ↔ m .bid l.price = some l.quantity ∧
      ∀ price quantity, m .bid price = some quantity → price.le l.price = true) ∧
    (∀ l, book.bestAsk = some l ↔ m .ask l.price = some l.quantity ∧
      ∀ price quantity, m .ask price = some quantity → l.price.le price = true) ∧
    (book.isCrossed = true ↔ ∃ bid ask, book.bestBid = some bid ∧ book.bestAsk = some ask ∧
      ask.price.le bid.price = true) ∧
    (∀ side price quantity, (book.apply side price quantity).thrown ≠ none ↔
      ¬ Acceptable price quantity) ∧
    (∀ side price quantity, (book.apply side price quantity).thrown ≠ none →
      (book.apply side price quantity).state = book) := by
  intro book m
  have h : Refines book m := run_refines calls
  have hthrown : ∀ side price quantity,
      (book.apply side price quantity).thrown ≠ none ↔ ¬ Acceptable price quantity := by
    intro side price quantity
    by_cases ha : Acceptable price quantity
    · obtain ⟨book', happly, _⟩ := OrderBook.apply_ok h.wellFormed side ha
      simp [happly, ha]
    · obtain ⟨e, happly⟩ := OrderBook.apply_rejected book side ha
      simp [happly, ha]
  refine ⟨h.entries, h.wellFormed.ordered, h.wellFormed.nodup_prices, ?_, h.best_none,
    h.bestBid_some, h.bestAsk_some, book.isCrossed_iff, hthrown, ?_⟩
  · intro side l hl
    obtain ⟨p, q, rfl, _, hq⟩ := (h.wellFormed.valid side l hl).exists
    simpa [Double.zero] using hq
  · intro side price quantity ht
    obtain ⟨e, happly⟩ := OrderBook.apply_rejected book side
      ((hthrown side price quantity).mp ht)
    rw [happly]
    rfl

end PerpCarry
