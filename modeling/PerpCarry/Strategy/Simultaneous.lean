import Mathlib.Tactic.Ring
import PerpCarry.Lib.Lanes
import PerpCarry.Strategy.SettlementChain

/-!
# Strategy.Simultaneous

Fills and financing charges of one time, booked in another order.

The fills of one market stand in a lane: each is accepted or not by what the fills before it left of
the leg. A charge stands in no lane.

* `swap_fills`, `swap_fill_finance`, `swap_finances`: two bookings that may change places.
* `run_simultaneous`: a list of bookings, with the fills of each market in their order.
-/

namespace PerpCarry
namespace Strategy

open Lib

variable {K : Type} [Field K] [LinearOrder K]

namespace LedgerEvent

def eventId : LedgerEvent K → String
  | .fill event => event.eventId
  | .settle event => event.eventId
  | .finance eventId _ _ => eventId

/-- The market of a fill. -/
def market : LedgerEvent K → Option Market
  | .fill event => some event.market
  | .settle _ => none
  | .finance .. => none

/-- A fill or a financing charge. -/
def IsBooking : LedgerEvent K → Prop
  | .fill _ => True
  | .settle _ => False
  | .finance .. => True

end LedgerEvent

namespace Ledger

/-- What no fill and no charge touches. -/
structure SameTerms (l l' : Ledger K) : Prop where
  symbol : l'.symbol = l.symbol
  fees : l'.fees = l.fees
  next : l'.nextFundingMs = l.nextFundingMs
  last : l'.lastFundingMs = l.lastFundingMs

variable {l l' : Ledger K}

theorem SameTerms.symm (h : l.SameTerms l') : l'.SameTerms l :=
  ⟨h.symbol.symm, h.fees.symm, h.next.symm, h.last.symm⟩

theorem SameTerms.ambiguous (h : l.SameTerms l') (timeMs : Int) :
    l'.SettlementAmbiguous timeMs ↔ l.SettlementAmbiguous timeMs := by
  unfold SettlementAmbiguous
  rw [h.next, h.last]

theorem FillAccepted.transport {e : Fill K} {quantity price mid rate : K}
    (h : l.FillAccepted e quantity price mid rate) (hterms : l.SameTerms l')
    (hevent : l'.event e.eventId e.symbol e.timeMs = .ok ())
    (hleg : l'.leg e.market = l.leg e.market) :
    l'.FillAccepted e quantity price mid rate where
  event := hevent
  quantity_eq := h.quantity_eq
  price_eq := h.price_eq
  mid_eq := h.mid_eq
  price_pos := h.price_pos
  mid_pos := h.mid_pos
  quantity_ne := h.quantity_ne
  before_funding := hterms.next ▸ h.before_funding
  clear := fun hperp hambiguous => h.clear hperp ((hterms.ambiguous _).mp hambiguous)
  keeps_side := hleg ▸ h.keeps_side
  quoted := by rw [hterms.fees, hterms.symbol]; exact h.quoted

/-- What a booking leaves of the ledger it came to, but for money and legs. -/
structure Booked (l l' : Ledger K) (id : String) (t : Int) : Prop extends l.SameTerms l' where
  clock : l'.timeMs = t
  ids : l'.eventIds = insert id l.eventIds

variable {id id' symbol : String} {t : Int}

/-- After a booking at `t`, another event of `t` is as acceptable as it was. -/
theorem Booked.event_iff (h : l.Booked l' id t) (hfirst : l.timeMs ≤ t) :
    l'.event id' symbol t = .ok () ↔ l.event id' symbol t = .ok () ∧ id' ≠ id := by
  rw [event_ok, event_ok, h.clock, h.ids, h.symbol, Finset.mem_insert]
  tauto

section Fills

variable {e : Fill K} {quantity price mid rate : K}

/-- The ledger behind an accepted fill. -/
def afterFill (l : Ledger K) (e : Fill K) (quantity price mid rate : K) : Ledger K :=
  { l.setLeg e.market ((l.leg e.market).trade quantity price).1 with
    cashUsdt := l.cashUsdt + cashChange e.market quantity price
      ((l.leg e.market).trade quantity price).2 - |quantity| * price * rate
    feesUsdt := l.feesUsdt + |quantity| * price * rate
    executionCostUsdt := l.executionCostUsdt + quantity * (price - mid)
    timeMs := e.timeMs
    eventIds := insert e.eventId l.eventIds }

theorem afterFill_booked (l : Ledger K) (e : Fill K) (quantity price mid rate : K) :
    l.Booked (l.afterFill e quantity price mid rate) e.eventId e.timeMs := by
  unfold afterFill
  cases e.market <;> exact ⟨⟨rfl, rfl, rfl, rfl⟩, rfl, rfl⟩

theorem afterFill_leg {other : Market} (hne : other ≠ e.market) :
    (l.afterFill e quantity price mid rate).leg other = l.leg other := by
  show (l.setLeg _ _).leg other = _
  rw [leg_setLeg, if_neg hne]

theorem fill_afterFill : l.fill e = .ok l' ↔ ∃ quantity price mid rate,
    l.FillAccepted e quantity price mid rate ∧ l.afterFill e quantity price mid rate = l' :=
  fill_ok

/-- The ledger behind an accepted charge. -/
def afterFinance (l : Ledger K) (id : String) (t : Int) (cost : K) : Ledger K :=
  { l with
    cashUsdt := l.cashUsdt - cost
    financingUsdt := l.financingUsdt + cost
    timeMs := t
    eventIds := insert id l.eventIds }

theorem afterFinance_booked (l : Ledger K) (id : String) (t : Int) (cost : K) :
    l.Booked (l.afterFinance id t cost) id t :=
  ⟨⟨rfl, rfl, rfl, rfl⟩, rfl, rfl⟩

theorem finance_afterFinance {cost : Decimal K} : l.finance id t cost = .ok l' ↔ ∃ c,
    (l.event id l.symbol t = .ok () ∧ cost = .finite c ∧ 0 ≤ c ∧ t < l.nextFundingMs) ∧
      l.afterFinance id t c = l' :=
  finance_ok

end Fills

/-! ## Two bookings -/

theorem swap_fills {e e' : Fill K} {m : Ledger K} (hmarket : e.market ≠ e'.market)
    (htime : e.timeMs = e'.timeMs) (hid : e.eventId ≠ e'.eventId) (h : l.fill e = .ok m)
    (h' : m.fill e' = .ok l') : ∃ m', l.fill e' = .ok m' ∧ m'.fill e = .ok l' := by
  obtain ⟨q, p, mid, r, hacc, rfl⟩ := fill_afterFill.mp h
  obtain ⟨q', p', mid', r', hacc', rfl⟩ := fill_afterFill.mp h'
  have hbooked := l.afterFill_booked e q p mid r
  have hbooked' := l.afterFill_booked e' q' p' mid' r'
  have hclock : l.timeMs ≤ e.timeMs := (event_ok.mp hacc.event).2.2.2.2
  -- the second fill would have been accepted first
  have hevent' : l.event e'.eventId e'.symbol e'.timeMs = .ok () := by
    have := hacc'.event
    rw [← htime] at this ⊢
    exact ((hbooked.event_iff hclock).mp this).1
  have hfirst : l.FillAccepted e' q' p' mid' r' :=
    hacc'.transport hbooked.symm hevent' (afterFill_leg hmarket.symm).symm
  -- and the first one after it
  have hevent : (l.afterFill e' q' p' mid' r').event e.eventId e.symbol e.timeMs = .ok () := by
    have := hacc.event
    rw [htime] at this hclock ⊢
    exact (hbooked'.event_iff hclock).mpr ⟨this, hid⟩
  have hsecond : (l.afterFill e' q' p' mid' r').FillAccepted e q p mid r :=
    hacc.transport hbooked'.toSameTerms hevent (afterFill_leg hmarket)
  refine ⟨_, fill_afterFill.mpr ⟨q', p', mid', r', hfirst, rfl⟩,
    fill_afterFill.mpr ⟨q, p, mid, r, hsecond, ?_⟩⟩
  unfold afterFill
  rw [htime]
  cases hm : e.market <;> cases hm' : e'.market
  · exact absurd (hm.trans hm'.symm) hmarket
  · simp only [leg, setLeg, Ledger.mk.injEq, true_and]
    refine ⟨by ring, by ring, by ring, Finset.insert_comm _ _ _⟩
  · simp only [leg, setLeg, Ledger.mk.injEq, true_and]
    refine ⟨by ring, by ring, by ring, Finset.insert_comm _ _ _⟩
  · exact absurd (hm.trans hm'.symm) hmarket

theorem swap_fill_finance {e : Fill K} {cost : Decimal K} {m : Ledger K} (htime : e.timeMs = t)
    (hid : e.eventId ≠ id) (h : l.fill e = .ok m) (h' : m.finance id t cost = .ok l') :
    ∃ m', l.finance id t cost = .ok m' ∧ m'.fill e = .ok l' := by
  subst htime
  obtain ⟨q, p, mid, r, hacc, rfl⟩ := fill_afterFill.mp h
  obtain ⟨c, ⟨hevent', hcost, hpos, hnext⟩, rfl⟩ := finance_afterFinance.mp h'
  have hbooked := l.afterFill_booked e q p mid r
  have hbooked' := l.afterFinance_booked id e.timeMs c
  have hclock : l.timeMs ≤ e.timeMs := (event_ok.mp hacc.event).2.2.2.2
  rw [hbooked.symbol, hbooked.event_iff hclock] at hevent'
  rw [hbooked.next] at hnext
  have hsecond : (l.afterFinance id e.timeMs c).FillAccepted e q p mid r :=
    hacc.transport hbooked'.toSameTerms ((hbooked'.event_iff hclock).mpr ⟨hacc.event, hid⟩)
      (by cases e.market <;> rfl)
  refine ⟨_, finance_afterFinance.mpr ⟨c, ⟨hevent'.1, hcost, hpos, hnext⟩, rfl⟩,
    fill_afterFill.mpr ⟨q, p, mid, r, hsecond, ?_⟩⟩
  unfold afterFill afterFinance
  cases e.market
  all_goals
    simp only [leg, setLeg, Ledger.mk.injEq, true_and]
    exact ⟨by ring, Finset.insert_comm _ _ _⟩

theorem swap_finance_fill {e : Fill K} {cost : Decimal K} {m : Ledger K} (htime : t = e.timeMs)
    (hid : id ≠ e.eventId) (h : l.finance id t cost = .ok m) (h' : m.fill e = .ok l') :
    ∃ m', l.fill e = .ok m' ∧ m'.finance id t cost = .ok l' := by
  subst htime
  obtain ⟨c, ⟨hevent, hcost, hpos, hnext⟩, rfl⟩ := finance_afterFinance.mp h
  obtain ⟨q, p, mid, r, hacc, rfl⟩ := fill_afterFill.mp h'
  have hbooked := l.afterFinance_booked id e.timeMs c
  have hbooked' := l.afterFill_booked e q p mid r
  have hclock : l.timeMs ≤ e.timeMs := (event_ok.mp hevent).2.2.2.2
  have hfirst : l.FillAccepted e q p mid r :=
    hacc.transport hbooked.symm ((hbooked.event_iff hclock).mp hacc.event).1
      (by cases e.market <;> rfl)
  have hlater : (l.afterFill e q p mid r).event id (l.afterFill e q p mid r).symbol e.timeMs =
      .ok () := by
    rw [hbooked'.symbol]
    exact (hbooked'.event_iff hclock).mpr ⟨hevent, hid⟩
  refine ⟨_, fill_afterFill.mpr ⟨q, p, mid, r, hfirst, ?_⟩,
    finance_afterFinance.mpr ⟨c, ⟨hlater, hcost, hpos, hbooked'.next.symm ▸ hnext⟩, ?_⟩⟩
  · rfl
  · unfold afterFill afterFinance
    cases e.market
    all_goals
      simp only [leg, setLeg, Ledger.mk.injEq, true_and]
      exact ⟨by ring, Finset.insert_comm _ _ _⟩

theorem swap_finances {cost cost' : Decimal K} {m : Ledger K} (hid : id ≠ id')
    (h : l.finance id t cost = .ok m) (h' : m.finance id' t cost' = .ok l') :
    ∃ m', l.finance id' t cost' = .ok m' ∧ m'.finance id t cost = .ok l' := by
  obtain ⟨c, ⟨hevent, hcost, hpos, hnext⟩, rfl⟩ := finance_afterFinance.mp h
  obtain ⟨c', ⟨hevent', hcost', hpos', hnext'⟩, rfl⟩ := finance_afterFinance.mp h'
  have hbooked := l.afterFinance_booked id t c
  have hbooked' := l.afterFinance_booked id' t c'
  have hclock : l.timeMs ≤ t := (event_ok.mp hevent).2.2.2.2
  have hfirst := ((hbooked.event_iff hclock).mp hevent').1
  have hlater := (hbooked'.event_iff hclock).mpr ⟨hevent, hid⟩
  refine ⟨_, finance_afterFinance.mpr ⟨c', ⟨hfirst, hcost', hpos', hnext'⟩, rfl⟩,
    finance_afterFinance.mpr ⟨c, ⟨hlater, hcost, hpos, hnext⟩, ?_⟩⟩
  simp only [afterFinance, Ledger.mk.injEq, true_and]
  exact ⟨by ring, by ring, Finset.insert_comm _ _ _⟩

end Ledger

/-! ## A list of bookings -/

/-- Bookings of one time, with ids of their own. -/
structure Simultaneous (t : Int) (events : List (LedgerEvent K)) : Prop where
  bookings : ∀ e ∈ events, e.IsBooking
  common : ∀ e ∈ events, e.timeMs = t
  distinct : (events.map (·.eventId)).Nodup

/-- The fills of a market, in their order. -/
def marketFills (market : Market) (events : List (LedgerEvent K)) : List (LedgerEvent K) :=
  inLane LedgerEvent.market market events

/-- Two bookings of one time that are not fills of one market, in either order. -/
theorem swap_bookings {a b : LedgerEvent K} (ha : a.IsBooking) (hb : b.IsBooking)
    (htime : a.timeMs = b.timeMs) (hid : a.eventId ≠ b.eventId)
    (hapart : Apart LedgerEvent.market a b) {l m l' : Ledger K} (h : l.step a = .ok m)
    (h' : m.step b = .ok l') : ∃ m', l.step b = .ok m' ∧ m'.step a = .ok l' := by
  cases a with
  | settle e => exact ha.elim
  | fill e =>
    cases b with
    | settle e' => exact hb.elim
    | fill e' =>
      refine Ledger.swap_fills ?_ htime hid h h'
      intro hmarket
      cases hapart (congrArg some hmarket)
    | finance id t cost => exact Ledger.swap_fill_finance htime hid h h'
  | finance id t cost =>
    cases b with
    | settle e' => exact hb.elim
    | fill e' => exact Ledger.swap_finance_fill htime hid h h'
    | finance id' t' cost' =>
      have ht : t = t' := htime
      subst ht
      exact Ledger.swap_finances hid h h'

theorem bookings_swap {a b : LedgerEvent K} (ha : a.IsBooking) (hb : b.IsBooking)
    (htime : a.timeMs = b.timeMs) (hid : a.eventId ≠ b.eventId)
    (hapart : Apart LedgerEvent.market a b) : Swaps Ledger.step a b := by
  have hapart' : Apart LedgerEvent.market b a := fun h => h.trans (hapart h.symm)
  intro l l'
  simp only [run_cons_ok, run_nil, Except.ok.injEq]
  constructor
  · rintro ⟨m, h, _, h', rfl⟩
    obtain ⟨m', hm, hm'⟩ := swap_bookings ha hb htime hid hapart h h'
    exact ⟨m', hm, _, hm', rfl⟩
  · rintro ⟨m, h, _, h', rfl⟩
    obtain ⟨m', hm, hm'⟩ := swap_bookings hb ha htime.symm hid.symm hapart' h h'
    exact ⟨m', hm, _, hm', rfl⟩

theorem run_simultaneous {t : Int} {events events' : List (LedgerEvent K)}
    (h : Simultaneous t events) (hperm : events.Perm events')
    (horder : ∀ market, marketFills market events = marketFills market events') (l l' : Ledger K) :
    l.run events = .ok l' ↔ l.run events' = .ok l' := by
  refine run_lanes ?_ hperm horder
  intro a ha b hb hne hapart
  refine bookings_swap (h.bookings a ha) (h.bookings b hb)
    ((h.common a ha).trans (h.common b hb).symm) ?_ hapart
  intro hid
  exact hne (List.inj_on_of_nodup_map h.distinct ha hb hid)

/-- Both legs of a trade, and a charge with them. -/
def pairedTrade : List (LedgerEvent ℚ) := [
  .fill ⟨"long spot", "BTCUSDT", 19000, .spot, .finite 3, .finite 103, .finite 102⟩,
  .fill ⟨"short perp", "BTCUSDT", 19000, .perp, .finite (-3), .finite 105, .finite 106⟩,
  .finance "borrow" 19000 (.finite (3 / 4))]

theorem run_simultaneous_pairedTrade :
    (∃ l', roundTripStart.run pairedTrade = .ok l') ∧
      ∀ l', roundTripStart.run pairedTrade = .ok l' ↔
        roundTripStart.run pairedTrade.reverse = .ok l' := by
  refine ⟨?_, run_simultaneous (t := 19000) ⟨?_, ?_, ?_⟩ (List.reverse_perm _).symm ?_ _⟩
  · have hok : (roundTripStart.run pairedTrade).isOk = true := by decide +kernel
    cases h : roundTripStart.run pairedTrade with
    | ok l' => exact ⟨l', rfl⟩
    | error e => rw [h] at hok; cases hok
  · simp [pairedTrade, LedgerEvent.IsBooking]
  · simp [pairedTrade, LedgerEvent.timeMs]
  · decide
  · intro market
    cases market <;> rfl

end Strategy
end PerpCarry
