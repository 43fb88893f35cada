import PerpCarry.Strategy.LedgerPnl

/-!
# Strategy.SettlementChain

The settled boundaries of a ledger's run, and what was held over each.

`fill`, `settle` and `finance` look at the last and at the next boundary only. `Chained` carries
what their tests add up to: the boundaries follow one another without a gap, every event so far is
earlier than the boundary that is not settled yet, and no perp fill is near any of them.

* `fill_chained`, `settle_chained`, `finance_chained`, `run_chained`: a run keeps it.
* `ledger_chain`: from the start of a ledger, for every accepted run.
-/

namespace PerpCarry
namespace Strategy

variable {K : Type}

def LedgerEvent.timeMs : LedgerEvent K → Int
  | .fill f => f.timeMs
  | .settle e => e.timeMs
  | .finance _ timeMs _ => timeMs

def settlementsOf : List (LedgerEvent K) → List (FundingSettlement K)
  | [] => []
  | .fill _ :: events => settlementsOf events
  | .settle e :: events => e :: settlementsOf events
  | .finance _ _ _ :: events => settlementsOf events

theorem settlementsOf_append (past events : List (LedgerEvent K)) :
    settlementsOf (past ++ events) = settlementsOf past ++ settlementsOf events := by
  induction past with
  | nil => rfl
  | cons e past ih => cases e <;> simp [settlementsOf, ih]

theorem settlementsOf_mem {events : List (LedgerEvent K)} {e : FundingSettlement K}
    (h : e ∈ settlementsOf events) : .settle e ∈ events := by
  induction events with
  | nil => cases h
  | cons event events ih =>
    cases event with
    | fill f => exact List.mem_cons_of_mem _ (ih h)
    | settle e' =>
      rcases List.mem_cons.mp h with rfl | h
      · exact List.mem_cons_self ..
      · exact List.mem_cons_of_mem _ (ih h)
    | finance _ _ _ => exact List.mem_cons_of_mem _ (ih h)

theorem fillsOf_mem {events : List (LedgerEvent K)} {f : Fill K} (h : f ∈ fillsOf events) :
    .fill f ∈ events := by
  induction events with
  | nil => cases h
  | cons event events ih =>
    cases event with
    | fill f' =>
      rcases List.mem_cons.mp h with rfl | h
      · exact List.mem_cons_self ..
      · exact List.mem_cons_of_mem _ (ih h)
    | settle _ => exact List.mem_cons_of_mem _ (ih h)
    | finance _ _ _ => exact List.mem_cons_of_mem _ (ih h)

theorem forall_snoc {p : LedgerEvent K → Prop} {past : List (LedgerEvent K)} {e : LedgerEvent K}
    (h : ∀ x ∈ past, p x) (he : p e) : ∀ x ∈ past ++ [e], p x := by
  intro x hx
  rcases List.mem_append.mp hx with hx | hx
  · exact h x hx
  · rw [List.mem_singleton.mp hx]
    exact he

/-- The settlements are at `first`, then each at the end of the interval of the one before; `next`
is where the last one ends. -/
def Gapless (first : Int) : List (FundingSettlement K) → Int → Prop
  | [], next => next = first
  | e :: settlements, next =>
    e.timeMs = first ∧ (1 ≤ e.intervalHours ∧ e.intervalHours ≤ 24) ∧
      Gapless (first + e.intervalHours * HOUR_MS) settlements next

theorem Gapless.snoc {first next : Int} {settlements : List (FundingSettlement K)}
    {e : FundingSettlement K} (h : Gapless first settlements next) (he : e.timeMs = next)
    (hspan : 1 ≤ e.intervalHours ∧ e.intervalHours ≤ 24) :
    Gapless first (settlements ++ [e]) (next + e.intervalHours * HOUR_MS) := by
  induction settlements generalizing first with
  | nil =>
    obtain rfl : next = first := h
    exact ⟨he, hspan, rfl⟩
  | cons head settlements ih =>
    obtain ⟨hhead, hhours, hrest⟩ := h
    exact ⟨hhead, hhours, ih hrest⟩

/-- The boundaries of a run: the settled ones, and the next. -/
def boundaries (events : List (LedgerEvent K)) (next : Int) : List Int :=
  (settlementsOf events).map (·.timeMs) ++ [next]

section Field

variable [Field K]

/-- The perp fills before `boundary`, added up. -/
def heldBefore (boundary : Int) : List (LedgerEvent K) → K :=
  onMarket .perp fun f => if f.timeMs < boundary then f.quantity.value else 0

/-- What a settlement pays on the perp quantity held over it. -/
def FundingSettlement.payment (e : FundingSettlement K) (events : List (LedgerEvent K)) : K :=
  -heldBefore e.timeMs events * e.markPrice.value * e.rate.value

theorem heldBefore_eq_held {boundary : Int} {events : List (LedgerEvent K)}
    (h : ∀ e ∈ events, e.timeMs < boundary) : heldBefore boundary events = held .perp events := by
  unfold heldBefore held onMarket
  congr 1
  apply List.map_congr_left
  intro f hf
  have hlt : f.timeMs < boundary := h _ (fillsOf_mem hf)
  show (if _ then (if f.timeMs < boundary then _ else _) else _) = _
  rw [if_pos hlt]

theorem heldBefore_later {boundary : Int} {past : List (LedgerEvent K)} {f : Fill K}
    (h : boundary ≤ f.timeMs) :
    heldBefore boundary (past ++ [.fill f]) = heldBefore boundary past := by
  unfold heldBefore
  rw [onMarket_fill, if_neg (show ¬ f.timeMs < boundary by omega)]
  simp

end Field

/-- What the tests of `fill`, `settle` and `finance` add up to over a run. -/
structure Chained [Field K] [LinearOrder K] (first : Int) (past : List (LedgerEvent K))
    (l : Ledger K) : Prop where
  gapless : Gapless first (settlementsOf past) l.nextFundingMs
  last : ∀ e ∈ settlementsOf past, ∃ last ∈ l.lastFundingMs, e.timeMs ≤ last
  clock : ∀ e ∈ past, e.timeMs ≤ l.timeMs
  early : ∀ e ∈ past, e.timeMs < l.nextFundingMs
  clear : ∀ f ∈ fillsOf past, f.market = .perp →
    ∀ b ∈ boundaries past l.nextFundingMs, SETTLEMENT_GUARD_MS < |f.timeMs - b|
  spot_nonneg : 0 ≤ l.spot.quantity
  perp_nonpos : l.perp.quantity ≤ 0
  held : l.perp.quantity = held .perp past
  funding : l.fundingUsdt = ((settlementsOf past).map fun e => e.payment past).sum

section Step

variable [Field K] [LinearOrder K] {l l' : Ledger K} {first : Int} {past : List (LedgerEvent K)}

/-- A fill that is not ambiguous is clear of every boundary, not of the two tested alone. -/
theorem Chained.fill_clear {t : Int} (h : Chained first past l)
    (hclear : ¬ l.SettlementAmbiguous t) :
    ∀ b ∈ boundaries past l.nextFundingMs, SETTLEMENT_GUARD_MS < |t - b| := by
  intro b hb
  obtain ⟨hbefore, hafter⟩ := not_or.mp hclear
  rcases List.mem_append.mp hb with hb | hb
  · obtain ⟨e, he, rfl⟩ := List.mem_map.mp hb
    obtain ⟨last, hlast, hle⟩ := h.last e he
    have hfar : SETTLEMENT_GUARD_MS < t - last := by
      by_contra hnear
      exact hafter ⟨last, hlast, by omega⟩
    exact lt_of_lt_of_le (by omega) (le_abs_self _)
  · rw [List.mem_singleton.mp hb]
    exact lt_of_lt_of_le (by omega) (neg_le_abs _)

theorem fill_sides [Arithmetic K] {e : Fill K} (hspot : 0 ≤ l.spot.quantity)
    (hperp : l.perp.quantity ≤ 0) (hs : l.fill e = .ok l') :
    0 ≤ l'.spot.quantity ∧ l'.perp.quantity ≤ 0 := by
  obtain ⟨quantity, price, mid, rate, hacc, rfl⟩ := Ledger.fill_iff.mp hs
  have hside := hacc.keeps_side
  cases hm : e.market with
  | spot =>
    rw [hm] at hside
    exact ⟨not_lt.mp fun hneg => hside (.inl ⟨rfl, hneg⟩), hperp⟩
  | perp =>
    rw [hm] at hside
    exact ⟨hspot, not_lt.mp fun hpos => hside (.inr ⟨rfl, hpos⟩)⟩

/-- A fill moves neither the boundaries nor the funding account. -/
theorem fill_frame [Arithmetic K] {e : Fill K} (hs : l.fill e = .ok l') :
    l'.nextFundingMs = l.nextFundingMs ∧ l'.lastFundingMs = l.lastFundingMs ∧
      l'.fundingUsdt = l.fundingUsdt ∧ l'.timeMs = e.timeMs ∧ l.timeMs ≤ e.timeMs ∧
      e.timeMs < l.nextFundingMs ∧ (e.market = .perp → ¬ l.SettlementAmbiguous e.timeMs) := by
  obtain ⟨quantity, price, mid, rate, hacc, rfl⟩ := Ledger.fill_iff.mp hs
  obtain ⟨_, _, _, _, hclock⟩ := Ledger.event_ok.mp hacc.event
  refine ⟨?_, ?_, ?_, rfl, hclock, hacc.before_funding, hacc.clear⟩
  · cases e.market <;> rfl
  · cases e.market <;> rfl
  · cases e.market <;> rfl

theorem fill_chained {e : Fill K} (h : Chained first past l) (hs : l.fill e = .ok l') :
    Chained first (past ++ [.fill e]) l' := by
  obtain ⟨hnext, hlast, hfunding, htime, hclock, hearly, hclear⟩ := fill_frame hs
  have hperp : l'.perp.quantity =
      l.perp.quantity + if e.market = .perp then e.quantity.value else 0 :=
    Ledger.fill_quantity hs .perp
  have hsides := fill_sides h.spot_nonneg h.perp_nonpos hs
  have hsettled : settlementsOf (past ++ [.fill e]) = settlementsOf past := by
    rw [settlementsOf_append]
    exact List.append_nil _
  constructor
  · rw [hsettled, hnext]
    exact h.gapless
  · rw [hsettled, hlast]
    exact h.last
  · rw [htime]
    exact forall_snoc (fun x hx => (h.clock x hx).trans hclock) (le_refl _)
  · rw [hnext]
    exact forall_snoc h.early hearly
  · intro f hf hm b hb
    rw [boundaries, hsettled, hnext] at hb
    rw [fillsOf_append] at hf
    rcases List.mem_append.mp hf with hf | hf
    · exact h.clear f hf hm b hb
    · obtain rfl : f = e := List.mem_singleton.mp hf
      exact h.fill_clear (hclear hm) b hb
  · exact hsides.1
  · exact hsides.2
  · rw [hperp, h.held]
    unfold held
    rw [onMarket_fill]
  · rw [hfunding, h.funding, hsettled]
    congr 1
    apply List.map_congr_left
    intro settlement hsettlement
    have hbefore : settlement.timeMs ≤ l.timeMs := h.clock _ (settlementsOf_mem hsettlement)
    unfold FundingSettlement.payment
    rw [heldBefore_later (hbefore.trans hclock)]

theorem settle_chained {e : FundingSettlement K} (h : Chained first past l)
    (hs : l.settle e = .ok l') : Chained first (past ++ [.settle e]) l' := by
  obtain ⟨rate, mark, ⟨hevent, hrate, ⟨hmark, _⟩, hdue, hspan⟩, rfl⟩ := Ledger.settle_ok.mp hs
  obtain ⟨_, _, _, _, hclock⟩ := Ledger.event_ok.mp hevent
  have hsettled : settlementsOf (past ++ [.settle e]) = settlementsOf past ++ [e] := by
    rw [settlementsOf_append]
    rfl
  have hfills : fillsOf (past ++ [.settle e]) = fillsOf past := by
    rw [fillsOf_append]
    exact List.append_nil _
  have hforward : l.nextFundingMs < e.timeMs + e.intervalHours * HOUR_MS := by
    unfold HOUR_MS
    omega
  have hpaid : e.payment (past ++ [.settle e]) = -l.perp.quantity * mark * rate := by
    have hbefore : heldBefore e.timeMs (past ++ [.settle e]) = l.perp.quantity := by
      rw [heldBefore, onMarket_settle, h.held]
      exact heldBefore_eq_held (hdue ▸ h.early)
    rw [FundingSettlement.payment, hbefore, hmark, hrate]
    rfl
  constructor
  · rw [hsettled]
    exact hdue ▸ h.gapless.snoc hdue hspan
  · rw [hsettled]
    intro settlement hmem
    refine ⟨e.timeMs, rfl, ?_⟩
    rcases List.mem_append.mp hmem with hmem | hmem
    · exact (h.clock _ (settlementsOf_mem hmem)).trans hclock
    · rw [List.mem_singleton.mp hmem]
  · exact forall_snoc (fun x hx => (h.clock x hx).trans hclock) (le_refl _)
  · exact forall_snoc (fun x hx => (h.early x hx).trans hforward)
      (show e.timeMs < _ from hdue ▸ hforward)
  · intro f hf hm b hb
    rw [hfills] at hf
    have hpast := h.clear f hf hm
    rw [boundaries, hsettled, List.map_append, List.map_singleton, hdue] at hb
    rcases List.mem_append.mp hb with hb | hb
    · exact hpast b hb
    · rw [List.mem_singleton.mp hb]
      have hnear := hpast l.nextFundingMs (by simp [boundaries])
      have hbefore : f.timeMs < l.nextFundingMs := h.early _ (fillsOf_mem hf)
      show _ < |f.timeMs - (l.nextFundingMs + e.intervalHours * HOUR_MS)|
      rw [hdue] at hforward
      rw [abs_of_neg (by omega)] at hnear ⊢
      omega
  · exact h.spot_nonneg
  · exact h.perp_nonpos
  · show l.perp.quantity = _
    rw [h.held, held, onMarket_settle]
  · show l.fundingUsdt + _ = _
    rw [hsettled, List.map_append, List.map_singleton, List.sum_append, List.sum_singleton, hpaid,
      h.funding]
    simp only [FundingSettlement.payment, heldBefore, onMarket_settle]

theorem finance_chained {eventId : String} {timeMs : Int} {costUsdt : Decimal K}
    (h : Chained first past l) (hs : l.finance eventId timeMs costUsdt = .ok l') :
    Chained first (past ++ [.finance eventId timeMs costUsdt]) l' := by
  obtain ⟨cost, ⟨hevent, _, _, hearly⟩, rfl⟩ := Ledger.finance_ok.mp hs
  obtain ⟨_, _, _, _, hclock⟩ := Ledger.event_ok.mp hevent
  have hsettled : settlementsOf (past ++ [.finance eventId timeMs costUsdt]) =
      settlementsOf past := by
    rw [settlementsOf_append]
    exact List.append_nil _
  have hfills : fillsOf (past ++ [.finance eventId timeMs costUsdt]) = fillsOf past := by
    rw [fillsOf_append]
    exact List.append_nil _
  constructor
  · rw [hsettled]
    exact h.gapless
  · rw [hsettled]
    exact h.last
  · exact forall_snoc (fun x hx => (h.clock x hx).trans hclock) (le_refl _)
  · exact forall_snoc h.early hearly
  · rw [hfills, boundaries, hsettled]
    exact h.clear
  · exact h.spot_nonneg
  · exact h.perp_nonpos
  · rw [held, onMarket_finance]
    exact h.held
  · rw [hsettled]
    simp only [FundingSettlement.payment, heldBefore, onMarket_finance]
    exact h.funding

theorem step_chained {e : LedgerEvent K} (h : Chained first past l) (hs : l.step e = .ok l') :
    Chained first (past ++ [e]) l' := by
  cases e with
  | fill e => exact fill_chained h hs
  | settle e => exact settle_chained h hs
  | finance eventId timeMs costUsdt => exact finance_chained h hs

theorem start_chained {symbol : String} {capital : Decimal K} {next : Int} {fees : FeeSchedule K}
    (h : Ledger.start symbol capital next fees = .ok l) : Chained next [] l := by
  obtain ⟨c, _, _, _, rfl⟩ := Ledger.start_ok.mp h
  refine ⟨rfl, fun _ => nofun, fun _ => nofun, fun _ => nofun, fun _ => nofun, le_refl _,
    le_refl _, ?_, rfl⟩
  simp [Leg.flat, held, onMarket, fillsOf]

theorem run_chained {events : List (LedgerEvent K)} (h : Chained first past l)
    (hs : l.run events = .ok l') : Chained first (past ++ events) l' :=
  Lib.run_history (Chained first) (fun _ _ _ _ => step_chained) past h hs

end Step

/-- The settlement chain of every accepted run, and what its settlements were paid on. -/
theorem ledger_chain [Field K] [LinearOrder K] {symbol : String} {capital : Decimal K} {next : Int}
    {fees : FeeSchedule K} {opened l : Ledger K} {events : List (LedgerEvent K)}
    (hstart : Ledger.start symbol capital next fees = .ok opened)
    (hrun : opened.run events = .ok l) :
    Gapless next (settlementsOf events) l.nextFundingMs ∧
      (∀ e ∈ events, e.timeMs < l.nextFundingMs) ∧
      (∀ f ∈ fillsOf events, f.market = .perp →
        ∀ b ∈ boundaries events l.nextFundingMs, SETTLEMENT_GUARD_MS < |f.timeMs - b|) ∧
      0 ≤ l.spot.quantity ∧ l.perp.quantity ≤ 0 ∧
      l.fundingUsdt = ((settlementsOf events).map fun e => e.payment events).sum := by
  have h : Chained next events l := run_chained (start_chained hstart) hrun
  exact ⟨h.gapless, h.early, h.clear, h.spot_nonneg, h.perp_nonpos, h.funding⟩

theorem ledger_chain_roundTrip :
    Gapless 28800000 (settlementsOf roundTrip) 57600000 ∧
      (∀ e ∈ roundTrip, e.timeMs < 57600000) ∧
      (∀ f ∈ fillsOf roundTrip, f.market = .perp →
        ∀ b ∈ boundaries roundTrip 57600000, SETTLEMENT_GUARD_MS < |f.timeMs - b|) ∧
      0 ≤ roundTripEnd.spot.quantity ∧ roundTripEnd.perp.quantity ≤ 0 ∧
      roundTripEnd.fundingUsdt = ((settlementsOf roundTrip).map fun e => e.payment roundTrip).sum := by
  have hstart : Ledger.start "BTCUSDT" (.finite 10000) 28800000 takerFees = .ok roundTripStart := by
    rfl
  have hrun : roundTripStart.run roundTrip = .ok roundTripEnd := by decide +kernel
  exact ledger_chain hstart hrun

end Strategy
end PerpCarry
