import PerpCarry.Impact.Trace

/-!
# Impact.Liquidity

Displayed liquidity is never sold twice, over exact rationals.

The simulator's book is compared with the plain replay of the same rows, and at each price of the
consumed side an account is kept of what the slices have taken there since a row last wrote the
price or a block began (`takenSince`).

* `Beside`: the two replayers are in step and agree on the side that is not consumed.
* `replayed_beside`, `executed_beside`, `run_beside`: an event keeps that, and the account closes at
  every price.
* `run_epoch`: while no row touches a price, the book there falls by what the slices take.
* `displayed_once`: both, at every moment of a call.
-/

namespace PerpCarry
namespace Impact

open Lib OrderBook BookReplayer

/-! ## Epochs and accounts -/

/-- No row among the events touches `price` on `side` or opens a block. `previous` says whether the
row before them was a snapshot row. -/
def Quiet (side : Side) (price : Double) : Bool → List Event → Prop
  | _, [] => True
  | previous, .replayed u :: events =>
    ¬ (u.side = side ∧ u.price = price) ∧ ¬ (u.isSnapshot = true ∧ previous = false) ∧
      Quiet side price u.isSnapshot events
  | previous, .executed _ :: events => Quiet side price previous events

/-- What an event takes at `price`. -/
def Event.taken (rnd : Rounding) (side : OrderSide) (price : Double) (r : BookReplayer) : Event → ℚ
  | .replayed _ => 0
  | .executed size => takenAt rnd r.book side size price

/-- The account at `price` after an event. -/
def Event.account (rnd : Rounding) (side : OrderSide) (price : Double) (r : BookReplayer) (acc : ℚ) :
    Event → ℚ
  | .replayed u =>
    if (u.side = consumedSide side ∧ u.price = price) ∨ r.opens u = true then 0 else acc
  | .executed size => acc + takenAt rnd r.book side size price

/-- The total taken at `price` by the slices among the events, from the state `r`. -/
def takenAlong (rnd : Rounding) (side : OrderSide) (price : Double) (r : BookReplayer) :
    List Event → ℚ
  | [] => 0
  | e :: events =>
    match e.step rnd side r with
    | .error _ => 0
    | .ok r' => e.taken rnd side price r + takenAlong rnd side price r' events

/-- What is taken at `price` since a row last wrote there or a block began; `acc` before that. -/
def takenSince (rnd : Rounding) (side : OrderSide) (price : Double) (acc : ℚ) (r : BookReplayer) :
    List Event → ℚ
  | [] => acc
  | e :: events =>
    match e.step rnd side r with
    | .error _ => acc
    | .ok r' => takenSince rnd side price (e.account rnd side price r acc) r' events

/-! ## One event -/

structure Beside (side : OrderSide) (r plain : BookReplayer) : Prop where
  lockstep : Lockstep r plain
  wellFormed : r.book.WellFormed
  plain_wellFormed : plain.book.WellFormed
  other : ∀ s, s ≠ consumedSide side → r.book.shown s = plain.book.shown s

variable {side : OrderSide} {r r' plain plain' : BookReplayer} {u : BookUpdate} {x p : ℚ}
  {events : List Event}

theorem step_replayed {rnd : Rounding} :
    Event.step rnd side r (.replayed u) = .ok r' ↔ r.apply u = .ok () r' := by
  simp only [Event.step]
  cases r.apply u with
  | error e r₁ => simp
  | ok a r₁ => simp

theorem step_executed (h : r.book.WellFormed) (side : OrderSide) (hx : 0 < x) :
    Event.step exact side r (.executed (.finite x)) =
      .ok { r with book := depleted r.book side x } := by
  simp only [Event.step, (execute_exact h side hx).1]

/-- A row that the plain replay takes is taken beside it too, and both accounts start afresh at the
prices it decides. -/
theorem replayed_beside (h : Beside side r plain) (ha : plain.apply u = .ok () plain') :
    ∃ r', Event.step exact side r (.replayed u) = .ok r' ∧ Beside side r' plain' ∧
      ∀ p acc, resting r.book (consumedSide side) p + acc =
          resting plain.book (consumedSide side) p →
        resting r'.book (consumedSide side) p +
            (Event.replayed u).account exact side (.finite p) r acc =
          resting plain'.book (consumedSide side) p := by
  obtain ⟨r', hr', hstep⟩ := h.lockstep.apply h.wellFormed h.plain_wellFormed ha
  refine ⟨r', step_replayed.mpr hr', ⟨hstep, apply_wellFormed h.wellFormed hr',
    apply_wellFormed h.plain_wellFormed ha, ?_⟩, ?_⟩
  · intro s hs
    funext price
    rw [apply_shown h.wellFormed hr', apply_shown h.plain_wellFormed ha, h.lockstep.opens_eq]
    unfold BookMap.write
    split
    · rfl
    · split
      · rfl
      · rw [h.other s hs]
  · intro p acc hacc
    rw [resting_replayed h.wellFormed hr', resting_replayed h.plain_wellFormed ha,
      ← h.lockstep.opens_eq, Event.account]
    by_cases htouch : consumedSide side = u.side ∧ Double.finite p = u.price
    · rw [if_pos htouch, if_pos htouch, if_pos (.inl ⟨htouch.1.symm, htouch.2.symm⟩), add_zero]
    · have hother : ¬ (u.side = consumedSide side ∧ u.price = .finite p) :=
        fun hc => htouch ⟨hc.1.symm, hc.2.symm⟩
      rw [if_neg htouch, if_neg htouch]
      by_cases hopens : r.opens u = true
      · rw [if_pos hopens, if_pos hopens, if_pos (.inr hopens), add_zero]
      · rw [if_neg hopens, if_neg hopens, if_neg (fun hc => hc.elim hother hopens), hacc]

theorem executed_beside (h : Beside side r plain) (hx : 0 < x) :
    ∃ r', Event.step exact side r (.executed (.finite x)) = .ok r' ∧ Beside side r' plain ∧
      ∀ p acc, resting r.book (consumedSide side) p + acc =
          resting plain.book (consumedSide side) p →
        resting r'.book (consumedSide side) p +
            (Event.executed (.finite x)).account exact side (.finite p) r acc =
          resting plain.book (consumedSide side) p := by
  refine ⟨_, step_executed h.wellFormed side hx, ⟨h.lockstep.withBook _,
    (execute_exact h.wellFormed side hx).2, h.plain_wellFormed, ?_⟩, ?_⟩
  · intro s hs
    rw [← h.other s hs]
    funext price
    unfold OrderBook.shown
    rw [depleted, levels_setLevels_ne _ _ _ hs]
  · intro p acc hacc
    show resting (depleted r.book side x) _ p + (acc + takenAt _ _ _ _ _) = _
    rw [resting_executed h.wellFormed side hx, ← hacc]
    ring

/-! ## All the events -/

/-- The sizes that a call executes. -/
def Sizes (events : List Event) : Prop := ∀ size ∈ executedSizes events, ∃ x, 0 < x ∧ size = .finite x

theorem Sizes.tail {e : Event} (h : Sizes (e :: events)) : Sizes events := by
  intro size hsize
  refine h size ?_
  cases e with
  | replayed u => exact hsize
  | executed size' => exact List.mem_cons_of_mem _ hsize

/-- What the plain replay accepts runs beside it, and the account closes at every price. -/
theorem run_beside (h : Beside side r plain) (hsizes : Sizes events)
    (ha : plain.applyRows (replayedRows events) = .ok () plain') :
    ∃ r', Lib.run (Event.step exact side) r events = .ok r' ∧ Beside side r' plain' ∧
      ∀ p acc, resting r.book (consumedSide side) p + acc =
          resting plain.book (consumedSide side) p →
        resting r'.book (consumedSide side) p +
            takenSince exact side (.finite p) acc r events =
          resting plain'.book (consumedSide side) p := by
  induction events generalizing r plain with
  | nil =>
    cases ha
    exact ⟨r, rfl, h, fun _ _ hacc => hacc⟩
  | cons e events ih =>
    have hone : ∃ r₁ plain₁, Event.step exact side r e = .ok r₁ ∧ Beside side r₁ plain₁ ∧
        plain₁.applyRows (replayedRows events) = .ok () plain' ∧
        ∀ p acc, resting r.book (consumedSide side) p + acc =
            resting plain.book (consumedSide side) p →
          resting r₁.book (consumedSide side) p + e.account exact side (.finite p) r acc =
            resting plain₁.book (consumedSide side) p := by
      cases e with
      | replayed u =>
        obtain ⟨plain₁, hu, hrest⟩ := applyRows_cons_ok.mp ha
        obtain ⟨r₁, hr₁, hbeside, hclose⟩ := replayed_beside h hu
        exact ⟨r₁, plain₁, hr₁, hbeside, hrest, hclose⟩
      | executed size =>
        obtain ⟨x, hx, rfl⟩ := hsizes size List.mem_cons_self
        obtain ⟨r₁, hr₁, hbeside, hclose⟩ := executed_beside h hx
        exact ⟨r₁, plain, hr₁, hbeside, ha, hclose⟩
    obtain ⟨r₁, plain₁, hr₁, hbeside, hrest, hclose⟩ := hone
    obtain ⟨r', hr', hbeside', hclose'⟩ := ih hbeside hsizes.tail hrest
    refine ⟨r', Lib.run_cons_ok.mpr ⟨r₁, hr₁, hr'⟩, hbeside', ?_⟩
    intro p acc hacc
    simp only [takenSince, hr₁]
    exact hclose' p _ (hclose p acc hacc)

/-- Within an epoch of `p` the book there falls by what the slices take. -/
theorem run_epoch (h : r.book.WellFormed) (hsizes : Sizes events)
    (hquiet : Quiet (consumedSide side) (.finite p) r.previousWasSnapshot events)
    (hrun : Lib.run (Event.step exact side) r events = .ok r') :
    r'.book.WellFormed ∧ 0 ≤ takenAlong exact side (.finite p) r events ∧
      resting r'.book (consumedSide side) p =
        resting r.book (consumedSide side) p - takenAlong exact side (.finite p) r events := by
  induction events generalizing r with
  | nil =>
    obtain rfl : r = r' := by simpa using hrun
    exact ⟨h, le_rfl, (sub_zero _).symm⟩
  | cons e events ih =>
    obtain ⟨r₁, hr₁, hrest⟩ := Lib.run_cons_ok.mp hrun
    simp only [takenAlong, hr₁]
    cases e with
    | replayed u =>
      have ha := step_replayed.mp hr₁
      obtain ⟨htouch, hopens, hquiet⟩ := hquiet
      have hprevious : r₁.previousWasSnapshot = u.isSnapshot := by
        obtain ⟨_, _, _, rfl⟩ := apply_ok_inv ha
        rfl
      rw [← hprevious] at hquiet
      obtain ⟨hwf, hnonneg, heq⟩ := ih (apply_wellFormed h ha) hsizes.tail hquiet hrest
      have hkeep : resting r₁.book (consumedSide side) p = resting r.book (consumedSide side) p := by
        rw [resting_replayed h ha, if_neg (fun hc => htouch ⟨hc.1.symm, hc.2.symm⟩), if_neg]
        simpa [opens] using hopens
      refine ⟨hwf, ?_, ?_⟩
      · simpa [Event.taken] using hnonneg
      · rw [heq, hkeep]
        simp [Event.taken]
    | executed size =>
      obtain ⟨x, hx, rfl⟩ := hsizes size List.mem_cons_self
      have hstep := step_executed h side hx
      rw [hr₁] at hstep
      obtain rfl : r₁ = { r with book := depleted r.book side x } := by simpa using hstep
      obtain ⟨hwf, hnonneg, heq⟩ := ih (r := { r with book := depleted r.book side x })
        (execute_exact h side hx).2 hsizes.tail hquiet hrest
      have htaken := takenAt_nonneg h side x p
      refine ⟨hwf, add_nonneg htaken hnonneg, ?_⟩
      rw [heq]
      show resting (depleted r.book side x) _ p - _ = _ - (takenAt _ _ _ _ _ + _)
      rw [resting_executed h side hx]
      ring

/-! ## A call -/

/-- The simulator's replayer `r` and the plain replay after the events `past`. -/
structure SoldOnce (side : OrderSide) (past : List Event) (r plain : BookReplayer) : Prop where
  other : ∀ s, s ≠ consumedSide side → r.book.levels s = plain.book.levels s
  untouched : ∀ p : ℚ, takenSince exact side (.finite p) 0 {} past = 0 →
    r.book.shown (consumedSide side) (.finite p) = plain.book.shown (consumedSide side) (.finite p)
  epochs : ∀ before u during v, past = before ++ .replayed u :: during →
    u.side = consumedSide side → u.quantity = .finite v → 0 < v →
    Quiet (consumedSide side) u.price u.isSnapshot during →
    ∃ set, Lib.run (Event.step exact side) {} (before ++ [.replayed u]) = .ok set ∧
      0 ≤ takenAlong exact side u.price set during ∧
      takenAlong exact side u.price set during ≤ v ∧
      r.book.shown (consumedSide side) u.price =
        if v = takenAlong exact side u.price set during then none
        else some (.finite (v - takenAlong exact side u.price set during))

theorem run_replayed {rnd : Rounding} {rows : List BookUpdate} (ha : r.applyRows rows = .ok () r') :
    Lib.run (Event.step rnd side) r (rows.map .replayed) = .ok r' := by
  induction rows generalizing r with
  | nil =>
    cases ha
    rfl
  | cons u us ih =>
    obtain ⟨r₁, hu, hus⟩ := applyRows_cons_ok.mp ha
    exact Lib.run_cons_ok.mpr ⟨r₁, step_replayed.mpr hu, ih hus⟩

theorem enter_ok {rnd : Rounding} {initial : BookReplayer} {updates : List BookUpdate}
    {total : Double} {schedule : SliceSchedule}
    (hvalid : validateSchedule rnd total schedule = .ok ())
    (hlate : ¬ (0 < initial.stats.applied ∧
      schedule.startTimestamp < initial.stats.lastTimestamp)) :
    enter rnd initial updates total schedule =
      .ok ⟨initial, updates, { parent := { requestedQuantity := total } }⟩ := by
  unfold enter
  rw [hvalid]
  exact if_neg hlate

theorem slots_take {schedule : SliceSchedule} {Q : ℚ}
    (hvalid : validateSchedule exact (.finite Q) schedule = .ok ()) :
    (slots exact (.finite Q) schedule).take schedule.slices = slots exact (.finite Q) schedule := by
  obtain ⟨sizes, hsizes, _, _, hlength⟩ := sliceQuantities_exact (validateSchedule_ok hvalid)
  refine List.take_of_length_le ?_
  rw [slots, hsizes]
  simp [hlength]

theorem applyRows_prefix {rows rows' : List BookUpdate} (hrows : rows <+: rows')
    (ha : r.applyRows rows' = .ok () r') : ∃ r₁, r.applyRows rows = .ok () r₁ := by
  obtain ⟨rest, rfl⟩ := hrows
  rw [applyRows_append] at ha
  cases hrows : r.applyRows rows with
  | error e r₁ => rw [hrows] at ha; cases ha
  | ok x r₁ => exact ⟨r₁, rfl⟩

/-- The book at a price of an epoch, from its first row on. -/
theorem shown_epoch {before during : List Event} {v : ℚ}
    (hrun : Lib.run (Event.step exact side) {} (before ++ .replayed u :: during) = .ok r')
    (hduring : Sizes during) (hside : u.side = consumedSide side)
    (hquantity : u.quantity = .finite v)
    (hquiet : Quiet (consumedSide side) u.price u.isSnapshot during)
    (hwf : ∀ r, Lib.run (Event.step exact side) {} before = .ok r → r.book.WellFormed) :
    ∃ set, Lib.run (Event.step exact side) {} (before ++ [.replayed u]) = .ok set ∧
      0 ≤ takenAlong exact side u.price set during ∧
      takenAlong exact side u.price set during ≤ v ∧
      r'.book.shown (consumedSide side) u.price =
        if v = takenAlong exact side u.price set during then none
        else some (.finite (v - takenAlong exact side u.price set during)) := by
  rw [Lib.run_append] at hrun
  cases hr : Lib.run (Event.step exact side) {} before with
  | error e => rw [hr] at hrun; cases hrun
  | ok r =>
    rw [hr] at hrun
    obtain ⟨set, hset, hrest⟩ := Lib.run_cons_ok.mp hrun
    have ha := step_replayed.mp hset
    have hprevious : set.previousWasSnapshot = u.isSnapshot := by
      obtain ⟨_, _, _, rfl⟩ := apply_ok_inv ha
      rfl
    obtain ⟨p, _, hp, _, _, _⟩ := ((apply_ok_iff (hwf r hr)).mp ⟨set, ha⟩).2.exists
    rw [hp, ← hprevious] at hquiet
    have hfirst : resting set.book (consumedSide side) p = v := by
      rw [resting_replayed (hwf r hr) ha, if_pos ⟨hside.symm, hp.symm⟩, hquantity]
      rfl
    obtain ⟨hwf', hnonneg, heq⟩ := run_epoch (apply_wellFormed (hwf r hr) ha) hduring hquiet hrest
    rw [hfirst] at heq
    have hleft := resting_nonneg hwf' (consumedSide side) p
    rw [heq] at hleft
    refine ⟨set, ?_, ?_⟩
    · rw [Lib.run_append, hr]
      show Lib.run _ r [Event.replayed u] = _
      simp only [Lib.run, hset]
    · rw [hp]
      refine ⟨hnonneg, by linarith, ?_⟩
      rw [shown_eq hwf', heq]
      by_cases hv : v = takenAlong exact side (.finite p) set during
      · rw [if_pos hv, if_pos (by linarith)]
      · rw [if_neg hv, if_neg (sub_ne_zero.mpr hv)]

theorem slots_sizes {schedule : SliceSchedule} {Q : ℚ} (updates : List BookUpdate)
    (hvalid : validateSchedule exact (.finite Q) schedule = .ok ()) :
    Sizes (trace schedule updates (slots exact (.finite Q) schedule)) := by
  obtain ⟨sizes, hsizes, hnonneg, _⟩ := sliceQuantities_exact (validateSchedule_ok hvalid)
  intro size hsize
  rw [executedSizes_trace, slots, hsizes, List.zipIdx_map_fst, List.mem_filter] at hsize
  obtain ⟨hmem, hpos⟩ := hsize
  obtain ⟨x, hx, rfl⟩ := List.mem_map.mp hmem
  refine ⟨x, (hnonneg x hx).lt_of_ne fun h0 => ?_, rfl⟩
  rw [← h0] at hpos
  simp [Double.zero] at hpos

theorem Sizes.past {past : List Event} (hpast : past <+: events) (h : Sizes events) :
    Sizes past := by
  obtain ⟨later, rfl⟩ := hpast
  intro size hsize
  exact h size (by simp [hsize])

/-- What the slices have taken at a price since it was last set is what the two books differ by. -/
def Close (side : OrderSide) (past : List Event) (r plain : BookReplayer) : Prop :=
  ∀ (p acc : ℚ), resting ({} : BookReplayer).book (consumedSide side) p + acc =
      resting ({} : BookReplayer).book (consumedSide side) p →
    resting r.book (consumedSide side) p + takenSince exact side (.finite p) acc {} past =
      resting plain.book (consumedSide side) p

theorem moment_beside {past : List Event} {rows : List BookUpdate}
    (hrows : replayedRows past <+: rows) (hall : ({} : BookReplayer).applyRows rows = .ok () r')
    (hsizes : Sizes past) :
    ∃ r plain, Lib.run (Event.step exact side) {} past = .ok r ∧
      ({} : BookReplayer).applyRows (replayedRows past) = .ok () plain ∧ Beside side r plain ∧
      Close side past r plain := by
  have hempty : Beside side {} {} :=
    ⟨Lockstep.refl _, wellFormed_empty, wellFormed_empty, fun _ _ => rfl⟩
  obtain ⟨plain, hplain⟩ := applyRows_prefix hrows hall
  obtain ⟨r, hr, hbeside, hclose⟩ := run_beside hempty hsizes hplain
  exact ⟨r, plain, hr, hplain, hbeside, hclose⟩

/-- The rows of the history, then those the call has replayed so far. -/
theorem replayedRows_call {history updates : List BookUpdate} {schedule : SliceSchedule}
    {pairs : List (Double × Nat)} {past : List Event}
    (hpast : past <+: history.map Event.replayed ++ trace schedule updates pairs) :
    replayedRows past <+: history ++ updates := by
  have hrows : replayedRows past <+:
      replayedRows (history.map Event.replayed ++ trace schedule updates pairs) := by
    obtain ⟨later, hlater⟩ := hpast
    exact ⟨replayedRows later, by rw [← hlater, replayedRows_append]⟩
  refine hrows.trans ?_
  obtain ⟨rest, hrest⟩ := replayedRows_trace updates pairs
  refine ⟨rest, ?_⟩
  rw [replayedRows_append, replayedRows_map, List.append_assoc, hrest]

/-- A call from a replayed state, at each moment of the replay and of the call. -/
theorem displayed_once {history updates : List BookUpdate} {initial final : BookReplayer}
    {schedule : SliceSchedule} {Q : ℚ} (side : OrderSide)
    (hinitial : ({} : BookReplayer).applyRows history = .ok () initial)
    (hupdates : initial.applyRows updates = .ok () final)
    (hlate : ¬ (0 < initial.stats.applied ∧ schedule.startTimestamp < initial.stats.lastTimestamp))
    (hvalid : validateSchedule exact (.finite Q) schedule = .ok ()) :
    let events := history.map Event.replayed ++
      trace schedule updates (slots exact (.finite Q) schedule)
    (∃ done, executeSlots exact initial updates side (.finite Q) schedule schedule.slices =
        .ok done ∧ Lib.run (Event.step exact side) {} events = .ok done.replayer) ∧
    ∀ past, past <+: events → ∃ r plain, Lib.run (Event.step exact side) {} past = .ok r ∧
      ({} : BookReplayer).applyRows (replayedRows past) = .ok () plain ∧
      SoldOnce side past r plain := by
  intro events
  have hall : ({} : BookReplayer).applyRows (history ++ updates) = .ok () final := by
    rw [applyRows_append, hinitial]
    exact hupdates
  have hsizes : Sizes events := by
    intro size hsize
    refine slots_sizes updates hvalid size ?_
    simpa [events] using hsize
  have hmoment : ∀ past, past <+: events → ∃ r plain,
      Lib.run (Event.step exact side) {} past = .ok r ∧
        ({} : BookReplayer).applyRows (replayedRows past) = .ok () plain ∧ Beside side r plain ∧
        Close side past r plain :=
    fun past hpast => moment_beside (replayedRows_call hpast) hall (hsizes.past hpast)
  constructor
  · obtain ⟨r, _, hr, _⟩ := hmoment events (List.prefix_refl _)
    have hslots : (Lib.run (slot exact side schedule)
        ⟨initial, updates, { parent := { requestedQuantity := .finite Q } }⟩
        (slots exact (.finite Q) schedule)).map Execution.replayer = .ok r := by
      rw [slots_trace, ← hr, Lib.run_append, run_replayed hinitial]
      rfl
    obtain ⟨done, hdone, hreplayer⟩ := map_ok.mp hslots
    refine ⟨done, ?_, by rw [hr, hreplayer]⟩
    unfold executeSlots executeSlotsBy
    rw [enter_ok hvalid hlate, slots_take hvalid]
    exact hdone
  · intro past hpast
    obtain ⟨r, plain, hr, hplain, hbeside, hclose⟩ := hmoment past hpast
    refine ⟨r, plain, hr, hplain, ?_, ?_, ?_⟩
    · intro s hs
      exact levels_eq_of_shown hbeside.wellFormed hbeside.plain_wellFormed (hbeside.other s hs)
    · intro p hnone
      have := hclose p 0 (add_zero _)
      rw [hnone, add_zero] at this
      rw [shown_eq hbeside.wellFormed, shown_eq hbeside.plain_wellFormed, this]
    · rintro before u during v rfl hside hquantity _ hquiet
      have hbefore : before <+: events := (List.prefix_append _ _).trans hpast
      have hpastSizes := hsizes.past hpast
      refine shown_epoch hr ?_ hside hquantity hquiet ?_
      · intro size hsize
        exact hpastSizes size (by simp [hsize])
      · intro r₀ hr₀
        obtain ⟨r₁, _, hr₁, _, hbeside₁, _⟩ := hmoment before hbefore
        rw [hr₀] at hr₁
        cases hr₁
        exact hbeside₁.wellFormed

/-- A diff writes the first offer anew between two slices of a buy. -/
def rewrittenDay : List BookUpdate := [
  .snap 1000 .ask 101 3, .snap 1000 .ask 102 4, .diff 1050 .ask 101 1]

theorem displayed_once_rewrittenDay :
    let schedule : SliceSchedule := { startTimestamp := 1000, durationMs := 100, slices := 2 }
    ∀ past, past <+: trace schedule rewrittenDay (slots exact (.finite 4) schedule) →
      ∃ r plain, Lib.run (Event.step exact .buy) {} past = .ok r ∧
        ({} : BookReplayer).applyRows (replayedRows past) = .ok () plain ∧
        SoldOnce .buy past r plain := by
  have hempty : ({} : BookReplayer).applyRows [] = .ok () {} := rfl
  have hday : ({} : BookReplayer).applyRows rewrittenDay =
      .ok () (({} : BookReplayer).applyRows rewrittenDay).state := by decide +kernel
  intro schedule
  have hvalid : validateSchedule exact (.finite 4) schedule = .ok () := by decide +kernel
  exact (displayed_once .buy hempty hday (fun hlate => absurd hlate.1 (by decide)) hvalid).2

end Impact
end PerpCarry
