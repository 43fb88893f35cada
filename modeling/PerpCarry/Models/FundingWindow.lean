import PerpCarry.Lib.EventRun
import PerpCarry.Lib.KeyCut
import PerpCarry.Lib.KeyRuns
import PerpCarry.Models.FundingWalkForward

/-!
# Models.FundingWindow

The rolling history against the full one.

`RollingFundingModel` forgets: a change of cadence clears its rows, and rows too old for the newest
one are evicted. `window` selects from every observation ever accepted. `Remembers` relates the two:
what was forgotten is what no later window can select.

* `updateInPlace_eq`: a call of `update` that raises has not touched the state.
* `observe_remembers`: one call, accepted or rejected, keeps the relation.
* `Remembers.selection_at`: every selection is the window of the full history.
* `observeAll_refines`: for every sequence of calls.
-/

namespace PerpCarry
namespace Models

open Lib
open Strategy (bind_ok pure_ok)

/-! ## The full history -/

section FullHistory

variable {K : Type}

/-- The observations at the current cadence. -/
def current (accepted : List (Observation K)) : List (Observation K) :=
  lastRun (·.intervalHours) accepted

/-- Those of them that are not older than the rolling days. -/
def window (rollingDays asOf : Int) (accepted : List (Observation K)) : List (Observation K) :=
  (current accepted).filter fun row => asOf - rollingDays * DAY_MS ≤ row.timeMs

/-- The newest observation is older than its interval and the jitter. -/
def Stale (accepted : List (Observation K)) (asOf : Int) : Prop :=
  ∃ newest ∈ accepted.getLast?,
    newest.intervalHours * HOUR_MS + JITTER_MS < asOf - newest.timeMs

/-- Not before the newest observation. -/
def NotBefore (accepted : List (Observation K)) (asOf : Int) : Prop :=
  ∀ newest ∈ accepted.getLast?, newest.timeMs ≤ asOf

variable {accepted : List (Observation K)} {row : Observation K} {days asOf : Int}

/-- A window inside a window is the window of its later bound. -/
theorem window_later {later : Int} (hle : asOf ≤ later) :
    (window days asOf accepted).filter (fun row => later - days * DAY_MS ≤ row.timeMs) =
      window days later accepted := by
  refine filter_both fun row => ?_
  simp only [decide_eq_true_eq]
  constructor
  · exact fun h => h.1
  · exact fun h => ⟨h, by omega⟩

/-- Eviction is a window: on rows in order of time, what is taken off the front is what is too
old. -/
theorem evict_filter {rows : List (Observation K)} {cutoff : Int}
    (h : rows.Pairwise fun a b => a.timeMs < b.timeMs) :
    (rows.dropWhile fun row => row.timeMs < cutoff) = rows.filter fun row => cutoff ≤ row.timeMs :=
  Nondecreasing.dropWhile_lt (h.imp fun hab => hab.le)

theorem increasing_concat (h : accepted.Pairwise fun a b => a.timeMs < b.timeMs)
    (hlater : ∀ newest ∈ accepted.getLast?, newest.timeMs < row.timeMs) :
    (accepted ++ [row]).Pairwise fun a b => a.timeMs < b.timeMs := by
  rw [List.pairwise_append]
  refine ⟨h, List.pairwise_singleton _ _, ?_⟩
  intro a ha b hb
  cases List.mem_singleton.mp hb
  cases hlast : accepted.getLast? with
  | none =>
    rw [List.getLast?_eq_none_iff.mp hlast] at ha
    cases ha
  | some newest =>
    refine lt_of_le_of_lt ?_ (hlater newest hlast)
    obtain ⟨front, rfl⟩ := List.getLast?_eq_some_iff.mp hlast
    rcases List.mem_append.mp ha with hfront | hsame
    · exact ((List.pairwise_append.mp h).2.2 a hfront newest (List.mem_singleton_self _)).le
    · rw [List.mem_singleton.mp hsame]

end FullHistory

variable {K : Type} [Field K]

/-! ## Calls -/

/-- The arguments of a call of `update`. -/
structure Update (K : Type) where
  fundingTime : Cell K
  fundingRate : Cell K
  intervalHours : Cell K
  deriving DecidableEq

/-- The row of a call whose arguments are numbers. -/
def Update.read (u : Update K) : Except Raised (Observation K) := do
  let timestamp ← u.fundingTime.toInteger "funding_time" 0
  let hours ← u.intervalHours.toInteger "interval_hours" 1
  let rate ← u.fundingRate.toRate hours
  return ⟨timestamp, rate, hours⟩

theorem Update.read_ok {u : Update K} {row : Observation K} (h : u.read = .ok row) :
    0 ≤ row.timeMs ∧ 1 ≤ row.intervalHours := by
  unfold Update.read at h
  simp only [bind_ok, pure_ok] at h
  obtain ⟨timestamp, htime, hours, hhours, rate, _, rfl⟩ := h
  constructor
  · cases hcell : u.fundingTime with
    | int value =>
      rw [hcell] at htime
      simp only [Cell.toInteger, bind_ok, integer, raiseWhen_ok, pure_ok] at htime
      obtain ⟨_, hnonneg, rfl⟩ := htime
      exact not_lt.mp hnonneg
    | _ =>
      rw [hcell] at htime
      cases htime
  · cases hcell : u.intervalHours with
    | int value =>
      rw [hcell] at hhours
      simp only [Cell.toInteger, bind_ok, integer, raiseWhen_ok, pure_ok] at hhours
      obtain ⟨_, hpos, rfl⟩ := hhours
      exact not_lt.mp hpos
    | _ =>
      rw [hcell] at hhours
      cases hhours

variable [LinearOrder K]

namespace RollingFundingModel

/-- The end of `update`: the row is appended, and what is too old is taken off the front. -/
def accept (self : RollingFundingModel K) (row : Observation K) : RollingFundingModel K :=
  let cutoff := row.timeMs - self.rollingDays * DAY_MS
  { self with history := (self.history ++ [row]).dropWhile fun row => row.timeMs < cutoff }

/-- `update` in the order of the source: what it raises, and the state that it leaves. -/
def updateInPlace (self : RollingFundingModel K) (u : Update K) :
    Option Raised × RollingFundingModel K :=
  match u.read with
  | .error e => (some e, self)
  | .ok row =>
    if 24 < row.intervalHours ∨ (3602879701896397 : Nat) / (2 ^ 56 : Nat) < |row.rate| then
      (some ⟨.fundingHistoryError,
        "invalid cadence or funding fraction outside sanity bound"⟩, self)
    else
      match self.history.getLast? with
      | none => (none, self.accept row)
      | some previous =>
        if row.timeMs ≤ previous.timeMs then
          (some ⟨.fundingHistoryError, "funding times must be strictly increasing"⟩, self)
        else if JITTER_MS < |row.timeMs - previous.timeMs - row.intervalHours * HOUR_MS| then
          (some ⟨.fundingHistoryError, "missing or irregular funding settlement"⟩, self)
        else if row.intervalHours ≠ previous.intervalHours then
          (none, accept { self with
            history := []
            cadenceResets := self.cadenceResets + 1 } row)
        else (none, self.accept row)

/-- A call, beside the observations that were accepted so far. -/
def observe (s : RollingFundingModel K × List (Observation K)) (u : Update K) :
    RollingFundingModel K × List (Observation K) :=
  match s.1.updateInPlace u with
  | (none, model) => (model, s.2 ++ u.read.toOption.toList)
  | (some _, model) => (model, s.2)

/-- The model after some calls, and all the observations they got accepted. -/
def observeAll (self : RollingFundingModel K) (us : List (Update K)) :
    RollingFundingModel K × List (Observation K) :=
  us.foldl observe (self, [])

/-- The time a selection is made for; without `as_of`, that of the newest row. -/
def decisionTime (self : RollingFundingModel K) (asOf : Option Int) : Int :=
  asOf.getD ((self.history.getLast?.map (·.timeMs)).getD 0)

end RollingFundingModel

/-! ## The model beside the full history -/

/-- The three readers of a model see these rows. -/
structure TrainsOn (m : RollingFundingModel K) (asOf : Int) (rows : List (Observation K))
    (nonempty : rows ≠ []) : Prop where
  posterior : m.posterior (.int asOf) =
    fit (rows.map (·.rate)) (rows.getLast nonempty).intervalHours m.prior
  summary : m.trainingSummary (.int asOf) = .ok {
    asOf
    trainingFirstTime := (rows.head nonempty).timeMs
    lastObservationTime := (rows.getLast nonempty).timeMs
    trainingSettlements := rows.length
    intervalHours := (rows.getLast nonempty).intervalHours
    cadenceResets := m.cadenceResets
    lastFundingRate := (rows.getLast nonempty).rate }
  cumulative : ∀ (paths : Paths K) (horizon draws seed : Int), 1 ≤ horizon → 2 ≤ draws →
    0 ≤ seed → m.predictCumulativeFunding paths horizon asOf draws seed =
      (paths (rows.map (·.rate)) (rows.getLast nonempty).intervalHours m.prior horizon draws
        seed).map fun samples => ⟨samples, horizon, (rows.getLast nonempty).intervalHours, asOf,
          (rows.getLast nonempty).timeMs, (rows.head nonempty).timeMs, rows.length, seed⟩

/-- The three readers of a model raise this. -/
structure Refuses (m : RollingFundingModel K) (asOf : Int) (e : Raised) : Prop where
  posterior : m.posterior (.int asOf) = .error e
  summary : m.trainingSummary (.int asOf) = .error e
  cumulative : ∀ (paths : Paths K) (horizon draws seed : Int), 1 ≤ horizon → 2 ≤ draws →
    0 ≤ seed → m.predictCumulativeFunding paths horizon asOf draws seed = .error e

/-- A model beside everything it has accepted. -/
structure Remembers (m : RollingFundingModel K) (accepted : List (Observation K)) : Prop where
  increasing : accepted.Pairwise fun a b => a.timeMs < b.timeMs
  nonneg : ∀ row ∈ accepted, 0 ≤ row.timeMs
  newest : m.history.getLast? = accepted.getLast?
  resets : m.cadenceResets = changes (·.intervalHours) accepted
  kept : ∀ newest ∈ accepted.getLast?, m.history = window m.rollingDays newest.timeMs accepted

namespace RollingFundingModel

variable {m : RollingFundingModel K} {accepted : List (Observation K)} {u : Update K}
  {row : Observation K}

/-- What an accepted call has passed, and what it does. -/
theorem updateInPlace_ok {m' : RollingFundingModel K} (h : m.updateInPlace u = (none, m')) :
    ∃ row, u.read = .ok row ∧ (∀ previous ∈ m.history.getLast?, previous.timeMs < row.timeMs) ∧
      (Differs (·.intervalHours) m.history.getLast? row ∧
          m' = accept { m with history := [], cadenceResets := m.cadenceResets + 1 } row ∨
        ¬ Differs (·.intervalHours) m.history.getLast? row ∧ m' = m.accept row) := by
  unfold updateInPlace at h
  split at h
  · cases h
  · rename_i row hrow
    split at h
    · cases h
    · split at h
      · rename_i hnone
        cases h
        rw [hnone]
        refine ⟨row, hrow, ?_, .inr ⟨?_, rfl⟩⟩
        · rintro _ ⟨⟩
        · rintro ⟨_, ⟨⟩, _⟩
      · rename_i previous hprevious
        rw [hprevious]
        split at h
        · cases h
        · rename_i hlater
          split at h
          · cases h
          · have hincreasing : ∀ p ∈ some previous, p.timeMs < row.timeMs := by
              rintro _ ⟨⟩
              exact not_le.mp hlater
            split at h
            · rename_i hdiffers
              cases h
              exact ⟨row, hrow, hincreasing, .inl ⟨⟨previous, rfl, Ne.symm hdiffers⟩, rfl⟩⟩
            · rename_i hsame
              cases h
              refine ⟨row, hrow, hincreasing, .inr ⟨?_, rfl⟩⟩
              rintro ⟨_, ⟨⟩, hne⟩
              exact hne (not_not.mp hsame).symm

theorem updateInPlace_error {m' : RollingFundingModel K} {e : Raised}
    (h : m.updateInPlace u = (some e, m')) : m' = m := by
  unfold updateInPlace at h
  split at h
  · cases h
    rfl
  · split at h
    · cases h
      rfl
    · split at h
      · cases h
      · split at h
        · cases h
          rfl
        · split at h
          · cases h
            rfl
          · split at h
            · cases h
            · cases h

theorem updateCells_read (m : RollingFundingModel K) (u : Update K) :
    m.updateCells u.fundingTime u.fundingRate u.intervalHours =
      u.read >>= fun row => m.update row.timeMs row.rate row.intervalHours := by
  unfold updateCells Update.read
  simp only [bind_assoc, pure_bind]

/-- `update` raises what it raises in place, and returns what it leaves in place. -/
theorem updateInPlace_eq (m : RollingFundingModel K) (u : Update K) :
    m.updateInPlace u =
      match m.updateCells u.fundingTime u.fundingRate u.intervalHours with
      | .ok m' => (none, m')
      | .error e => (some e, m) := by
  rw [updateCells_read]
  unfold updateInPlace
  cases hread : u.read with
  | error e => rfl
  | ok row =>
    obtain ⟨htime, hhours⟩ := Update.read_ok hread
    have htime' : integer row.timeMs "funding_time" 0 = .ok () := by
      simp [integer, htime]
    have hhours' : integer row.intervalHours "interval_hours" 1 = .ok () := by
      simp [integer, hhours]
    simp only [bind, Except.bind, update, htime', hhours', accept, raiseWhen]
    by_cases hbound : 24 < row.intervalHours ∨ (3602879701896397 : Nat) / (2 ^ 56 : Nat) < |row.rate|
    · rw [if_pos hbound, if_pos hbound]
    · rw [if_neg hbound, if_neg hbound]
      cases hlast : m.history.getLast? with
      | none =>
        simp only [follows, resets, hlast]
        rfl
      | some previous =>
        simp only [follows, resets, hlast, bind, Except.bind, raiseWhen]
        by_cases hlate : row.timeMs ≤ previous.timeMs
        · rw [if_pos hlate, if_pos hlate]
        · rw [if_neg hlate, if_neg hlate]
          by_cases hjitter :
            JITTER_MS < |row.timeMs - previous.timeMs - row.intervalHours * HOUR_MS|
          · rw [if_pos hjitter, if_pos hjitter]
          · rw [if_neg hjitter, if_neg hjitter]
            by_cases hcadence : row.intervalHours = previous.intervalHours
            · obtain ⟨time, rate, hours⟩ := row
              subst hcadence
              simp [pure, Except.pure]
            · simp [hcadence, pure, Except.pure]

end RollingFundingModel

namespace Remembers

open RollingFundingModel

variable {m m' : RollingFundingModel K} {accepted : List (Observation K)} {u : Update K}
  {row : Observation K} {asOf : Int}

theorem fresh (hhistory : m.history = []) (hresets : m.cadenceResets = 0) : Remembers m [] where
  increasing := List.Pairwise.nil
  nonneg := fun _ hrow => nomatch hrow
  newest := by rw [hhistory]
  resets := hresets
  kept := fun _ hnewest => nomatch hnewest

/-- The rows of a model are the window that its newest row sees. -/
theorem history_current (h : Remembers m accepted) :
    m.history.Pairwise (fun a b => a.timeMs < b.timeMs) ∧
      ∀ row ∈ m.history, row ∈ current accepted := by
  cases hlast : accepted.getLast? with
  | none =>
    have hempty := h.newest.trans hlast
    rw [List.getLast?_eq_none_iff.mp hempty]
    exact ⟨List.Pairwise.nil, fun _ hrow => nomatch hrow⟩
  | some newest =>
    rw [h.kept newest hlast]
    refine ⟨(h.increasing.sublist (lastRun_suffix accepted).sublist).filter _, ?_⟩
    exact fun row hrow => (List.mem_filter.mp hrow).1

/-- The rows in the window of `asOf` are still there. -/
theorem selected (h : Remembers m accepted) (hasOf : NotBefore accepted asOf) :
    m.history.filter (fun row => asOf - m.rollingDays * DAY_MS ≤ row.timeMs) =
      window m.rollingDays asOf accepted := by
  cases hlast : accepted.getLast? with
  | none =>
    have hempty := h.newest.trans hlast
    rw [List.getLast?_eq_none_iff.mp hempty, List.getLast?_eq_none_iff.mp hlast]
    rfl
  | some newest =>
    rw [h.kept newest hlast]
    exact window_later (hasOf newest hlast)

/-- An accepted row that follows: `kept` is what remains of the rows before it. -/
theorem accept_kept {kept : List (Observation K)} (h : Remembers m accepted)
    (hlater : ∀ newest ∈ accepted.getLast?, newest.timeMs < row.timeMs)
    (hnonneg : 0 ≤ row.timeMs) (hrows : kept.Pairwise fun a b => a.timeMs < b.timeMs)
    (hkept : ∀ old ∈ kept, old ∈ accepted)
    (hcurrent : (kept ++ [row]).filter (fun r => row.timeMs - m.rollingDays * DAY_MS ≤ r.timeMs) =
      window m.rollingDays row.timeMs (accepted ++ [row])) (resets : Nat)
    (hresets : resets = changes (·.intervalHours) (accepted ++ [row])) :
    Remembers (accept { m with history := kept, cadenceResets := resets } row)
      (accepted ++ [row]) := by
  have hincreasing := increasing_concat h.increasing hlater
  have hsorted : (kept ++ [row]).Pairwise fun a b => a.timeMs < b.timeMs := by
    refine increasing_concat hrows fun newest hnewest => ?_
    have hmem := hkept newest (List.mem_of_getLast? hnewest)
    exact (List.pairwise_append.mp hincreasing).2.2 newest hmem row (List.mem_singleton_self row)
  have hhistory : (accept { m with history := kept, cadenceResets := resets } row).history =
      window m.rollingDays row.timeMs (accepted ++ [row]) := by
    rw [← hcurrent, ← evict_filter hsorted]
    rfl
  constructor
  · exact hincreasing
  · intro old hold
    rcases List.mem_append.mp hold with hold | hnew
    · exact h.nonneg old hold
    · rw [List.mem_singleton.mp hnew]
      exact hnonneg
  · have hrolling := m.rolling_pos
    rw [hhistory, ← hcurrent, List.filter_append]
    have hself :
        [row].filter (fun r => row.timeMs - m.rollingDays * DAY_MS ≤ r.timeMs) = [row] := by
      rw [List.filter_eq_self]
      intro r hr
      rw [List.mem_singleton.mp hr, decide_eq_true_eq]
      unfold DAY_MS
      omega
    rw [hself]
    simp
  · exact hresets
  · intro newest hnewest
    rw [List.getLast?_concat] at hnewest
    cases hnewest
    exact hhistory

theorem observe_remembers {s : RollingFundingModel K × List (Observation K)}
    (h : Remembers s.1 s.2) (u : Update K) :
    Remembers (observe s u).1 (observe s u).2 := by
  unfold observe
  split
  · rename_i m' hcall
    obtain ⟨row, hread, hlater, hcase⟩ := updateInPlace_ok hcall
    have hnonneg := (Update.read_ok hread).1
    rw [h.newest] at hlater hcase
    rw [hread]
    show Remembers m' (s.2 ++ [row])
    rcases hcase with ⟨hdiffers, rfl⟩ | ⟨hsame, rfl⟩
    · refine accept_kept h hlater hnonneg List.Pairwise.nil (fun _ hold => nomatch hold) ?_ _ ?_
      · unfold window current
        rw [lastRun_concat, if_pos hdiffers]
        rfl
      · rw [changes_concat, if_pos hdiffers, h.resets]
    · obtain ⟨hsorted, hmem⟩ := h.history_current
      refine accept_kept h hlater hnonneg hsorted
        (fun old hold => (lastRun_suffix s.2).subset (hmem old hold)) ?_ s.1.cadenceResets ?_
      · unfold window current
        rw [lastRun_concat, if_neg hsame, List.filter_append, List.filter_append]
        congr 1
        exact h.selected fun newest hnewest => (hlater newest hnewest).le
      · rw [changes_concat, if_neg hsame, h.resets, Nat.add_zero]
  · rename_i e m' hcall
    rw [updateInPlace_error hcall]
    exact h

theorem observeAll_remembers (hhistory : m.history = []) (hresets : m.cadenceResets = 0)
    (us : List (Update K)) : Remembers (m.observeAll us).1 (m.observeAll us).2 := by
  unfold observeAll
  have hstart : Remembers (m, ([] : List (Observation K))).1 (m, []).2 := fresh hhistory hresets
  generalize (m, ([] : List (Observation K))) = s at hstart
  induction us generalizing s with
  | nil => exact hstart
  | cons u us ih => exact ih _ (observe_remembers hstart u)

/-! ## Selections -/

variable {newest : Observation K}

theorem history_ne_nil (h : Remembers m accepted) (hlast : accepted.getLast? = some newest) :
    m.history ≠ [] := by
  intro hempty
  rw [← h.newest, hempty] at hlast
  cases hlast

theorem asOf_nonneg (h : Remembers m accepted) (hlast : accepted.getLast? = some newest)
    (hasOf : NotBefore accepted asOf) : 0 ≤ asOf :=
  (h.nonneg newest (List.mem_of_getLast? hlast)).trans (hasOf newest hlast)

theorem selection_at (h : Remembers m accepted) (hlast : accepted.getLast? = some newest)
    (hasOf : NotBefore accepted asOf) :
    (m.selection asOf).map Subtype.val =
      if newest.intervalHours * HOUR_MS + JITTER_MS < asOf - newest.timeMs then
        .error ⟨.fundingModelUnavailable, "stale funding history"⟩
      else if (window m.rollingDays asOf accepted).length < m.minSettlements then
        .error ⟨.fundingModelUnavailable, "insufficient current-cadence rolling history"⟩
      else .ok (window m.rollingDays asOf accepted) := by
  have hlater := hasOf newest hlast
  have hinteger : integer asOf "as_of" 0 = .ok () := by
    simp only [integer, raiseWhen_ok]
    exact not_lt.mpr (h.asOf_nonneg hlast hasOf)
  have hselected := h.selected hasOf
  unfold selection
  rw [h.newest.trans hlast]
  simp only [hinteger, bind, Except.bind, raiseWhen, if_neg (not_lt.mpr hlater)]
  by_cases hstale : newest.intervalHours * HOUR_MS + JITTER_MS < asOf - newest.timeMs
  · simp only [if_pos hstale]
    rfl
  · simp only [if_neg hstale, hselected]
    split
    · rfl
    · rfl

theorem selectionAt_int (hhistory : m.history ≠ []) (hnonneg : 0 ≤ asOf) :
    m.selectionAt (.int asOf) = (m.selection asOf).map fun rows => (asOf, rows) := by
  have hinteger : integer asOf "as_of" 0 = .ok () := by
    simp [integer, hnonneg]
  unfold selectionAt
  rw [if_neg (by simpa using hhistory)]
  simp only [Cell.toInteger, hinteger, bind, Except.bind, pure, Except.pure]
  cases m.selection asOf with
  | error e => rfl
  | ok rows => rfl

theorem trains_of_selection (hhistory : m.history ≠ []) (hnonneg : 0 ≤ asOf)
    {rows : { rows : List (Observation K) // rows ≠ [] }} (hrows : m.selection asOf = .ok rows) :
    TrainsOn m asOf rows.val rows.property := by
  have hat := selectionAt_int hhistory hnonneg
  rw [hrows] at hat
  constructor
  · unfold posterior
    rw [hat]
    rfl
  · unfold trainingSummary
    rw [hat]
    rfl
  · intro paths horizon draws seed hhorizon hdraws hseed
    unfold predictCumulativeFunding
    simp only [integer, raiseWhen, if_neg (not_lt.mpr hhorizon), if_neg (not_lt.mpr hdraws),
      if_neg (not_lt.mpr hseed), hrows, bind, Except.bind, pure, Except.pure]
    cases paths (rows.val.map (·.rate)) (rows.val.getLast rows.property).intervalHours m.prior
        horizon draws seed with
    | error e => rfl
    | ok samples => rfl

theorem cumulative_error {e : Raised} (herror : m.selection asOf = .error e) (paths : Paths K)
    {horizon draws seed : Int} (hhorizon : 1 ≤ horizon) (hdraws : 2 ≤ draws) (hseed : 0 ≤ seed) :
    m.predictCumulativeFunding paths horizon asOf draws seed = .error e := by
  unfold predictCumulativeFunding
  simp only [integer, raiseWhen, if_neg (not_lt.mpr hhorizon), if_neg (not_lt.mpr hdraws),
    if_neg (not_lt.mpr hseed), herror, bind, Except.bind]

theorem refuses_of_selection (hhistory : m.history ≠ []) (hnonneg : 0 ≤ asOf) {e : Raised}
    (herror : m.selection asOf = .error e) : Refuses m asOf e := by
  have hat := selectionAt_int hhistory hnonneg
  rw [herror] at hat
  constructor
  · unfold posterior
    rw [hat]
    rfl
  · unfold trainingSummary
    rw [hat]
    rfl
  · exact fun paths _ _ _ => cumulative_error herror paths

theorem refuses_empty (hhistory : m.history = []) (asOf : Int) :
    Refuses m asOf ⟨.fundingModelUnavailable, "no observed funding history"⟩ := by
  constructor
  · unfold posterior selectionAt
    rw [hhistory]
    rfl
  · unfold trainingSummary selectionAt
    rw [hhistory]
    rfl
  · have hnone : m.history.getLast? = none := by rw [hhistory, List.getLast?_nil]
    have herror : m.selection asOf =
        .error ⟨.fundingModelUnavailable, "no observed funding history"⟩ := by
      unfold selection
      rw [hnone]
    exact fun paths _ _ _ => cumulative_error herror paths

theorem available (h : Remembers m accepted) (hasOf : NotBefore accepted asOf)
    (hne : accepted ≠ []) (hfresh : ¬ Stale accepted asOf)
    (henough : m.minSettlements ≤ (window m.rollingDays asOf accepted).length) :
    ∃ nonempty, TrainsOn m asOf (window m.rollingDays asOf accepted) nonempty := by
  obtain ⟨newest, hlast⟩ := Option.ne_none_iff_exists'.mp (mt List.getLast?_eq_none_iff.mp hne)
  have hhistory := h.history_ne_nil hlast
  have hnonneg := h.asOf_nonneg hlast hasOf
  have hrows := h.selection_at hlast hasOf
  rw [if_neg fun hstale => hfresh ⟨newest, hlast, hstale⟩, if_neg (not_lt.mpr henough)] at hrows
  obtain ⟨rows, hselection, hwindow⟩ := map_ok.mp hrows
  rw [← hwindow]
  exact ⟨rows.property, trains_of_selection hhistory hnonneg hselection⟩

theorem unavailable (h : Remembers m accepted) (hasOf : NotBefore accepted asOf)
    (hbad : accepted = [] ∨ Stale accepted asOf ∨
      (window m.rollingDays asOf accepted).length < m.minSettlements) :
    ∃ e, e.kind = .fundingModelUnavailable ∧ Refuses m asOf e := by
  cases hlast : accepted.getLast? with
  | none =>
    have hempty := List.getLast?_eq_none_iff.mp (h.newest.trans hlast)
    exact ⟨_, rfl, refuses_empty hempty asOf⟩
  | some newest =>
    have hhistory := h.history_ne_nil hlast
    have hnonneg := h.asOf_nonneg hlast hasOf
    have hrows := h.selection_at hlast hasOf
    by_cases hstale : newest.intervalHours * HOUR_MS + JITTER_MS < asOf - newest.timeMs
    · rw [if_pos hstale] at hrows
      exact ⟨_, rfl, refuses_of_selection hhistory hnonneg (map_error.mp hrows)⟩
    · have hfew : (window m.rollingDays asOf accepted).length < m.minSettlements := by
        rcases hbad with rfl | ⟨_, hnewest, hold⟩ | hfew
        · cases hlast
        · cases hlast.symm.trans hnewest
          exact absurd hold hstale
        · exact hfew
      rw [if_neg hstale, if_pos hfew] at hrows
      exact ⟨_, rfl, refuses_of_selection hhistory hnonneg (map_error.mp hrows)⟩

/-- What is no longer there, no selection from now on could see. -/
theorem forgotten (h : Remembers m accepted) (hrow : row ∈ current accepted)
    (hgone : row ∉ m.history) (hasOf : NotBefore accepted asOf) :
    row.timeMs < asOf - m.rollingDays * DAY_MS := by
  by_contra hseen
  refine hgone ?_
  have hmem : row ∈ window m.rollingDays asOf accepted :=
    List.mem_filter.mpr ⟨hrow, decide_eq_true (not_lt.mp hseen)⟩
  rw [← h.selected hasOf] at hmem
  exact (List.mem_filter.mp hmem).1

end Remembers

/-! ## Every sequence of calls -/

/-- A model against everything it has accepted: the windows are those of the full history, and
nothing a window could need is gone. -/
structure RefinesWindow (m : RollingFundingModel K) (accepted : List (Observation K)) : Prop where
  resets : m.cadenceResets = changes (·.intervalHours) accepted
  newest : m.history.getLast? = accepted.getLast?
  forgotten : ∀ row ∈ current accepted, row ∉ m.history → ∀ asOf, NotBefore accepted asOf →
    row.timeMs < asOf - m.rollingDays * DAY_MS
  rejected : ∀ u e m', m.updateInPlace u = (some e, m') → m' = m
  available : ∀ asOf time, m.decisionTime asOf = time → NotBefore accepted time →
    accepted ≠ [] → ¬ Stale accepted time →
    m.minSettlements ≤ (window m.rollingDays time accepted).length →
    ∃ nonempty, TrainsOn m time (window m.rollingDays time accepted) nonempty
  unavailable : ∀ asOf time, m.decisionTime asOf = time → NotBefore accepted time →
    accepted = [] ∨ Stale accepted time ∨
      (window m.rollingDays time accepted).length < m.minSettlements →
    ∃ e, e.kind = .fundingModelUnavailable ∧ Refuses m time e

theorem observeAll_refines {m : RollingFundingModel K} (hhistory : m.history = [])
    (hresets : m.cadenceResets = 0) (us : List (Update K)) :
    RefinesWindow (m.observeAll us).1 (m.observeAll us).2 := by
  have h := Remembers.observeAll_remembers hhistory hresets us
  exact {
    resets := h.resets
    newest := h.newest
    forgotten := fun row hrow hgone asOf hasOf => h.forgotten hrow hgone hasOf
    rejected := fun u e m' hcall => RollingFundingModel.updateInPlace_error hcall
    available := fun _ _ _ hasOf => h.available hasOf
    unavailable := fun _ _ _ hasOf => h.unavailable hasOf }

/-! ## A change of cadence -/

def fortnightModel : RollingFundingModel ℚ where
  rollingDays := 14
  minSettlements := 3
  prior := FundingWalkForward.flatPrior
  rolling_pos := by norm_num
  min_three := le_refl 3

/-- Two rows of eight hours, one that is refused, and three of four hours. -/
def cadenceCalls : List (Update ℚ) := [
  ⟨.int 0, .float 0, .int 8⟩, ⟨.int 28800000, .float 0, .int 8⟩,
  ⟨.int 43200000, .nan, .int 4⟩,
  ⟨.int 43200000, .float 0, .int 4⟩, ⟨.int 57600000, .float 0, .int 4⟩,
  ⟨.int 72000000, .float 0, .int 4⟩]

theorem observeAll_refines_cadence :
    (fortnightModel.observeAll cadenceCalls).2.length = 5 ∧
      (fortnightModel.observeAll cadenceCalls).1.cadenceResets = 1 ∧
      RefinesWindow (fortnightModel.observeAll cadenceCalls).1
        (fortnightModel.observeAll cadenceCalls).2 :=
  ⟨by decide +kernel, by decide +kernel, observeAll_refines rfl rfl cadenceCalls⟩

end Models
end PerpCarry
