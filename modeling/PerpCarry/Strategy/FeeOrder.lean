import Mathlib.Algebra.Field.Rat
import Mathlib.Data.List.Perm.Lattice
import Mathlib.Tactic.NormNum
import PerpCarry.Strategy.Fees

/-!
# Strategy.FeeOrder

A fee schedule does not depend on the order of its periods.

`quote` stops at the first period that covers the instant, whatever it then decides. On periods that
do not overlap there is no other.

* `make_ok`: the lists a schedule can be made of.
* `covering_le_one`: at most one period covers an instant.
* `quote_covering`: the quote, from the periods that cover the instant.
* `quotes_unordered`: two schedules of the same periods.
-/

namespace PerpCarry
namespace Strategy

variable {K : Type} [Field K] [LinearOrder K]

namespace FeePeriod

theorem Overlaps.symm {left right : FeePeriod K} (h : left.Overlaps right) :
    right.Overlaps left := by
  obtain ⟨hscope, hspan⟩ := h
  refine ⟨hscope.symm, ?_⟩
  rwa [max_comm, min_comm]

theorem covers_iff {period : FeePeriod K} {symbol : String} {market : Market} {timeMs : Int} :
    period.covers symbol market timeMs = true ↔
      period.symbol = symbol ∧ period.market = market ∧
        period.startMs ≤ timeMs ∧ timeMs < period.endMs := by
  rw [covers, decide_eq_true_eq]

theorem overlaps_of_covers {left right : FeePeriod K} {symbol : String} {market : Market}
    {timeMs : Int} (hleft : left.covers symbol market timeMs = true)
    (hright : right.covers symbol market timeMs = true) : left.Overlaps right := by
  obtain ⟨hs, hm, hstart, hend⟩ := covers_iff.mp hleft
  obtain ⟨hs', hm', hstart', hend'⟩ := covers_iff.mp hright
  refine ⟨by rw [hs, hm, hs', hm'], ?_⟩
  exact (max_le hstart hstart').trans_lt (lt_min hend hend')

end FeePeriod

namespace FeeSchedule

variable {periods periods' : List (FeePeriod K)} {allow : Bool} {schedule schedule' : FeeSchedule K}

/-- The lists that a schedule can be made of. -/
def Admissible (periods : List (FeePeriod K)) : Prop :=
  periods ≠ [] ∧ periods.Pairwise fun left right => ¬ left.Overlaps right

theorem make_ok : make periods allow = .ok schedule ↔
    Admissible periods ∧ schedule.periods = periods ∧ schedule.allowAssumptions = allow := by
  unfold make
  split
  · rename_i hempty
    constructor
    · rintro ⟨⟩
    · rintro ⟨⟨hne, -⟩, -, -⟩
      exact absurd hempty hne
  · rename_i hne
    split
    · rename_i hdisjoint
      constructor
      · rintro ⟨⟩
        exact ⟨⟨hne, hdisjoint⟩, rfl, rfl⟩
      · rintro ⟨-, rfl, rfl⟩
        rfl
    · rename_i hoverlap
      constructor
      · rintro ⟨⟩
      · rintro ⟨⟨-, hdisjoint⟩, -, -⟩
        exact absurd hdisjoint hoverlap

theorem make_accepts : (∃ schedule, make periods allow = .ok schedule) ↔ Admissible periods := by
  constructor
  · rintro ⟨schedule, h⟩
    exact (make_ok.mp h).1
  · intro h
    exact ⟨⟨periods, allow, h.1, h.2⟩, make_ok.mpr ⟨h, rfl, rfl⟩⟩

theorem Admissible.perm (hperm : periods.Perm periods') :
    Admissible periods ↔ Admissible periods' := by
  unfold Admissible
  refine and_congr ?_ (hperm.pairwise_iff fun h h' => h h'.symm)
  exact not_congr ⟨fun h => List.nil_perm.mp (h ▸ hperm), fun h => List.perm_nil.mp (h ▸ hperm)⟩

/-- The periods that cover an instant of a market. -/
def covering (periods : List (FeePeriod K)) (symbol : String) (market : Market) (timeMs : Int) :
    List (FeePeriod K) :=
  periods.filter fun period => period.covers symbol market timeMs

theorem covering_le_one (h : Admissible periods) (symbol : String) (market : Market)
    (timeMs : Int) : (covering periods symbol market timeMs).length ≤ 1 := by
  match hfound : covering periods symbol market timeMs with
  | [] => exact Nat.zero_le _
  | [_] => exact Nat.le_refl _
  | left :: right :: rest =>
    have hpair : (covering periods symbol market timeMs).Pairwise fun a b => ¬ a.Overlaps b :=
      h.2.filter _
    have hcovers : ∀ p ∈ covering periods symbol market timeMs,
        p.covers symbol market timeMs = true := fun p hp => (List.mem_filter.mp hp).2
    rw [hfound] at hpair hcovers
    exact absurd (FeePeriod.overlaps_of_covers (hcovers left (by simp)) (hcovers right (by simp)))
      (List.rel_of_pairwise_cons hpair List.mem_cons_self)

theorem covering_perm (h : Admissible periods) (hperm : periods.Perm periods') (symbol : String)
    (market : Market) (timeMs : Int) :
    covering periods symbol market timeMs = covering periods' symbol market timeMs := by
  have hcover : (covering periods symbol market timeMs).Perm
      (covering periods' symbol market timeMs) := hperm.filter _
  have hone := covering_le_one h symbol market timeMs
  match hfound : covering periods symbol market timeMs with
  | [] => rw [hfound] at hcover; exact (List.nil_perm.mp hcover).symm
  | [period] => rw [hfound] at hcover; exact List.singleton_perm.mp hcover
  | _ :: _ :: _ => rw [hfound] at hone; simp at hone

/-- What is quoted from a period that covers the instant. -/
def quotePeriod (allow : Bool) (timeMs : Int) (period : FeePeriod K) : Except ValueError K :=
  match period.kind with
  | .assumption => do
    raiseIf (allow = false) "Unverified fee assumption requires explicit admission"
    return period.takerFraction
  | .verified => do
    raiseIf (timeMs < period.observedAtMs) "Fee evidence is in the future"
    return period.takerFraction

/-- The evidence of the period may be used at the instant. -/
def Usable (allow : Bool) (timeMs : Int) (period : FeePeriod K) : Prop :=
  (period.kind = .assumption ∧ allow = true) ∨
    (period.kind = .verified ∧ period.observedAtMs ≤ timeMs)

theorem quotePeriod_ok {period : FeePeriod K} {timeMs : Int} {rate : K} :
    quotePeriod allow timeMs period = .ok rate ↔
      Usable allow timeMs period ∧ period.takerFraction = rate := by
  unfold quotePeriod Usable
  split
  all_goals
    rename_i hkind
    rw [hkind, bind_ok]
    simp only [raiseIf_ok, pure_ok]
    simp

/-- The first of the covering periods decides, if there is one. -/
def decideQuote (allow : Bool) (timeMs : Int) : List (FeePeriod K) → Except ValueError K
  | [] => .error ⟨"No fee coverage for symbol, market and time"⟩
  | period :: _ => quotePeriod allow timeMs period

theorem quote_covering (schedule : FeeSchedule K) (symbol : String) (market : Market)
    (timeMs : Int) :
    schedule.quote symbol market timeMs =
      (timestamp timeMs "time_ms").bind fun _ => decideQuote schedule.allowAssumptions timeMs
        (covering schedule.periods symbol market timeMs) := by
  have hfind : schedule.periods.find? (fun period => period.covers symbol market timeMs) =
      (covering schedule.periods symbol market timeMs).head? := List.head?_filter.symm
  unfold quote
  rw [hfind]
  cases covering schedule.periods symbol market timeMs with
  | nil => rfl
  | cons period rest =>
    simp only [List.head?_cons, decideQuote, quotePeriod]
    congr 1

theorem quote_ok_iff (h : make periods allow = .ok schedule) {symbol : String} {market : Market}
    {timeMs : Int} {rate : K} :
    schedule.quote symbol market timeMs = .ok rate ↔
      ∃ period, covering periods symbol market timeMs = [period] ∧
        Usable allow timeMs period ∧ period.takerFraction = rate := by
  obtain ⟨hadmissible, rfl, rfl⟩ := make_ok.mp h
  have hone := covering_le_one hadmissible symbol market timeMs
  have hquote : schedule.quote symbol market timeMs = .ok rate ↔ 0 ≤ timeMs ∧
      decideQuote schedule.allowAssumptions timeMs
        (covering schedule.periods symbol market timeMs) = .ok rate := by
    rw [quote_covering]
    exact bind_ok.trans (by simp)
  rw [hquote]
  match hfound : covering schedule.periods symbol market timeMs with
  | [] => simp [decideQuote]
  | [period] =>
    have hcovers : period ∈ covering schedule.periods symbol market timeMs := by simp [hfound]
    have hstart := (FeePeriod.covers_iff.mp (List.mem_filter.mp hcovers).2).2.2.1
    have htime : 0 ≤ timeMs := period.start_nonneg.trans hstart
    simp [decideQuote, quotePeriod_ok, htime]
  | _ :: _ :: _ => rw [hfound] at hone; simp at hone

theorem quotes_unordered (periods periods' : List (FeePeriod K)) (allow : Bool)
    (hperm : periods.Perm periods') :
    ((∃ schedule, make periods allow = .ok schedule) ↔
        ∃ schedule', make periods' allow = .ok schedule') ∧
      ∀ schedule, make periods allow = .ok schedule → ∀ symbol market timeMs,
        (covering periods symbol market timeMs).length ≤ 1 ∧
        (∀ schedule', make periods' allow = .ok schedule' →
          schedule'.quote symbol market timeMs = schedule.quote symbol market timeMs) ∧
        ∀ rate, schedule.quote symbol market timeMs = .ok rate ↔
          ∃ period, covering periods symbol market timeMs = [period] ∧
            Usable allow timeMs period ∧ period.takerFraction = rate := by
  refine ⟨?_, ?_⟩
  · rw [make_accepts, make_accepts]
    exact Admissible.perm hperm
  · intro schedule h symbol market timeMs
    obtain ⟨hadmissible, hperiods, hallow⟩ := make_ok.mp h
    refine ⟨covering_le_one hadmissible _ _ _, ?_, fun rate => quote_ok_iff h⟩
    intro schedule' h'
    obtain ⟨-, hperiods', hallow'⟩ := make_ok.mp h'
    rw [quote_covering, quote_covering, hperiods, hperiods', hallow, hallow',
      covering_perm hadmissible hperm]

end FeeSchedule

/-- A period of the spot market, its evidence seen at its end. -/
def datedPeriod (startMs endMs : Int) (kind : FeeKind) (h : 0 ≤ startMs ∧ startMs < endMs) :
    FeePeriod ℚ where
  symbol := "ETHUSDT"
  market := .spot
  startMs
  endMs
  takerFraction := 7 / 9000
  source := "https://fees"
  observedAtMs := endMs
  kind
  start_nonneg := h.1
  observed_nonneg := h.1.trans h.2.le
  symbol_ne := by decide
  span := h.2
  fraction_nonneg := by norm_num
  fraction_lt := by norm_num
  https := by decide

def datedPeriods : List (FeePeriod ℚ) :=
  [datedPeriod 700 900 .verified (by decide), datedPeriod 300 700 .assumption (by decide)]

theorem quotes_unordered_datedPeriods :
    ((FeeSchedule.make datedPeriods.reverse true).bind fun schedule =>
        schedule.quote "ETHUSDT" .spot 699) = .ok (7 / 9000) ∧
      ∀ schedule, FeeSchedule.make datedPeriods true = .ok schedule →
        ∀ schedule', FeeSchedule.make datedPeriods.reverse true = .ok schedule' →
          schedule'.quote "ETHUSDT" .spot 699 = schedule.quote "ETHUSDT" .spot 699 := by
  refine ⟨by decide +kernel, ?_⟩
  intro schedule h schedule' h'
  have hlaw := (FeeSchedule.quotes_unordered datedPeriods datedPeriods.reverse true
    (List.reverse_perm _).symm).2 schedule h "ETHUSDT" .spot 699
  exact hlaw.2.1 schedule' h'

end Strategy
end PerpCarry
