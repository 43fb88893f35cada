import PerpCarry.Strategy.Decimal

/-!
# Strategy.Fees

Dated taker fees: `python/perpcarry/strategy/fees.py`.

A `FeePeriod` and a `FeeSchedule` carry what their `__post_init__` checks as fields, so a period
with an empty span, or a schedule with overlapping periods, cannot be built. `FeePeriod.make` and
`FeeSchedule.make` are the checking constructors.
-/

namespace PerpCarry
namespace Strategy

inductive Market where
  | spot
  | perp
  deriving DecidableEq

inductive FeeKind where
  | verified
  | assumption
  deriving DecidableEq

variable {K : Type} [Field K] [LinearOrder K]

def isHttps (source : String) : Bool := "https://".toList.isPrefixOf source.toList

structure FeePeriod (K : Type) [Field K] [LinearOrder K] where
  symbol : String
  market : Market
  startMs : Int
  endMs : Int
  takerFraction : K
  source : String
  observedAtMs : Int
  kind : FeeKind
  start_nonneg : 0 ≤ startMs
  observed_nonneg : 0 ≤ observedAtMs
  symbol_ne : symbol ≠ ""
  span : startMs < endMs
  fraction_nonneg : 0 ≤ takerFraction
  fraction_lt : takerFraction < 1
  https : isHttps source = true
  deriving DecidableEq

def FeePeriod.make (symbol : String) (market : Market) (startMs endMs : Int)
    (takerFraction : Decimal K) (source : String) (observedAtMs : Int) (kind : FeeKind) :
    Except ValueError (FeePeriod K) := do
  timestamp startMs "start_ms"
  timestamp endMs "end_ms"
  timestamp observedAtMs "observed_at_ms"
  let fraction ← decimal takerFraction "taker_fraction"
  if h : (0 ≤ startMs ∧ 0 ≤ observedAtMs) ∧ symbol ≠ "" ∧ startMs < endMs ∧
      0 ≤ fraction ∧ fraction < 1 ∧ isHttps source = true then
    return {
      symbol, market, startMs, endMs, takerFraction := fraction, source, observedAtMs, kind,
      start_nonneg := h.1.1, observed_nonneg := h.1.2, symbol_ne := h.2.1, span := h.2.2.1,
      fraction_nonneg := h.2.2.2.1, fraction_lt := h.2.2.2.2.1, https := h.2.2.2.2.2 }
  else .error ⟨"Invalid fee period or provenance"⟩

namespace FeePeriod

/-- Same symbol and market, and a common instant. -/
def Overlaps (left right : FeePeriod K) : Prop :=
  (left.symbol, left.market) = (right.symbol, right.market) ∧
    max left.startMs right.startMs < min left.endMs right.endMs

instance (left right : FeePeriod K) : Decidable (Overlaps left right) := by
  unfold Overlaps; infer_instance

def covers (period : FeePeriod K) (symbol : String) (market : Market) (timeMs : Int) : Bool :=
  period.symbol = symbol ∧ period.market = market ∧ period.startMs ≤ timeMs ∧ timeMs < period.endMs

end FeePeriod

structure FeeSchedule (K : Type) [Field K] [LinearOrder K] where
  periods : List (FeePeriod K)
  allowAssumptions : Bool
  nonempty : periods ≠ []
  disjoint : periods.Pairwise fun left right => ¬ left.Overlaps right
  deriving DecidableEq

def FeeSchedule.make (periods : List (FeePeriod K)) (allowAssumptions : Bool) :
    Except ValueError (FeeSchedule K) :=
  if hne : periods = [] then .error ⟨"Fee schedule needs fee periods"⟩
  else if hd : periods.Pairwise fun left right => ¬ left.Overlaps right then
    .ok { periods, allowAssumptions, nonempty := hne, disjoint := hd }
  else .error ⟨"Overlapping fee periods"⟩

/-- The rate of the first period that covers the instant, if its evidence may be used then. -/
def FeeSchedule.quote (self : FeeSchedule K) (symbol : String) (market : Market) (timeMs : Int) :
    Except ValueError K := do
  timestamp timeMs "time_ms"
  match self.periods.find? fun period => period.covers symbol market timeMs with
  | none => .error ⟨"No fee coverage for symbol, market and time"⟩
  | some period =>
    match period.kind with
    | .assumption =>
      raiseIf (self.allowAssumptions = false)
        "Unverified fee assumption requires explicit admission"
    | .verified => raiseIf (timeMs < period.observedAtMs) "Fee evidence is in the future"
    return period.takerFraction

/-- The quoted period is listed, covers the instant, and its evidence may be used then. -/
theorem FeeSchedule.quote_ok {self : FeeSchedule K} {symbol : String} {market : Market}
    {timeMs : Int} {rate : K} (h : self.quote symbol market timeMs = .ok rate) :
    ∃ period ∈ self.periods, (period.symbol = symbol ∧ period.market = market) ∧
      (period.startMs ≤ timeMs ∧ timeMs < period.endMs) ∧
      (period.kind = .verified → period.observedAtMs ≤ timeMs) ∧
      (period.kind = .assumption → self.allowAssumptions = true) ∧
      period.takerFraction = rate := by
  unfold FeeSchedule.quote at h
  obtain ⟨_, _, h⟩ := bind_ok.mp h
  split at h
  · cases h
  · rename_i period hfound
    have hcovers := List.find?_some hfound
    simp only [FeePeriod.covers, decide_eq_true_eq] at hcovers
    obtain ⟨hsymbol, hmarket, hcovers⟩ := hcovers
    have hlisted := List.mem_of_find?_eq_some hfound
    dsimp only at h
    split at h
    · rename_i hassumption
      obtain ⟨_, hallowed, h⟩ := bind_ok.mp h
      cases h
      refine ⟨period, hlisted, ⟨hsymbol, hmarket⟩, hcovers, ?_, ?_, rfl⟩
      · intro hverified
        cases hassumption.symm.trans hverified
      · intro _
        simpa using raiseIf_ok.mp hallowed
    · rename_i hverified
      obtain ⟨_, hobserved, h⟩ := bind_ok.mp h
      cases h
      refine ⟨period, hlisted, ⟨hsymbol, hmarket⟩, hcovers, ?_, ?_, rfl⟩
      · intro _
        exact not_lt.mp (raiseIf_ok.mp hobserved)
      · intro hassumption
        cases hverified.symm.trans hassumption

end Strategy
end PerpCarry
