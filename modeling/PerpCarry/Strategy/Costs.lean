import Mathlib.Tactic.Positivity
import PerpCarry.Strategy.Carry

/-!
# Strategy.Costs

Cost estimates from an admitted impact curve: `ImpactCurve` and `from_curve` of
`python/perpcarry/strategy/costs.py`, with the `ExecutionCharges` of `sizing.py`.

The square root is a parameter, since an ordered field need not have one.

* `fromCurve_ok`: an estimate is for the size asked, and no evidence in it is from the future.
* `fromCurve_defined`: at a supported size, with the evidence there, the estimate is made.
-/

namespace PerpCarry
namespace Strategy

/-- A `ValueError` among the exceptions that are told apart. -/
def raising {α : Type} (x : Except ValueError α) : Except Raised α :=
  match x with
  | .ok a => .ok a
  | .error e => .error ⟨.valueError, e.message⟩

@[simp] theorem raising_ok {α : Type} {x : Except ValueError α} {a : α} :
    raising x = .ok a ↔ x = .ok a := by
  cases x with
  | ok b => simp [raising]
  | error e => simp [raising]

variable {K : Type} [Field K] [LinearOrder K]

structure ExecutionCharges (K : Type) where
  entryHalfSpreadBps : K
  closeHalfSpreadBps : K
  entryFeeBps : K
  closeFeeBps : K
  hedgeEntryBps : K
  hedgeCloseBps : K
  financingFraction : K
  deriving DecidableEq

namespace ExecutionCharges

def numbers (self : ExecutionCharges K) : Except ValueError Unit := do
  number self.entryHalfSpreadBps "entry_half_spread_bps"
  number self.closeHalfSpreadBps "close_half_spread_bps"
  number self.entryFeeBps "entry_fee_bps"
  number self.closeFeeBps "close_fee_bps"
  number self.hedgeEntryBps "hedge_entry_bps"
  number self.hedgeCloseBps "hedge_close_bps"
  number self.financingFraction "financing_fraction"

def fixedFraction (self : ExecutionCharges K) : K :=
  self.entryHalfSpreadBps / 10000 + self.closeHalfSpreadBps / 10000 + self.entryFeeBps / 10000 +
    self.closeFeeBps / 10000 + self.hedgeEntryBps / 10000 + self.hedgeCloseBps / 10000 +
    self.financingFraction

/-- `ExecutionCharges.__post_init__`. -/
def check (self : ExecutionCharges K) : Except ValueError Unit := do
  self.numbers
  number self.fixedFraction "summed charges"

/-- Charges that were checked are not negative. -/
theorem numbers_nonneg {charges : ExecutionCharges K} (h : charges.check = .ok ()) :
    charges.numbers = .ok () ∧ 0 ≤ charges.entryHalfSpreadBps ∧ 0 ≤ charges.closeHalfSpreadBps ∧
      0 ≤ charges.entryFeeBps ∧ 0 ≤ charges.closeFeeBps ∧ 0 ≤ charges.hedgeEntryBps ∧
      0 ≤ charges.hedgeCloseBps ∧ 0 ≤ charges.financingFraction := by
  unfold ExecutionCharges.check at h
  obtain ⟨_, hnumbers, _⟩ := bind_ok.mp h
  refine ⟨hnumbers, ?_⟩
  unfold ExecutionCharges.numbers at hnumbers
  simp only [bind_ok, number_ok] at hnumbers
  obtain ⟨_, h1, _, h2, _, h3, _, h4, _, h5, _, h6, h7⟩ := hnumbers
  exact ⟨h1, h2, h3, h4, h5, h6, h7⟩

end ExecutionCharges

/-- The bps of a fraction. -/
def toBps (fraction : K) : K := fraction * 10000

/-- The fraction of some bps. -/
def ofBps (bps : K) : K := bps / 10000

structure ImpactCurve (K : Type) [Field K] [LinearOrder K] where
  symbol : String
  admittedAtMs : Int
  evidenceEndExclusiveMs : Int
  artifactSha256 : String
  kind : CostKind
  sellCoefficientBps : K
  buyCoefficientBps : K
  sizeMin : K
  sizeMax : K
  symbol_ne : symbol ≠ ""
  admitted_nonneg : 0 ≤ admittedAtMs
  evidence_nonneg : 0 ≤ evidenceEndExclusiveMs
  digest : isDigest artifactSha256 = true
  sell_nonneg : 0 ≤ sellCoefficientBps
  buy_nonneg : 0 ≤ buyCoefficientBps
  size_pos : 0 < sizeMin
  size_le : sizeMin ≤ sizeMax

namespace ImpactCurve

def roundTripCoefficient (self : ImpactCurve K) : K :=
  self.sellCoefficientBps / 10000 + self.buyCoefficientBps / 10000

/-- `from_curve`, its seven charges in one argument. -/
def fromCurve (sqrt : K → K) (curve : ImpactCurve K) (nowMs validUntilMs : Int)
    (notionalUsdt advFraction : K) (horizonSettlements : Int) (charges : ExecutionCharges K) :
    Except Raised (CostEstimate K) := do
  raising (integer nowMs "now_ms" 0)
  raising (number advFraction "adv_fraction")
  raiseWhen (nowMs < curve.admittedAtMs ∨ nowMs < curve.evidenceEndExclusiveMs) .impactModelError
    "future curve admission/evidence"
  raiseWhen (¬ (curve.sizeMin ≤ advFraction ∧ advFraction ≤ curve.sizeMax)) .impactModelError
    "extrapolated impact stratum"
  raising charges.numbers
  let entry := (curve.sellCoefficientBps * sqrt advFraction + charges.entryHalfSpreadBps +
    charges.entryFeeBps + charges.hedgeEntryBps) / 10000
  let close := (curve.buyCoefficientBps * sqrt advFraction + charges.closeHalfSpreadBps +
    charges.closeFeeBps + charges.hedgeCloseBps) / 10000
  let estimate : CostEstimate K := {
    symbol := curve.symbol
    notionalUsdt
    horizonSettlements
    quotedAtMs := nowMs
    validUntilMs
    evidenceEndExclusiveMs := curve.evidenceEndExclusiveMs
    artifactSha256 := curve.artifactSha256
    kind := curve.kind
    entryFraction := entry
    closeNowFraction := close
    terminalCloseFraction := close
    financingFraction := charges.financingFraction }
  raising estimate.check
  return estimate

theorem fromCurve_ok {sqrt : K → K} {curve : ImpactCurve K} {nowMs validUntilMs : Int}
    {notional advFraction : K} {horizon : Int} {charges : ExecutionCharges K}
    {estimate : CostEstimate K}
    (h : fromCurve sqrt curve nowMs validUntilMs notional advFraction horizon charges =
      .ok estimate) :
    curve.admittedAtMs ≤ nowMs ∧ curve.evidenceEndExclusiveMs ≤ nowMs ∧
      (curve.sizeMin ≤ advFraction ∧ advFraction ≤ curve.sizeMax) ∧
      estimate.symbol = curve.symbol ∧ estimate.notionalUsdt = notional ∧
      estimate.horizonSettlements = horizon ∧ estimate.kind = curve.kind ∧
      estimate.artifactSha256 = curve.artifactSha256 := by
  unfold fromCurve at h
  simp only [bind_ok, raiseWhen_ok, pure_ok, not_or, not_lt, not_not] at h
  obtain ⟨_, _, _, _, _, hfuture, _, hsize, _, _, _, _, rfl⟩ := h
  exact ⟨hfuture.1, hfuture.2, hsize, rfl, rfl, rfl, rfl, rfl⟩

/-- The cost of one side of a trade, as a fraction of its notional. -/
def sideFraction (coefficientBps root halfSpreadBps feeBps hedgeBps : K) : K :=
  (coefficientBps * root + halfSpreadBps + feeBps + hedgeBps) / 10000

/-- What the curve may be asked for. -/
structure Supports (curve : ImpactCurve K) (nowMs validUntilMs : Int) (advFraction : K) : Prop where
  now_nonneg : 0 ≤ nowMs
  unexpired : nowMs < validUntilMs
  admitted : curve.admittedAtMs ≤ nowMs
  evidence : curve.evidenceEndExclusiveMs ≤ nowMs
  size_ge : curve.sizeMin ≤ advFraction
  size_le : advFraction ≤ curve.sizeMax

theorem fromCurve_defined [IsStrictOrderedRing K] {sqrt : K → K} {curve : ImpactCurve K}
    {nowMs validUntilMs : Int} {notional advFraction : K} {horizon : Int}
    {charges : ExecutionCharges K} (h : curve.Supports nowMs validUntilMs advFraction)
    (hcharges : charges.check = .ok ()) (hnotional : 0 < notional) (hhorizon : 1 ≤ horizon)
    (hroot : 0 ≤ sqrt advFraction) :
    ∃ estimate, fromCurve sqrt curve nowMs validUntilMs notional advFraction horizon charges =
        .ok estimate ∧
      estimate.quotedAtMs = nowMs ∧ estimate.validUntilMs = validUntilMs ∧
      estimate.evidenceEndExclusiveMs = curve.evidenceEndExclusiveMs ∧
      estimate.entryFraction = sideFraction curve.sellCoefficientBps (sqrt advFraction)
        charges.entryHalfSpreadBps charges.entryFeeBps charges.hedgeEntryBps ∧
      estimate.closeNowFraction = sideFraction curve.buyCoefficientBps (sqrt advFraction)
        charges.closeHalfSpreadBps charges.closeFeeBps charges.hedgeCloseBps ∧
      estimate.terminalCloseFraction = estimate.closeNowFraction ∧
      estimate.financingFraction = charges.financingFraction := by
  obtain ⟨hnumbers, h1, h2, h3, h4, h5, h6, h7⟩ := ExecutionCharges.numbers_nonneg hcharges
  have hfraction : 0 ≤ advFraction := curve.size_pos.le.trans h.size_ge
  have hsell := mul_nonneg curve.sell_nonneg hroot
  have hbuy := mul_nonneg curve.buy_nonneg hroot
  have hscale : (0 : K) ≤ 10000 := by positivity
  have hunexpired := h.unexpired
  unfold fromCurve
  simp only [bind_ok, raising_ok, raiseWhen_ok, pure_ok, integer_ok, number_ok]
  refine ⟨_, ⟨(), h.now_nonneg, (), hfraction, (), ?_, (), ?_, (), hnumbers, (), ?_, rfl⟩, rfl, rfl,
    rfl, rfl, rfl, rfl, rfl⟩
  · rw [not_or, not_lt, not_lt]
    exact ⟨h.admitted, h.evidence⟩
  · rw [not_not]
    exact ⟨h.size_ge, h.size_le⟩
  · unfold CostEstimate.check
    simp only [bind_ok, number_ok, raiseIf_ok, integer_ok]
    refine ⟨(), hnotional.le, (), ?_, (), hhorizon, (), h.now_nonneg, (), by omega, (),
      curve.evidence_nonneg, (), ?_, (), ?_, (), ?_, (), ?_, h7⟩
    · rw [not_or]
      exact ⟨curve.symbol_ne, hnotional.ne'⟩
    · rw [curve.digest]
      rintro ⟨⟩
    · exact div_nonneg (add_nonneg (add_nonneg (add_nonneg hsell h1) h3) h5) hscale
    · exact div_nonneg (add_nonneg (add_nonneg (add_nonneg hbuy h2) h4) h6) hscale
    · exact div_nonneg (add_nonneg (add_nonneg (add_nonneg hbuy h2) h4) h6) hscale

end ImpactCurve

end Strategy
end PerpCarry
