import Mathlib.Algebra.Order.Floor.Defs
import PerpCarry.Strategy.Costs

/-!
# Strategy.Sizing

The size of an entry: `size_position` of `python/perpcarry/strategy/sizing.py`.

Sizes are whole lots. The smallest executable lot count is quoted first; a bisection finds the last
one that the gate still lets in, and the candidates around the optimum are compared. Python floats
are read exactly, so the tests for non-finite results have nothing to catch and are left out.

* `quote_action`: a quote waits or enters.
* `sizePosition_ok`: an entry is an admitted quote of a positive number of lots.
-/

namespace PerpCarry
namespace Strategy

open Models (DAY_MS)

structure SizingInputs (K : Type) [Field K] [LinearOrder K] where
  symbol : String
  observedAtMs : Int
  validUntilMs : Int
  priceUsdt : K
  advBase : K
  advStartMs : Int
  advEndExclusiveMs : Int
  advSha256 : String
  quantityStep : K
  minQuantity : K
  minNotionalUsdt : K
  maxNotionalUsdt : K
  maxAdvFraction : K
  validatedQuantityBase : K
  metadataValidFromMs : Int
  metadataValidUntilMs : Int
  metadataSha256 : String
  symbol_ne : symbol ≠ ""
  observed_nonneg : 0 ≤ observedAtMs
  valid_span : observedAtMs < validUntilMs
  adv_nonneg : 0 ≤ advStartMs
  adv_aligned : advStartMs % DAY_MS = 0 ∧ advEndExclusiveMs % DAY_MS = 0
  adv_span : advEndExclusiveMs - advStartMs = 30 * DAY_MS
  metadata_nonneg : 0 ≤ metadataValidFromMs
  metadata_span : metadataValidFromMs < metadataValidUntilMs
  price_pos : 0 < priceUsdt
  adv_pos : 0 < advBase
  notional_nonneg : 0 ≤ minNotionalUsdt
  max_notional_pos : 0 < maxNotionalUsdt
  max_adv_pos : 0 < maxAdvFraction
  validated_pos : 0 < validatedQuantityBase
  step_pos : 0 < quantityStep
  min_quantity_nonneg : 0 ≤ minQuantity
  adv_digest : isDigest advSha256 = true
  metadata_digest : isDigest metadataSha256 = true

variable {K : Type} [Field K] [LinearOrder K]

/-- `replace(market, max_notional_usdt=notional)`. -/
def SizingInputs.withMaxNotional (self : SizingInputs K) (notional : K) :
    Except ValueError (SizingInputs K) := do
  number notional "max_notional_usdt"
  if h : 0 < notional then
    return { self with maxNotionalUsdt := notional, max_notional_pos := h }
  else .error ⟨"max_notional_usdt must be positive"⟩

inductive BreakEven where
  | unavailable
  | noFiniteRoot
  | belowSupport
  | aboveSupport
  | withinSupport
  deriving DecidableEq

structure SizingResult (K : Type) where
  quantityBase : K
  notionalUsdt : K
  advFraction : K
  expectedNetUsdt : K
  marginalNetFraction : Option K
  decision : Decision K
  costEstimate : Option (CostEstimate K) := none
  feasibleMaxAdvFraction : Option K := none
  breakEvenAdvFraction : Option K := none
  breakEvenStatus : BreakEven := .unavailable
  bindingLimits : List String := []
  feasibleMaxNotionalUsdt : Option K := none
  breakEvenNotionalUsdt : Option K := none
  deriving DecidableEq

/-- The keyword arguments of `size_position`. -/
structure SizingRequest (K : Type) [Field K] [LinearOrder K] where
  nowMs : Int
  forecast : Option (FundingForecast K)
  approval : Option FundingApproval
  market : SizingInputs K
  curve : ImpactCurve K
  charges : ExecutionCharges K

/-- `empty(reason, decision)`. -/
def SizingResult.empty (decision : Decision K) : SizingResult K :=
  ⟨0, 0, 0, 0, none, decision, none, none, none, .unavailable, [], none, none⟩

def SizingResult.wait (reason : String) : SizingResult K := .empty ⟨.wait, reason, none, none⟩

/-- A quoted lot count. -/
structure Quote (K : Type) where
  quantity : K
  fraction : K
  estimate : CostEstimate K
  decision : Decision K

namespace SizingRequest

/-- The inputs are not those of this symbol and this time. -/
def Inadmissible (self : SizingRequest K) (symbol : String) : Prop :=
  self.market.symbol ≠ symbol ∨ self.curve.symbol ≠ symbol ∨
    self.nowMs < self.market.observedAtMs ∨ self.market.validUntilMs ≤ self.nowMs ∨
    self.market.advEndExclusiveMs ≠ self.nowMs / DAY_MS * DAY_MS ∨
    ¬ (self.market.metadataValidFromMs ≤ self.nowMs ∧
      self.nowMs < self.market.metadataValidUntilMs) ∨
    self.nowMs < self.curve.admittedAtMs ∨ self.nowMs < self.curve.evidenceEndExclusiveMs

instance (self : SizingRequest K) (symbol : String) : Decidable (self.Inadmissible symbol) := by
  unfold Inadmissible; infer_instance

/-- The upper limits of a quantity, under their labels. -/
def limits (self : SizingRequest K) : List (String × K) := [
  ("model_support", self.curve.sizeMax * self.market.advBase),
  ("validated_depth", self.market.validatedQuantityBase),
  ("max_adv", self.market.maxAdvFraction * self.market.advBase),
  ("max_notional", self.market.maxNotionalUsdt / self.market.priceUsdt)]

def upper (self : SizingRequest K) : K :=
  min (min (min (self.curve.sizeMax * self.market.advBase) self.market.validatedQuantityBase)
    (self.market.maxAdvFraction * self.market.advBase))
    (self.market.maxNotionalUsdt / self.market.priceUsdt)

def lower (self : SizingRequest K) : K :=
  max (max (self.curve.sizeMin * self.market.advBase) self.market.minQuantity)
    (self.market.minNotionalUsdt / self.market.priceUsdt)

variable [FloorRing K]

def first (self : SizingRequest K) : Int := max 1 ⌈self.lower / self.market.quantityStep⌉

def last (self : SizingRequest K) : Int := ⌊self.upper / self.market.quantityStep⌋

end SizingRequest

section Search

variable (sqrt : K → K) (strategy : CarryStrategy K) (request : SizingRequest K)

/-- `quote(lots)`. -/
def quote (lots : Int) : Except Raised (Quote K) := do
  let quantity := request.market.quantityStep * lots
  let fraction := quantity / request.market.advBase
  let notional := quantity * request.market.priceUsdt
  let estimate ← request.curve.fromCurve sqrt request.nowMs request.market.validUntilMs notional
    fraction strategy.policy.horizonSettlements request.charges
  let decision ← raising
    (strategy.decide request.nowMs request.forecast estimate request.approval none)
  return ⟨quantity, fraction, estimate, decision⟩

/-- The loop of the search, with a bound on its passes. -/
def bisect (enters : Int → Except Raised Bool) : Nat → Int → Int → Except Raised Int
  | 0, low, _ => .ok low
  | fuel + 1, low, high =>
    if low < high then do
      let middle := (low + high + 1) / 2
      if ← enters middle then bisect enters fuel middle high
      else bisect enters fuel low (middle - 1)
    else .ok low

/-- A later candidate is better only by a larger profit. -/
def best : List Int → Option (K × Quote K) → Except Raised (Option (K × Quote K))
  | [], found => .ok found
  | lots :: candidates, found => do
    let quoted ← quote sqrt strategy request lots
    match quoted.decision.expectedIncrementalFraction with
    | none => .error ⟨.typeError, "unsupported operand type(s) for *"⟩
    | some edge =>
      let profit := quoted.estimate.notionalUsdt * edge
      if found.all fun f => f.1 < profit then best candidates (some (profit, quoted))
      else best candidates found

variable [FloorRing K]

/-- The lot count below the optimum of the profit, inside the feasible ones. -/
def target (edge coefficient maxFraction : K) (feasibleLast : Int) : Int :=
  if coefficient = 0 ∨ 3 / 2 * coefficient * sqrt maxFraction ≤ edge then feasibleLast
  else
    ⌊(edge / (3 / 2 * coefficient)) ^ 2 * request.market.advBase / request.market.quantityStep⌋

/-- `sorted({...})` of the two candidates, the first of which is never the larger. -/
def candidates (feasibleLast target : Int) : List Int :=
  let low := max request.first (min feasibleLast target)
  let high := max request.first (min feasibleLast (target + 1))
  if low = high then [low] else [low, high]

/-- The break-even fraction of the curve and where it lies. -/
def breakEven (edge coefficient : K) : Option K × BreakEven :=
  if coefficient = 0 then (none, .noFiniteRoot)
  else if edge < coefficient * sqrt request.curve.sizeMin then (none, .belowSupport)
  else if coefficient * sqrt request.curve.sizeMax < edge then (none, .aboveSupport)
  else (some ((edge / coefficient) ^ 2), .withinSupport)

/-- The result for the best candidate. -/
def sized (edge coefficient maxFraction profit : K) (feasibleLast : Int) (found : Quote K) :
    SizingResult K :=
  let root := breakEven sqrt request edge coefficient
  let labels :=
    if feasibleLast < request.last then ["entry_gate"]
    else (request.limits.filter fun limit => limit.2 = request.upper).map (·.1)
  { quantityBase := found.quantity
    notionalUsdt := found.estimate.notionalUsdt
    advFraction := found.fraction
    expectedNetUsdt := profit
    marginalNetFraction := some (edge - 3 / 2 * coefficient * sqrt found.fraction)
    decision := found.decision
    costEstimate := some found.estimate
    feasibleMaxAdvFraction := some maxFraction
    breakEvenAdvFraction := root.1
    breakEvenStatus := root.2
    bindingLimits := labels
    feasibleMaxNotionalUsdt :=
      some (request.market.quantityStep * feasibleLast * request.market.priceUsdt)
    breakEvenNotionalUsdt :=
      root.1.map fun r => r * request.market.advBase * request.market.priceUsdt }

/-- `size_position` behind its gate: the smallest size has been quoted and enters. -/
def search (forecast : FundingForecast K) : Except Raised (SizingResult K) := do
  let enters : Int → Except Raised Bool := fun lots =>
    (quote sqrt strategy request lots).map fun q => q.decision.action = .enter
  let feasibleLast ← bisect enters (request.last - request.first).toNat request.first request.last
  let maxFraction := request.market.quantityStep * feasibleLast / request.market.advBase
  let samples := forecast.prediction.samples
  let edge := samples.sum / samples.length - request.charges.fixedFraction
  let coefficient := request.curve.roundTripCoefficient
  let lots := target sqrt request edge coefficient maxFraction feasibleLast
  match ← best sqrt strategy request (candidates request feasibleLast lots) none with
  | none => .error ⟨.typeError, "cannot unpack non-iterable NoneType object"⟩
  | some (profit, found) =>
    if profit ≤ 0 then return .wait "nonpositive_expected_profit"
    else return sized sqrt request edge coefficient maxFraction profit feasibleLast found

def sizePosition : Except Raised (SizingResult K) := do
  raising (integer request.nowMs "now_ms" 0)
  if request.Inadmissible strategy.symbol then return .wait "sizing_inputs_not_admitted"
  else if request.last < request.first then return .wait "no_executable_size"
  else
    let minimum ← quote sqrt strategy request request.first
    if minimum.decision.action ≠ .enter then return .empty minimum.decision
    else
      match request.forecast with
      | none => .error ⟨.typeError, "'NoneType' object has no attribute 'prediction'"⟩
      | some forecast => search sqrt strategy request forecast

end Search

section Entry

variable {sqrt : K → K} {strategy : CarryStrategy K} {request : SizingRequest K}

theorem quote_ok {lots : Int} {q : Quote K} (h : quote sqrt strategy request lots = .ok q) :
    q.quantity = request.market.quantityStep * lots ∧
      request.curve.fromCurve sqrt request.nowMs request.market.validUntilMs
        (q.quantity * request.market.priceUsdt) q.fraction strategy.policy.horizonSettlements
        request.charges = .ok q.estimate ∧
      strategy.decide request.nowMs request.forecast q.estimate request.approval none =
        .ok q.decision := by
  unfold quote at h
  simp only [bind_ok, pure_ok, raising_ok] at h
  obtain ⟨estimate, hestimate, decision, hdecision, rfl⟩ := h
  exact ⟨rfl, hestimate, hdecision⟩

theorem quote_action {lots : Int} {q : Quote K} (h : quote sqrt strategy request lots = .ok q) :
    q.decision.action = .wait ∨ q.decision.action = .enter := by
  rcases CarryStrategy.decide_flat (quote_ok h).2.2 with h | ⟨h, _⟩
  · exact .inl h
  · exact .inr h

/-- The search ends between its bounds. -/
theorem bisect_mem {enters : Int → Except Raised Bool} {fuel : Nat} {low high found : Int}
    (hle : low ≤ high) (h : bisect enters fuel low high = .ok found) :
    low ≤ found ∧ found ≤ high := by
  induction fuel generalizing low high with
  | zero =>
    cases h
    exact ⟨le_refl _, hle⟩
  | succ fuel ih =>
    unfold bisect at h
    split at h
    · obtain ⟨up, _, h⟩ := bind_ok.mp h
      cases up with
      | true =>
        obtain ⟨hlow, hhigh⟩ := ih (by omega) h
        exact ⟨by omega, hhigh⟩
      | false =>
        obtain ⟨hlow, hhigh⟩ := ih (by omega) h
        exact ⟨hlow, by omega⟩
    · cases h
      exact ⟨le_refl _, hle⟩

theorem best_quoted {candidates : List Int} {found best' : Option (K × Quote K)}
    (h : best sqrt strategy request candidates found = .ok best') :
    best' = found ∨ ∃ lots ∈ candidates, ∃ profit q,
      best' = some (profit, q) ∧ quote sqrt strategy request lots = .ok q := by
  induction candidates generalizing found with
  | nil =>
    cases h
    exact .inl rfl
  | cons lots candidates ih =>
    unfold best at h
    obtain ⟨quoted, hquoted, h⟩ := bind_ok.mp h
    split at h
    · cases h
    · dsimp only at h
      split at h
      · rcases ih h with rfl | ⟨lots', hmem, found'⟩
        · exact .inr ⟨lots, List.mem_cons_self .., _, quoted, rfl, hquoted⟩
        · exact .inr ⟨lots', List.mem_cons_of_mem _ hmem, found'⟩
      · rcases ih h with hfound | ⟨lots', hmem, found'⟩
        · exact .inl hfound
        · exact .inr ⟨lots', List.mem_cons_of_mem _ hmem, found'⟩

variable [FloorRing K]

theorem candidates_first {feasibleLast target lots : Int}
    (h : lots ∈ candidates request feasibleLast target) : request.first ≤ lots := by
  unfold candidates at h
  dsimp only at h
  split at h
  · rw [List.mem_singleton.mp h]
    exact le_max_left _ _
  · rcases List.mem_cons.mp h with rfl | h
    · exact le_max_left _ _
    · rw [List.mem_singleton.mp h]
      exact le_max_left _ _

theorem candidates_mem {feasibleLast target lots : Int} (hle : request.first ≤ feasibleLast)
    (h : lots ∈ candidates request feasibleLast target) :
    request.first ≤ lots ∧ lots ≤ feasibleLast := by
  refine ⟨candidates_first h, ?_⟩
  unfold candidates at h
  dsimp only at h
  split at h
  · rw [List.mem_singleton.mp h]
    omega
  · rcases List.mem_cons.mp h with rfl | h
    · omega
    · rw [List.mem_singleton.mp h]
      omega

theorem one_le_first (request : SizingRequest K) : 1 ≤ request.first := le_max_left _ _

/-- The search returns the quote of a positive lot count within the limits, or no size. -/
theorem search_ok {forecast : FundingForecast K} {result : SizingResult K}
    (hle : request.first ≤ request.last)
    (h : search sqrt strategy request forecast = .ok result) :
    result = .wait "nonpositive_expected_profit" ∨ ∃ lots q, 1 ≤ lots ∧ lots ≤ request.last ∧
      quote sqrt strategy request lots = .ok q ∧ result.quantityBase = q.quantity ∧
      result.decision = q.decision := by
  unfold search at h
  obtain ⟨feasibleLast, hbisect, h⟩ := bind_ok.mp h
  obtain ⟨hfirst, hlast⟩ := bisect_mem hle hbisect
  obtain ⟨found, hfound, h⟩ := bind_ok.mp h
  split at h
  · cases h
  · rename_i profit q
    split at h
    · cases h
      exact .inl rfl
    · cases h
      rcases best_quoted hfound with hnone | ⟨lots, hlots, profit', q', hq, hquoted⟩
      · cases hnone
      · cases hq
        obtain ⟨hlower, hupper⟩ := candidates_mem hfirst hlots
        exact .inr ⟨lots, q, (one_le_first request).trans hlower, hupper.trans hlast, hquoted,
          rfl, rfl⟩

/-- A size waits, or is the admitted quote of a positive lot count within the limits that enters. -/
theorem sizePosition_ok {result : SizingResult K}
    (h : sizePosition sqrt strategy request = .ok result) :
    result.decision.action = .wait ∨
      result.decision.action = .enter ∧ ¬ request.Inadmissible strategy.symbol ∧
        ∃ lots q, 1 ≤ lots ∧ lots ≤ request.last ∧
          quote sqrt strategy request lots = .ok q ∧ result.quantityBase = q.quantity ∧
          result.decision = q.decision := by
  unfold sizePosition at h
  simp only [bind_ok] at h
  obtain ⟨_, _, h⟩ := h
  split at h
  · cases h
    exact .inl rfl
  · rename_i hadmissible
    split at h
    · cases h
      exact .inl rfl
    · rename_i hsizes
      obtain ⟨minimum, hminimum, h⟩ := bind_ok.mp h
      split at h
      · rename_i hstop
        cases h
        rcases quote_action hminimum with hwait | henter
        · exact .inl hwait
        · exact absurd henter hstop
      · split at h
        · cases h
        · rcases search_ok (not_lt.mp hsizes) h with rfl |
            ⟨lots, q, hlots, hlast, hquote, hquantity, hdecision⟩
          · exact .inl rfl
          · rcases quote_action hquote with hwait | henter
            · exact .inl (hdecision ▸ hwait)
            · exact .inr ⟨hdecision ▸ henter, hadmissible, lots, q, hlots, hlast, hquote,
                hquantity, hdecision⟩

/-- The reason of a size is one of its own, or one of the decision it quotes. -/
theorem sizePosition_reason {result : SizingResult K}
    (h : sizePosition sqrt strategy request = .ok result) :
    result.decision.reason ∈ CarryStrategy.reasons ∨
      result.decision.reason ∈ ["sizing_inputs_not_admitted", "no_executable_size",
        "nonpositive_expected_profit"] := by
  unfold sizePosition at h
  obtain ⟨_, _, h⟩ := bind_ok.mp h
  split at h
  · cases h
    exact .inr (.head _)
  · split at h
    · cases h
      exact .inr (.tail _ (.head _))
    · rename_i hsizes
      obtain ⟨minimum, hminimum, h⟩ := bind_ok.mp h
      split at h
      · cases h
        exact .inl (CarryStrategy.decide_reason (quote_ok hminimum).2.2)
      · split at h
        · cases h
        · rcases search_ok (not_lt.mp hsizes) h with rfl | ⟨lots, q, _, _, hquote, _, hdecision⟩
          · exact .inr (.tail _ (.tail _ (.head _)))
          · rw [hdecision]
            exact .inl (CarryStrategy.decide_reason (quote_ok hquote).2.2)

theorem le_upper [IsStrictOrderedRing K] {lots : Int} (h : lots ≤ request.last) :
    request.market.quantityStep * lots ≤ request.upper := by
  rw [← le_div_iff₀' request.market.step_pos]
  exact Int.le_floor.mp h

theorem sizePosition_notional [IsStrictOrderedRing K] {result : SizingResult K}
    (h : sizePosition sqrt strategy request = .ok result) (henter : result.decision.action = .enter) :
    result.quantityBase * request.market.priceUsdt ≤ request.market.maxNotionalUsdt := by
  rcases sizePosition_ok h with hwait | ⟨_, _, lots, q, _, hlast, hquote, hquantity, _⟩
  · rw [hwait] at henter
    cases henter
  · have hupper := le_upper hlast
    rw [hquantity, (quote_ok hquote).1, ← le_div_iff₀ request.market.price_pos]
    exact hupper.trans (min_le_right _ _)

end Entry

end Strategy
end PerpCarry
