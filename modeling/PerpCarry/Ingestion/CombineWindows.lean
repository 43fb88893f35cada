import Mathlib.Data.String.Basic
import PerpCarry.Ingestion.SymbolMeta
import PerpCarry.Lib.Firsts
import PerpCarry.Lib.Frame

/-!
# Ingestion.CombineWindows

The grid of a symbol from windows of its trades: `estimate_grid` and `combine` of
`python/perpcarry/ingestion/derive_symbol_meta.py`.

A window's values are freed of repetitions twice, as texts and then as numbers. The windows are
pooled by a union of their values.

* `estimateGrid_ok`: neither pass loses a number.
* `pooled_ok`: grids that agree are the measure of all the numbers, and pooling finds it.
* `combine_respelled`: the results rest on the numbers alone.
* `Describes.kept`: what was rounded is described wrongly.
* `combine_unbiased`: all this together, and that windows that disagree are not combined.
-/

namespace PerpCarry
namespace Ingestion
namespace CombineWindows

open Lib SymbolMeta
open Strategy (bind_ok pure_ok)

def MIN_DISTINCT_VALUES : Nat := 20

/-! ## Sets of decimals -/

/-- What `==` compares. NaNs are one value here; a set that holds one gives no grid anyway. -/
def numberOf : PyDecimal → Strategy.Decimal ℚ
  | .finite d => .finite d.toRat
  | .infinity negative => .infinity negative
  | .nan => .nan

/-- `frozenset[Decimal]`, in the order in which the elements came. -/
structure FrozenSet where
  elements : List PyDecimal
  distinct : (elements.map numberOf).Nodup
  deriving DecidableEq

namespace FrozenSet

/-- `frozenset(xs)`: of equal decimals the first one is kept. -/
def of (xs : List PyDecimal) : FrozenSet := ⟨firsts numberOf xs, firsts_nodup numberOf xs⟩

/-- The numbers in the set. -/
def numbers (set : FrozenSet) : Set ℚ := {q | ∃ d, .finite d ∈ set.elements ∧ q = d.toRat}

end FrozenSet

/-- The order in which sets are iterated, which the hash table decides. -/
structure SetOrder where
  order : List PyDecimal → List PyDecimal
  perm : ∀ xs, (order xs).Perm xs

/-! ## `estimate_grid` -/

/-- An observed value. -/
inductive Observed where
  | decimal (value : PyDecimal)
  | int (value : Int)
  | text (spelling : String)
  deriving DecidableEq

/-- What a `dict` tells keys apart by: numbers by their value, texts by their spelling. -/
def Observed.dictKey : Observed → Strategy.Decimal ℚ ⊕ String
  | .decimal value => .inl (numberOf value)
  | .int value => .inl (.finite value)
  | .text spelling => .inr spelling

structure GridEstimate where
  value : FiniteDecimal
  values : FrozenSet
  samples : Nat
  deriving DecidableEq

namespace GridEstimate

def distinct (self : GridEstimate) : Nat := self.values.elements.length

def confident (self : GridEstimate) : Bool := MIN_DISTINCT_VALUES ≤ self.distinct

end GridEstimate

/-- `Decimal.__str__`. -/
def decimalText (d : FiniteDecimal) : String :=
  let digits := d.coefficient.repr
  let left : Int := d.exponent + digits.length
  let dot : Int := if d.exponent ≤ 0 ∧ -6 < left then left else 1
  let zeros (n : Int) : String := String.ofList (List.replicate n.toNat '0')
  let mantissa :=
    if dot ≤ 0 then "0." ++ zeros (-dot) ++ digits
    else if digits.length ≤ dot then digits ++ zeros (dot - digits.length)
    else String.ofList (digits.toList.take dot.toNat) ++ "." ++
      String.ofList (digits.toList.drop dot.toNat)
  let exponent :=
    if left = dot then ""
    else "E" ++ (if left < dot then "-" else "+") ++ (left - dot).natAbs.repr
  (if d.negative then "-" else "") ++ mantissa ++ exponent

example : decimalText ⟨false, 125, -3⟩ = "0.125" := by decide
example : decimalText ⟨false, 1, -7⟩ = "1E-7" := by decide

def GridEstimate.caveat (self : GridEstimate) : Option String :=
  if self.confident then none
  else some ("only " ++ self.distinct.repr ++ " distinct value(s) in " ++ self.samples.repr ++
    " sample(s) (want >= " ++ MIN_DISTINCT_VALUES.repr ++ "): " ++ decimalText self.value ++
    " may be a multiple of the true grid. Widen the window.")

structure WindowEstimate where
  symbol : String
  date : String
  tick : GridEstimate
  step : GridEstimate

structure SymbolMeta where
  symbol : String
  tickSize : FiniteDecimal
  stepSize : FiniteDecimal
  windows : List String
  trades : Nat
  distinctPrices : Nat
  distinctQuantities : Nat
  derivedOn : String
  confident : Bool
  caveats : List String
  deriving DecidableEq

inductive CombineError where
  | noWindows
  | differentSymbols (symbols : List String)
  | disagrees (symbol field : String) (detail : List (String × FiniteDecimal))
  | grid (e : GridError)
  deriving DecidableEq

section Model

variable (ctx : Context) (parse : String → Option PyDecimal) (sets : SetOrder)

/-- What `_to_decimal` is given; `parse` is `Decimal(text)`. -/
def Observed.given : Observed → GridValue
  | .decimal value => .decimal value
  | .int value => .int value
  | .text spelling => .text (parse spelling)

/-- `decimal_gcd` of a set. -/
def gcdOfSet (values : FrozenSet) : Except GridError FiniteDecimal :=
  decimalGcd ctx ((sets.order values.elements).map .decimal)

def estimateGrid (values : List Observed) : Except GridError GridEstimate := do
  let seen := firsts Observed.dictKey values
  let decimals ← seen.mapM fun value => toDecimal (value.given parse)
  let unique := FrozenSet.of decimals
  let value ← gcdOfSet ctx sets unique
  return ⟨value, unique, values.length⟩

/-- `frozenset().union(*(getattr(e, field).values for e in estimates))`. -/
def unionOf (grids : List GridEstimate) : FrozenSet :=
  .of (grids.flatMap fun grid => sets.order grid.values.elements)

def pooled (grids : List GridEstimate) (trades : Nat) : Except GridError GridEstimate := do
  let union := unionOf sets grids
  let value ← gcdOfSet ctx sets union
  return ⟨value, union, trades⟩

/-- One pass of the loop over the two fields. -/
def checkField (estimates : List WindowEstimate) (symbol name : String)
    (field : WindowEstimate → GridEstimate) : Except CombineError Unit :=
  refuse (1 < (estimates.map fun e => (field e).value.toRat).dedup.length)
    (.disagrees symbol name (estimates.map fun e => (e.date, (field e).value)))

def combine (estimates : List WindowEstimate) (derivedOn : String) :
    Except CombineError SymbolMeta :=
  match estimates with
  | [] => .error .noWindows
  | first :: _ => do
    let symbols := estimates.map (·.symbol)
    refuse (1 < symbols.dedup.length) (.differentSymbols (unique symbols))
    checkField estimates first.symbol "tick" (·.tick)
    checkField estimates first.symbol "step" (·.step)
    let trades := (estimates.map (·.tick.samples)).sum
    let tick ← (pooled ctx sets (estimates.map (·.tick)) trades).mapError .grid
    let step ← (pooled ctx sets (estimates.map (·.step)) trades).mapError .grid
    let caveats := (tick.caveat.map ("tick size: " ++ ·)).toList ++
      (step.caveat.map ("step size: " ++ ·)).toList ++
      if estimates.length < 2 then
        ["derived from a single window: stability across disjoint windows is the " ++
          "acceptance criterion and was not checked"]
      else []
    return {
      symbol := first.symbol
      tickSize := tick.value
      stepSize := step.value
      windows := estimates.map (·.date)
      trades
      distinctPrices := tick.distinct
      distinctQuantities := step.distinct
      derivedOn
      confident := caveats.isEmpty
      caveats }

end Model

/-! ## What a set of decimals holds -/

/-- The numbers of observed values. -/
def observedNumbers (parse : String → Option PyDecimal) (values : List Observed) : Set ℚ :=
  {q | ∃ v ∈ values, ∃ d, toDecimal (v.given parse) = .ok (.finite d) ∧ q = d.toRat}

section Sets

variable {ctx : Context} {parse : String → Option PyDecimal} {sets : SetOrder}

theorem numberOf_finite {x : PyDecimal} {q : ℚ} :
    numberOf x = .finite q ↔ ∃ d, x = .finite d ∧ q = d.toRat := by
  cases x <;> simp [numberOf, eq_comm]

theorem mem_map_numberOf {xs : List PyDecimal} {q : ℚ} :
    .finite q ∈ xs.map numberOf ↔ ∃ d, .finite d ∈ xs ∧ q = d.toRat := by
  simp only [List.mem_map, numberOf_finite]
  constructor
  · rintro ⟨_, hx, d, rfl, rfl⟩
    exact ⟨d, hx, rfl⟩
  · rintro ⟨d, hd, rfl⟩
    exact ⟨_, hd, d, rfl, rfl⟩

theorem numbers_of (xs : List PyDecimal) :
    (FrozenSet.of xs).numbers = {q | ∃ d, .finite d ∈ xs ∧ q = d.toRat} := by
  ext q
  rw [Set.mem_ofPred_eq, ← mem_map_numberOf, ← mem_keys_firsts, mem_map_numberOf]
  rfl

theorem mapM_decimal (xs : List PyDecimal) :
    (xs.map GridValue.decimal).mapM toDecimal = .ok xs := by
  rw [List.mapM_map]
  have hid : xs.mapM (toDecimal ∘ GridValue.decimal) = .ok (xs.map id) :=
    mapM_of_ok fun x _ => rfl
  rwa [List.map_id] at hid

/-- The decimals of a set that has a grid. -/
theorem set_reads {set : FrozenSet} {g : FiniteDecimal} (h : gcdOfSet ctx sets set = .ok g) :
    ∃ ds, Reads ((sets.order set.elements).map .decimal) ds ∧
      sets.order set.elements = ds.map .finite := by
  obtain ⟨ds, hds⟩ := reads_of_ok h
  have hdecimals := hds.decimals
  rw [mapM_decimal] at hdecimals
  exact ⟨ds, hds, Except.ok.inj hdecimals⟩

theorem set_numbers {set : FrozenSet} {ds : List FiniteDecimal}
    (h : sets.order set.elements = ds.map .finite) : numbers ds = set.numbers := by
  ext q
  have hmem : ∀ d, .finite d ∈ set.elements ↔ d ∈ ds := by
    intro d
    rw [← (sets.perm set.elements).mem_iff, h]
    simp
  simp only [numbers, FrozenSet.numbers, hmem]

theorem set_card {set : FrozenSet} {ds : List FiniteDecimal}
    (h : sets.order set.elements = ds.map .finite) :
    set.elements.length = set.numbers.ncard := by
  have hperm := sets.perm set.elements
  have hnodup : (ds.map FiniteDecimal.toRat).Nodup := by
    have hdistinct := (hperm.map numberOf).nodup_iff.mpr set.distinct
    rw [h, List.map_map] at hdistinct
    have hcompose : numberOf ∘ PyDecimal.finite = Strategy.Decimal.finite ∘ FiniteDecimal.toRat :=
      rfl
    rw [hcompose, ← List.map_map] at hdistinct
    exact hdistinct.of_map _
  rw [← hperm.length_eq, h, List.length_map, ← set_numbers h]
  exact length_eq_ncard hnodup

theorem int_toRat (n : Int) : FiniteDecimal.toRat ⟨decide (n < 0), n.natAbs, 0⟩ = n := by
  unfold FiniteDecimal.toRat FiniteDecimal.magnitude
  rw [zpow_zero, mul_one, Nat.cast_natAbs]
  by_cases hn : n < 0
  · simp [hn, abs_of_neg hn]
  · simp [hn, abs_of_nonneg (not_lt.mp hn)]

/-- A number that reads as its key says. -/
theorem number_of_key {v : Observed} {x : PyDecimal} {number : Strategy.Decimal ℚ}
    (hkey : v.dictKey = .inl number) (h : toDecimal (v.given parse) = .ok x) :
    numberOf x = number := by
  cases v with
  | decimal value =>
    cases h
    exact Sum.inl.inj hkey
  | int value =>
    cases h
    rw [← Sum.inl.inj hkey]
    exact congrArg Strategy.Decimal.finite (int_toRat value)
  | text spelling => cases hkey

/-- Values that a `dict` takes for one key spell one number. -/
theorem same_number {v v' : Observed} {x x' : PyDecimal} (hkey : v.dictKey = v'.dictKey)
    (h : toDecimal (v.given parse) = .ok x) (h' : toDecimal (v'.given parse) = .ok x') :
    numberOf x = numberOf x' := by
  cases hnumber : v.dictKey with
  | inl number => rw [number_of_key hnumber h, number_of_key (hkey.symm.trans hnumber) h']
  | inr spelling =>
    have hv' := hkey.symm.trans hnumber
    cases v with
    | text s =>
      cases v' with
      | text s' =>
        cases hnumber
        cases hv'
        rw [h] at h'
        cases h'
        rfl
      | decimal => cases hv'
      | int => cases hv'
    | decimal => cases hnumber
    | int => cases hnumber

/-- Neither pass of `estimate_grid` loses a number. -/
theorem estimateGrid_ok {values : List Observed} {grid : GridEstimate}
    (h : estimateGrid ctx parse sets values = .ok grid) :
    gcdOfSet ctx sets grid.values = .ok grid.value ∧
      grid.values.numbers = observedNumbers parse values := by
  unfold estimateGrid at h
  simp only [bind_ok, pure_ok] at h
  obtain ⟨decimals, hdecimals, value, hvalue, rfl⟩ := h
  rw [mapM_ok_iff] at hdecimals
  refine ⟨hvalue, ?_⟩
  dsimp only
  rw [numbers_of]
  ext q
  constructor
  · rintro ⟨d, hd, rfl⟩
    obtain ⟨v, hv, hread⟩ := exists_of_forall₂_right hdecimals hd
    exact ⟨v, firsts_subset v hv, d, hread, rfl⟩
  · rintro ⟨v, hv, d, hread, rfl⟩
    have hseen : v.dictKey ∈ (firsts Observed.dictKey values).map Observed.dictKey :=
      mem_keys_firsts.mpr (List.mem_map_of_mem hv)
    obtain ⟨v', hv', hkey⟩ := List.mem_map.mp hseen
    obtain ⟨x, hx, hread'⟩ := exists_of_forall₂_left hdecimals hv'
    obtain ⟨d', rfl, hnumber⟩ := numberOf_finite.mp (same_number hkey hread' hread)
    exact ⟨d', hx, hnumber⟩

end Sets

/-! ## The pooled grid -/

/-- The numbers of several grids together. -/
def pooledNumbers (grids : List GridEstimate) : Set ℚ :=
  {q | ∃ grid ∈ grids, q ∈ grid.values.numbers}

/-- Numbers whose common measure the context does not round. -/
def Kept (ctx : Context) (values : Set ℚ) : Prop := ∃ g, GreatestMeasure values g ∧ ctx.Keeps g

section Pooled

variable {ctx : Context} {sets : SetOrder} {grids : List GridEstimate}

theorem mem_unionOf {x : PyDecimal} (h : x ∈ (unionOf sets grids).elements) :
    ∃ grid ∈ grids, x ∈ sets.order grid.values.elements :=
  List.mem_flatMap.mp (firsts_subset x h)

theorem unionOf_numbers (grids : List GridEstimate) :
    (unionOf sets grids).numbers = pooledNumbers grids := by
  unfold unionOf pooledNumbers FrozenSet.numbers
  rw [← FrozenSet.numbers, numbers_of]
  ext q
  simp only [List.mem_flatMap, (sets.perm _).mem_iff]
  constructor
  · rintro ⟨d, ⟨grid, hgrid, hd⟩, rfl⟩
    exact ⟨grid, hgrid, d, hd, rfl⟩
  · rintro ⟨grid, hgrid, d, hd, rfl⟩
    exact ⟨d, ⟨grid, hgrid, hd⟩, rfl⟩

theorem finite_list {P : FiniteDecimal → Prop} {xs : List PyDecimal}
    (h : ∀ x ∈ xs, ∃ d, x = .finite d ∧ P d) :
    ∃ ds : List FiniteDecimal, xs = ds.map .finite ∧ ∀ d ∈ ds, P d := by
  induction xs with
  | nil => exact ⟨[], rfl, nofun⟩
  | cons x xs ih =>
    obtain ⟨⟨d, rfl, hd⟩, hxs⟩ := List.forall_mem_cons.mp h
    obtain ⟨ds, rfl, hds⟩ := ih hxs
    exact ⟨d :: ds, rfl, List.forall_mem_cons.mpr ⟨hd, hds⟩⟩

/-- Every element of the union is an element of some window. -/
theorem unionOf_finite {P : FiniteDecimal → Prop}
    (h : ∀ grid ∈ grids, ∃ ds : List FiniteDecimal,
      sets.order grid.values.elements = ds.map .finite ∧ ∀ d ∈ ds, P d) :
    ∃ ds : List FiniteDecimal, sets.order (unionOf sets grids).elements = ds.map .finite ∧
      ∀ d ∈ ds, P d := by
  refine finite_list ?_
  intro x hx
  obtain ⟨grid, hgrid, hmem⟩ := mem_unionOf ((sets.perm _).subset hx)
  obtain ⟨ds, hds, hall⟩ := h grid hgrid
  rw [hds] at hmem
  obtain ⟨d, hd, rfl⟩ := List.mem_map.mp hmem
  exact ⟨d, rfl, hall d hd⟩

/-- A window's own grid is the measure of its numbers. -/
theorem grid_greatest {grid : GridEstimate}
    (hbuilt : gcdOfSet ctx sets grid.values = .ok grid.value)
    (hkept : Kept ctx grid.values.numbers) :
    ∃ ds : List FiniteDecimal, sets.order grid.values.elements = ds.map .finite ∧ ds ≠ [] ∧
      (∀ d ∈ ds, 0 < d.toRat) ∧ Fits ctx ds ∧
      GreatestMeasure grid.values.numbers grid.value.toRat := by
  obtain ⟨ds, hreads, hds⟩ := set_reads hbuilt
  have hkeeps := hkept
  unfold Kept at hkeeps
  rw [← set_numbers hds] at hkeeps
  obtain ⟨hfits, hgreatest⟩ := decimalGcd_keeps hreads hbuilt hkeeps
  rw [set_numbers hds] at hgreatest
  exact ⟨ds, hds, hreads.nonempty, hreads.positive, hfits, hgreatest⟩

/-- A window's own grid that measures its numbers was not rounded. -/
theorem grid_kept {grid : GridEstimate}
    (hbuilt : gcdOfSet ctx sets grid.values = .ok grid.value) (hpos : 0 < grid.value.toRat)
    (hmeasures : ∀ q ∈ grid.values.numbers, Measures grid.value.toRat q) :
    Kept ctx grid.values.numbers := by
  obtain ⟨ds, hreads, hds⟩ := set_reads hbuilt
  rw [← set_numbers hds] at hmeasures ⊢
  obtain ⟨m, hm, coefficient, exponent, hvalue, hdigits, hlow, -⟩ :=
    (decimalGcd_measuring hreads hbuilt hpos hmeasures).grid
  exact ⟨m, hm, coefficient, exponent, hvalue, hdigits, hlow⟩

/-- Grids that agree are the measure of all the numbers, and pooling finds it. -/
theorem pooled_ok {g : ℚ} (trades : Nat) (hne : grids ≠ [])
    (hbuilt : ∀ grid ∈ grids, gcdOfSet ctx sets grid.values = .ok grid.value)
    (hkept : ∀ grid ∈ grids, Kept ctx grid.values.numbers)
    (hagree : ∀ grid ∈ grids, grid.value.toRat = g) :
    GreatestMeasure (pooledNumbers grids) g ∧
      ∃ value : FiniteDecimal, value.toRat = g ∧
        pooled ctx sets grids trades = .ok ⟨value, unionOf sets grids, trades⟩ ∧
        (unionOf sets grids).elements.length = (pooledNumbers grids).ncard := by
  have hgrids := fun grid hgrid => grid_greatest (hbuilt grid hgrid) (hkept grid hgrid)
  obtain ⟨first, hfirst⟩ := List.exists_mem_of_ne_nil _ hne
  have hgreatest : GreatestMeasure (pooledNumbers grids) g := by
    have hunion : pooledNumbers grids =
        {q | ∃ grid : {grid // grid ∈ grids}, q ∈ grid.1.values.numbers} := by
      ext q
      simp [pooledNumbers]
    rw [hunion]
    refine GreatestMeasure.union ⟨first, hfirst⟩ ?_
    rintro ⟨grid, hgrid⟩
    obtain ⟨-, -, -, -, -, hown⟩ := hgrids grid hgrid
    rwa [hagree grid hgrid] at hown
  refine ⟨hgreatest, ?_⟩
  obtain ⟨ds, hds, hall⟩ : ∃ ds : List FiniteDecimal,
      sets.order (unionOf sets grids).elements = ds.map .finite ∧ ∀ d ∈ ds, 0 < d.toRat ∧
        digitCount d.coefficient ≤ INT_MAX_STR_DIGITS ∧
        -d.exponent ≤ 2 * (ctx.eMax + ctx.prec) := by
    refine unionOf_finite fun grid hgrid => ?_
    obtain ⟨ds, hds, -, hpositive, hfits, -⟩ := hgrids grid hgrid
    exact ⟨ds, hds, fun d hd => ⟨hpositive d hd, hfits.digits d hd, hfits.places d hd⟩⟩
  have hnumbers : numbers ds = pooledNumbers grids :=
    (set_numbers hds).trans (unionOf_numbers grids)
  obtain ⟨q, hq⟩ : ∃ q, q ∈ pooledNumbers grids := by
    obtain ⟨ds', hds', hne', -⟩ := hgrids first hfirst
    obtain ⟨d, hd⟩ := List.exists_mem_of_ne_nil _ hne'
    refine ⟨d.toRat, first, hfirst, ?_⟩
    rw [← set_numbers hds']
    exact ⟨d, hd, rfl⟩
  have hreads : Reads ((sets.order (unionOf sets grids).elements).map .decimal) ds := {
    decimals := by rw [mapM_decimal, hds]
    nonempty := by
      rintro rfl
      rw [← hnumbers] at hq
      obtain ⟨d, hd, -⟩ := hq
      cases hd
    positive := fun d hd => (hall d hd).1 }
  have hfits : Fits ctx ds := {
    digits := fun d hd => (hall d hd).2.1
    places := fun d hd => (hall d hd).2.2
    grid := by
      obtain ⟨_, hds', -, -, hfits, hown⟩ := hgrids first hfirst
      obtain ⟨m, hm, hrepresentable⟩ := hfits.grid
      rw [set_numbers hds'] at hm
      rw [hm.unique hown, hagree first hfirst] at hrepresentable
      exact ⟨g, hnumbers ▸ hgreatest, hrepresentable⟩ }
  obtain ⟨value, hvalue, hmeasure⟩ := (decimalGcd_greatest hreads).mpr hfits
  rw [hnumbers] at hmeasure
  refine ⟨value, hmeasure.unique hgreatest, ?_, ?_⟩
  · unfold pooled gcdOfSet
    dsimp only
    rw [hvalue]
    rfl
  · rw [set_card hds, unionOf_numbers]

end Pooled

/-! ## `combine` -/

section Combine

variable {ctx : Context} {parse : String → Option PyDecimal} {sets : SetOrder}
  {estimates : List WindowEstimate} {derivedOn : String} {found : SymbolMeta}

/-- All the windows have one value here. -/
def Agree {ι : Type} (estimates : List WindowEstimate) (field : WindowEstimate → ι) : Prop :=
  ∀ e ∈ estimates, ∀ e' ∈ estimates, field e = field e'

theorem agree_iff {ι : Type} [DecidableEq ι] {field : WindowEstimate → ι} :
    ¬ 1 < (estimates.map field).dedup.length ↔ Agree estimates field := by
  rw [not_lt, dedup_length_le_one]
  simp [Agree]

theorem checkField_ok {symbol name : String} {field : WindowEstimate → GridEstimate} {x : Unit} :
    checkField estimates symbol name field = .ok x ↔
      Agree estimates fun e => (field e).value.toRat := by
  unfold checkField
  rw [refuse_ok, agree_iff]

/-- The trades of all the windows. -/
def tradesOf (estimates : List WindowEstimate) : Nat := (estimates.map (·.tick.samples)).sum

/-- When the windows are combined, and the four results that rest on their values. -/
theorem combine_sound (h : combine ctx sets estimates derivedOn = .ok found) :
    estimates ≠ [] ∧ Agree estimates (·.symbol) ∧ (Agree estimates fun e => e.tick.value.toRat) ∧
      (Agree estimates fun e => e.step.value.toRat) ∧
      ∃ tick step, pooled ctx sets (estimates.map (·.tick)) (tradesOf estimates) = .ok tick ∧
        pooled ctx sets (estimates.map (·.step)) (tradesOf estimates) = .ok step ∧
        found.tickSize = tick.value ∧ found.stepSize = step.value ∧
        found.distinctPrices = tick.distinct ∧ found.distinctQuantities = step.distinct := by
  cases estimates with
  | nil => cases h
  | cons first rest =>
    unfold combine at h
    simp only [bind_ok, pure_ok, refuse_ok, checkField_ok, mapError_ok, exists_const, agree_iff]
      at h
    obtain ⟨hsymbol, htick, hstep, tick, hpooled, step, hpooled', rfl⟩ := h
    exact ⟨List.cons_ne_nil _ _, hsymbol, htick, hstep, tick, step, hpooled, hpooled', rfl, rfl,
      rfl, rfl⟩

theorem combine_complete {tick step : GridEstimate} (derivedOn : String) (hne : estimates ≠ [])
    (hsymbol : Agree estimates (·.symbol)) (htick : Agree estimates fun e => e.tick.value.toRat)
    (hstep : Agree estimates fun e => e.step.value.toRat)
    (hpooled : pooled ctx sets (estimates.map (·.tick)) (tradesOf estimates) = .ok tick)
    (hpooled' : pooled ctx sets (estimates.map (·.step)) (tradesOf estimates) = .ok step) :
    ∃ found, combine ctx sets estimates derivedOn = .ok found := by
  cases estimates with
  | nil => exact absurd rfl hne
  | cons first rest =>
    unfold combine
    simp only [bind_ok, pure_ok, refuse_ok, checkField_ok, mapError_ok, exists_const, agree_iff]
    exact ⟨_, hsymbol, htick, hstep, tick, hpooled, step, hpooled', rfl⟩

end Combine

/-- A window that `estimate_grid` made, with the values that it was given. -/
structure Window (ctx : Context) (parse : String → Option PyDecimal) (sets : SetOrder) where
  estimate : WindowEstimate
  prices : List Observed
  quantities : List Observed
  tick : estimateGrid ctx parse sets prices = .ok estimate.tick
  step : estimateGrid ctx parse sets quantities = .ok estimate.step

section Windows

variable {ctx : Context} {parse : String → Option PyDecimal} {sets : SetOrder}

/-- The numbers that were seen in some window. -/
def seen (ws : List (Window ctx parse sets)) (values : Window ctx parse sets → List Observed) :
    Set ℚ :=
  {q | ∃ w ∈ ws, q ∈ observedNumbers parse (values w)}

/-- Neither the prices nor the quantities have a common measure that would be rounded. -/
def Window.Kept (w : Window ctx parse sets) : Prop :=
  CombineWindows.Kept ctx (observedNumbers parse w.prices) ∧
    CombineWindows.Kept ctx (observedNumbers parse w.quantities)

/-- What a record says of the windows. -/
structure Describes (ws : List (Window ctx parse sets)) (found : SymbolMeta) : Prop where
  tick : GreatestMeasure (seen ws (·.prices)) found.tickSize.toRat
  step : GreatestMeasure (seen ws (·.quantities)) found.stepSize.toRat
  ownTick : ∀ w ∈ ws, w.estimate.tick.value.toRat = found.tickSize.toRat
  ownStep : ∀ w ∈ ws, w.estimate.step.value.toRat = found.stepSize.toRat
  prices : found.distinctPrices = (seen ws (·.prices)).ncard
  quantities : found.distinctQuantities = (seen ws (·.quantities)).ncard

/-- The same symbol and the same numbers, window for window. How often a window is in a list, and at
what place, does not matter, nor how the numbers are spelled. -/
def Respelled (ws ws' : List (Window ctx parse sets)) : Prop :=
  ∀ w ∈ ws, ∃ w' ∈ ws', w.estimate.symbol = w'.estimate.symbol ∧
    observedNumbers parse w.prices = observedNumbers parse w'.prices ∧
    observedNumbers parse w.quantities = observedNumbers parse w'.quantities

/-- One of the two fields of the windows, and the values it came from. -/
structure Field (ctx : Context) (parse : String → Option PyDecimal) (sets : SetOrder) where
  field : WindowEstimate → GridEstimate
  values : Window ctx parse sets → List Observed
  built : ∀ w : Window ctx parse sets,
    estimateGrid ctx parse sets (values w) = .ok (field w.estimate)

def tickField : Field ctx parse sets := ⟨(·.tick), (·.prices), Window.tick⟩

def stepField : Field ctx parse sets := ⟨(·.step), (·.quantities), Window.step⟩

variable {ws ws' : List (Window ctx parse sets)} {derivedOn : String} {found : SymbolMeta}

theorem field_greatest (f : Field ctx parse sets) {w : Window ctx parse sets}
    (hkept : CombineWindows.Kept ctx (observedNumbers parse (f.values w))) :
    GreatestMeasure (observedNumbers parse (f.values w)) (f.field w.estimate).value.toRat := by
  obtain ⟨hbuilt, hnumbers⟩ := estimateGrid_ok (f.built w)
  rw [← hnumbers] at hkept ⊢
  obtain ⟨-, -, -, -, -, hgreatest⟩ := grid_greatest hbuilt hkept
  exact hgreatest

theorem field_numbers (ws : List (Window ctx parse sets)) (f : Field ctx parse sets) :
    pooledNumbers ((ws.map (·.estimate)).map f.field) = seen ws f.values := by
  unfold pooledNumbers seen
  simp only [List.map_map, List.mem_map, exists_exists_and_eq_and, Function.comp_apply,
    (estimateGrid_ok (f.built _)).2]

/-- Pooling windows that agree in a field. -/
theorem field_pooled (f : Field ctx parse sets) (trades : Nat) (hne : ws ≠ [])
    (hkept : ∀ w ∈ ws, CombineWindows.Kept ctx (observedNumbers parse (f.values w)))
    (hagree : Agree (ws.map (·.estimate)) fun e => (f.field e).value.toRat) :
    ∃ grid, pooled ctx sets ((ws.map (·.estimate)).map f.field) trades = .ok grid ∧
      GreatestMeasure (seen ws f.values) grid.value.toRat ∧
      (∀ w ∈ ws, (f.field w.estimate).value.toRat = grid.value.toRat) ∧
      grid.distinct = (seen ws f.values).ncard := by
  obtain ⟨first, hfirst⟩ := List.exists_mem_of_ne_nil _ hne
  have hown : ∀ w ∈ ws, (f.field w.estimate).value.toRat =
      (f.field first.estimate).value.toRat := fun w hw =>
    hagree _ (List.mem_map_of_mem hw) _ (List.mem_map_of_mem hfirst)
  have hall : ∀ {P : GridEstimate → Prop}, (∀ w ∈ ws, P (f.field w.estimate)) →
      ∀ grid ∈ (ws.map (·.estimate)).map f.field, P grid := by
    intro P h grid hgrid
    simp only [List.map_map, List.mem_map, Function.comp_apply] at hgrid
    obtain ⟨w, hw, rfl⟩ := hgrid
    exact h w hw
  have hne' : (ws.map (·.estimate)).map f.field ≠ [] := by simpa using hne
  have hbuilt : ∀ grid ∈ (ws.map (·.estimate)).map f.field,
      gcdOfSet ctx sets grid.values = .ok grid.value :=
    hall fun w _ => (estimateGrid_ok (f.built w)).1
  have hkept' : ∀ grid ∈ (ws.map (·.estimate)).map f.field,
      CombineWindows.Kept ctx grid.values.numbers := by
    refine hall fun w hw => ?_
    rw [(estimateGrid_ok (f.built w)).2]
    exact hkept w hw
  obtain ⟨hgreatest, value, hvalue, hpooled, hcard⟩ :=
    pooled_ok trades hne' hbuilt hkept' (hall hown)
  rw [field_numbers] at hgreatest hcard
  refine ⟨_, hpooled, ?_, ?_, hcard⟩
  · rwa [hvalue]
  · intro w hw
    rw [hvalue]
    exact hown w hw

/-- Windows that spell the same numbers agree if the others do. -/
theorem agree_respelled (f : Field ctx parse sets)
    (hkept : ∀ w ∈ ws, CombineWindows.Kept ctx (observedNumbers parse (f.values w)))
    (hsame : ∀ w' ∈ ws', ∃ w ∈ ws,
      observedNumbers parse (f.values w') = observedNumbers parse (f.values w))
    (hagree : Agree (ws.map (·.estimate)) fun e => (f.field e).value.toRat) :
    (∀ w' ∈ ws', CombineWindows.Kept ctx (observedNumbers parse (f.values w'))) ∧
      Agree (ws'.map (·.estimate)) fun e => (f.field e).value.toRat := by
  have hkept' : ∀ w' ∈ ws', CombineWindows.Kept ctx (observedNumbers parse (f.values w')) := by
    intro w' hw'
    obtain ⟨w, hw, hnumbers⟩ := hsame w' hw'
    rw [hnumbers]
    exact hkept w hw
  have hown : ∀ w' ∈ ws', ∃ w ∈ ws,
      (f.field w'.estimate).value.toRat = (f.field w.estimate).value.toRat := by
    intro w' hw'
    obtain ⟨w, hw, hnumbers⟩ := hsame w' hw'
    have hgreatest := field_greatest f (hkept' w' hw')
    rw [hnumbers] at hgreatest
    exact ⟨w, hw, hgreatest.unique (field_greatest f (hkept w hw))⟩
  refine ⟨hkept', ?_⟩
  intro e he e' he'
  obtain ⟨w, hw, rfl⟩ := List.mem_map.mp he
  obtain ⟨w', hw', rfl⟩ := List.mem_map.mp he'
  obtain ⟨v, hv, hvalue⟩ := hown w hw
  obtain ⟨v', hv', hvalue'⟩ := hown w' hw'
  dsimp only
  rw [hvalue, hvalue']
  exact hagree _ (List.mem_map_of_mem hv) _ (List.mem_map_of_mem hv')

theorem seen_respelled (f : Window ctx parse sets → List Observed)
    (h : ∀ w ∈ ws, ∃ w' ∈ ws', observedNumbers parse (f w) = observedNumbers parse (f w'))
    (h' : ∀ w' ∈ ws', ∃ w ∈ ws, observedNumbers parse (f w') = observedNumbers parse (f w)) :
    seen ws f = seen ws' f := by
  ext q
  constructor
  · rintro ⟨w, hw, hq⟩
    obtain ⟨w', hw', hnumbers⟩ := h w hw
    exact ⟨w', hw', hnumbers ▸ hq⟩
  · rintro ⟨w', hw', hq⟩
    obtain ⟨w, hw, hnumbers⟩ := h' w' hw'
    exact ⟨w, hw, hnumbers ▸ hq⟩

theorem combine_describes (hkept : ∀ w ∈ ws, w.Kept)
    (h : combine ctx sets (ws.map (·.estimate)) derivedOn = .ok found) : Describes ws found := by
  obtain ⟨hne, -, htick, hstep, tick, step, hpooled, hpooled', htickSize, hstepSize, hprices,
    hquantities⟩ := combine_sound h
  have hws : ws ≠ [] := by simpa using hne
  obtain ⟨tick', hpooledTick, hgreatest, hown, hcard⟩ :=
    field_pooled tickField (tradesOf (ws.map (·.estimate))) hws (fun w hw => (hkept w hw).1) htick
  obtain ⟨step', hpooledStep, hgreatest', hown', hcard'⟩ :=
    field_pooled stepField (tradesOf (ws.map (·.estimate))) hws (fun w hw => (hkept w hw).2) hstep
  obtain rfl := Except.ok.inj (hpooled.symm.trans hpooledTick)
  obtain rfl := Except.ok.inj (hpooled'.symm.trans hpooledStep)
  exact {
    tick := htickSize ▸ hgreatest
    step := hstepSize ▸ hgreatest'
    ownTick := htickSize ▸ hown
    ownStep := hstepSize ▸ hown'
    prices := hprices.trans hcard
    quantities := hquantities.trans hcard' }

theorem field_kept (f : Field ctx parse sets) {g : ℚ} {w : Window ctx parse sets} (hw : w ∈ ws)
    (hgreatest : GreatestMeasure (seen ws f.values) g)
    (hown : (f.field w.estimate).value.toRat = g) :
    CombineWindows.Kept ctx (observedNumbers parse (f.values w)) := by
  obtain ⟨hbuilt, hnumbers⟩ := estimateGrid_ok (f.built w)
  rw [← hnumbers]
  refine grid_kept hbuilt (hown ▸ hgreatest.pos) ?_
  intro q hq
  rw [hown]
  exact hgreatest.measures q ⟨w, hw, hnumbers ▸ hq⟩

/-- Windows of which a record says all that were not rounded. -/
theorem Describes.kept (h : Describes ws found) : ∀ w ∈ ws, w.Kept :=
  fun w hw => ⟨field_kept tickField hw h.tick (h.ownTick w hw),
    field_kept stepField hw h.step (h.ownStep w hw)⟩

/-- The four results rest on the numbers alone. -/
theorem combine_respelled (hkept : ∀ w ∈ ws, w.Kept) (hsame : Respelled ws ws')
    (hsame' : Respelled ws' ws)
    (h : combine ctx sets (ws.map (·.estimate)) derivedOn = .ok found) :
    ∃ found', combine ctx sets (ws'.map (·.estimate)) derivedOn = .ok found' ∧
      found'.tickSize.toRat = found.tickSize.toRat ∧
      found'.stepSize.toRat = found.stepSize.toRat ∧
      found'.distinctPrices = found.distinctPrices ∧
      found'.distinctQuantities = found.distinctQuantities := by
  have hdescribes := combine_describes hkept h
  obtain ⟨hne, hsymbol, htick, hstep, -⟩ := combine_sound h
  have hws' : ws' ≠ [] := by
    rintro rfl
    obtain ⟨w, hw⟩ := List.exists_mem_of_ne_nil ws (by simpa using hne)
    obtain ⟨w', hw', -⟩ := hsame w hw
    cases hw'
  obtain ⟨hkeptTick, htick'⟩ := agree_respelled tickField (fun w hw => (hkept w hw).1)
    (fun w' hw' => (hsame' w' hw').imp fun w hw => ⟨hw.1, hw.2.2.1⟩) htick
  obtain ⟨hkeptStep, hstep'⟩ := agree_respelled stepField (fun w hw => (hkept w hw).2)
    (fun w' hw' => (hsame' w' hw').imp fun w hw => ⟨hw.1, hw.2.2.2⟩) hstep
  have hsymbol' : Agree (ws'.map (·.estimate)) (·.symbol) := by
    intro e he e' he'
    obtain ⟨w, hw, rfl⟩ := List.mem_map.mp he
    obtain ⟨w', hw', rfl⟩ := List.mem_map.mp he'
    obtain ⟨v, hv, hname, -⟩ := hsame' w hw
    obtain ⟨v', hv', hname', -⟩ := hsame' w' hw'
    dsimp only
    rw [hname, hname']
    exact hsymbol _ (List.mem_map_of_mem hv) _ (List.mem_map_of_mem hv')
  obtain ⟨tick, hpooled, -⟩ :=
    field_pooled tickField (tradesOf (ws'.map (·.estimate))) hws' hkeptTick htick'
  obtain ⟨step, hpooled', -⟩ :=
    field_pooled stepField (tradesOf (ws'.map (·.estimate))) hws' hkeptStep hstep'
  obtain ⟨found', hfound'⟩ := combine_complete derivedOn (by simpa using hws') hsymbol' htick'
    hstep' hpooled hpooled'
  have hdescribes' := combine_describes (fun w' hw' => ⟨hkeptTick w' hw', hkeptStep w' hw'⟩) hfound'
  have hprices : seen ws (·.prices) = seen ws' (·.prices) :=
    seen_respelled _ (fun w hw => (hsame w hw).imp fun w' hw' => ⟨hw'.1, hw'.2.2.1⟩)
      fun w' hw' => (hsame' w' hw').imp fun w hw => ⟨hw.1, hw.2.2.1⟩
  have hquantities : seen ws (·.quantities) = seen ws' (·.quantities) :=
    seen_respelled _ (fun w hw => (hsame w hw).imp fun w' hw' => ⟨hw'.1, hw'.2.2.2⟩)
      fun w' hw' => (hsame' w' hw').imp fun w hw => ⟨hw.1, hw.2.2.2⟩
  refine ⟨found', hfound', ?_, ?_, ?_, ?_⟩
  · exact hdescribes'.tick.unique (hprices ▸ hdescribes.tick)
  · exact hdescribes'.step.unique (hquantities ▸ hdescribes.step)
  · rw [hdescribes'.prices, hdescribes.prices, hprices]
  · rw [hdescribes'.quantities, hdescribes.quantities, hquantities]

/-- Windows whose grids are not the same are not combined. -/
theorem combine_disagree {estimates : List WindowEstimate} {e e' : WindowEstimate}
    (he : e ∈ estimates) (he' : e' ∈ estimates)
    (h : e.tick.value.toRat ≠ e'.tick.value.toRat ∨ e.step.value.toRat ≠ e'.step.value.toRat) :
    ∃ error, combine ctx sets estimates derivedOn = .error error := by
  cases hfound : combine ctx sets estimates derivedOn with
  | error error => exact ⟨error, rfl⟩
  | ok found =>
    obtain ⟨-, -, htick, hstep, -⟩ := combine_sound hfound
    rcases h with h | h
    · exact absurd (htick e he e' he') h
    · exact absurd (hstep e he e' he') h

/-- Windows that are all in another list: put in order, or repeated. -/
theorem Respelled.of_subset (h : ∀ w ∈ ws, w ∈ ws') : Respelled ws ws' :=
  fun w hw => ⟨w, h w hw, rfl, rfl, rfl⟩

/-- The record of windows is the measure of everything that was seen in them, and does not depend on
how they are put, if and only if no measure of a window was rounded; windows that disagree have no
record. -/
theorem combine_unbiased (ctx : Context) (parse : String → Option PyDecimal) (sets : SetOrder)
    (ws : List (Window ctx parse sets)) (derivedOn : String) :
    (∀ found, combine ctx sets (ws.map (·.estimate)) derivedOn = .ok found →
      ((Describes ws found ∧
        ∀ ws' : List (Window ctx parse sets), Respelled ws ws' → Respelled ws' ws →
          ∃ found', combine ctx sets (ws'.map (·.estimate)) derivedOn = .ok found' ∧
            found'.tickSize.toRat = found.tickSize.toRat ∧
            found'.stepSize.toRat = found.stepSize.toRat ∧
            found'.distinctPrices = found.distinctPrices ∧
            found'.distinctQuantities = found.distinctQuantities) ↔
        ∀ w ∈ ws, w.Kept)) ∧
    (∀ w ∈ ws, ∀ w' ∈ ws,
      (w.estimate.tick.value.toRat ≠ w'.estimate.tick.value.toRat ∨
        w.estimate.step.value.toRat ≠ w'.estimate.step.value.toRat) →
      ∀ ws' : List (Window ctx parse sets), ws'.Perm ws →
        ∃ error, combine ctx sets (ws'.map (·.estimate)) derivedOn = .error error) := by
  constructor
  · intro found h
    constructor
    · rintro ⟨hdescribes, -⟩
      exact hdescribes.kept
    · intro hkept
      refine ⟨combine_describes hkept h, ?_⟩
      intro ws' hsame hsame'
      exact combine_respelled hkept hsame hsame' h
  · intro w hw w' hw' hdiffer ws' hperm
    have hmem : ∀ v ∈ ws, v.estimate ∈ ws'.map (·.estimate) := fun v hv =>
      List.mem_map_of_mem (hperm.symm.subset hv)
    exact combine_disagree (hmem w hw) (hmem w' hw') hdiffer

end Windows

/-! ### Under the default context -/

def backward : SetOrder := ⟨List.reverse, List.reverse_perm⟩

/-- `Decimal(text)` of a few texts. -/
def fewTexts : String → Option PyDecimal
  | "0.5" => some (.finite ⟨false, 5, -1⟩)
  | "0.50" => some (.finite ⟨false, 50, -2⟩)
  | "10.5" => some (.finite ⟨false, 105, -1⟩)
  | "1" => some (.finite ⟨false, 1, 0⟩)
  | "1.0" => some (.finite ⟨false, 10, -1⟩)
  | _ => none

/-- Below what the context can hold. -/
def tinyPrice : PyDecimal := .finite ⟨false, 1, -1000030⟩

def gridOfValues (value : FiniteDecimal) (elements : List PyDecimal) (samples : Nat) :
    GridEstimate :=
  ⟨value, .of elements, samples⟩

def tinyWindow : Window defaultContext fewTexts backward where
  estimate := {
    symbol := "BTCUSDT"
    date := "2026-08-01"
    tick := gridOfValues ⟨false, 0, 0⟩ [tinyPrice] 1
    step := gridOfValues ⟨false, 1, 0⟩ [.finite ⟨false, 10, -1⟩] 1 }
  prices := [.decimal tinyPrice]
  quantities := [.text "1.0"]
  tick := by decide +kernel
  step := by decide +kernel

def tinyMeta : SymbolMeta where
  symbol := "BTCUSDT"
  tickSize := ⟨false, 0, 0⟩
  stepSize := ⟨false, 1, 0⟩
  windows := ["2026-08-01"]
  trades := 1
  distinctPrices := 1
  distinctQuantities := 1
  derivedOn := "2026-08-09"
  confident := false
  caveats := [
    "tick size: only 1 distinct value(s) in 1 sample(s) (want >= 20): 0 may be a multiple of " ++
      "the true grid. Widen the window.",
    "step size: only 1 distinct value(s) in 1 sample(s) (want >= 20): 1 may be a multiple of " ++
      "the true grid. Widen the window.",
    "derived from a single window: stability across disjoint windows is the acceptance " ++
      "criterion and was not checked"]

/-- A measure of one digit that is rounded away. -/
theorem combine_underflow :
    combine defaultContext backward [tinyWindow.estimate] "2026-08-09" = .ok tinyMeta ∧
      GreatestMeasure (seen [tinyWindow] (·.prices)) ((1 : Nat) * (10 : ℚ) ^ (-1000030 : Int)) ∧
      tinyMeta.tickSize.toRat ≠ (1 : Nat) * (10 : ℚ) ^ (-1000030 : Int) := by
  have hpos : (0 : ℚ) < (1 : Nat) * (10 : ℚ) ^ (-1000030 : Int) :=
    mul_pos (by norm_num) (zpow_pos (by norm_num) _)
  have hseen : ∀ q, q ∈ seen [tinyWindow] (·.prices) ↔
      q = (1 : Nat) * (10 : ℚ) ^ (-1000030 : Int) := by
    intro q
    constructor
    · rintro ⟨_, hw, _, hv, d, hread, rfl⟩
      cases List.mem_singleton.mp hw
      cases List.mem_singleton.mp hv
      cases hread
      rfl
    · rintro rfl
      exact ⟨tinyWindow, List.mem_singleton_self _, _, List.mem_singleton_self _, _, rfl, rfl⟩
  refine ⟨by decide +kernel, .of_mem hpos ((hseen _).mpr rfl) ?_, ?_⟩
  · intro q hq
    exact ⟨1, by rw [(hseen q).mp hq, Int.cast_one, one_mul]⟩
  · have hzero : tinyMeta.tickSize.toRat = 0 := by
      simp [tinyMeta, FiniteDecimal.toRat, FiniteDecimal.magnitude]
    rw [hzero]
    exact hpos.ne

def firstWindow : Window defaultContext fewTexts backward where
  estimate := {
    symbol := "BTCUSDT"
    date := "2026-08-01"
    tick := gridOfValues ⟨false, 5, -1⟩ [.finite ⟨false, 5, -1⟩, .finite ⟨false, 105, -1⟩] 3
    step := gridOfValues ⟨false, 1, 0⟩ [.finite ⟨false, 10, -1⟩] 1 }
  prices := [.text "0.5", .text "10.5", .text "10.5"]
  quantities := [.text "1.0"]
  tick := by decide +kernel
  step := by decide +kernel

def secondWindow : Window defaultContext fewTexts backward where
  estimate := {
    symbol := "BTCUSDT"
    date := "2026-08-02"
    tick := gridOfValues ⟨false, 5, -1⟩ [.finite ⟨false, 50, -2⟩, .finite ⟨false, 1, 0⟩] 2
    step := gridOfValues ⟨false, 1, 0⟩ [.finite ⟨false, 1, 0⟩] 1 }
  prices := [.text "0.50", .int 1]
  quantities := [.text "1"]
  tick := by decide +kernel
  step := by decide +kernel

/-- Too thin to show the half. -/
def thinWindow : Window defaultContext fewTexts backward where
  estimate := {
    symbol := "BTCUSDT"
    date := "2026-08-03"
    tick := gridOfValues ⟨false, 1, 0⟩ [.finite ⟨false, 1, 0⟩] 1
    step := gridOfValues ⟨false, 1, 0⟩ [.finite ⟨false, 1, 0⟩] 1 }
  prices := [.text "1"]
  quantities := [.text "1"]
  tick := by decide +kernel
  step := by decide +kernel

def twoWindowMeta : SymbolMeta where
  symbol := "BTCUSDT"
  tickSize := ⟨false, 5, -1⟩
  stepSize := ⟨false, 1, 0⟩
  windows := ["2026-08-01", "2026-08-02"]
  trades := 5
  distinctPrices := 3
  distinctQuantities := 1
  derivedOn := "2026-08-09"
  confident := false
  caveats := [
    "tick size: only 3 distinct value(s) in 5 sample(s) (want >= 20): 0.5 may be a multiple of " ++
      "the true grid. Widen the window.",
    "step size: only 1 distinct value(s) in 5 sample(s) (want >= 20): 1 may be a multiple of " ++
      "the true grid. Widen the window."]

theorem observed_eq {parse : String → Option PyDecimal} {values : List Observed}
    {ds : List FiniteDecimal}
    (h : (values.mapM fun v => toDecimal (v.given parse)) = .ok (ds.map .finite)) :
    observedNumbers parse values = numbers ds := by
  rw [mapM_ok_iff] at h
  ext q
  constructor
  · rintro ⟨v, hv, d, hread, rfl⟩
    obtain ⟨x, hx, hread'⟩ := exists_of_forall₂_left h hv
    rw [hread] at hread'
    cases hread'
    exact ⟨d, by simpa using hx, rfl⟩
  · rintro ⟨d, hd, rfl⟩
    obtain ⟨v, hv, hread⟩ := exists_of_forall₂_right h (List.mem_map_of_mem hd)
    exact ⟨v, hv, d, hread, rfl⟩

/-- Values among which is their measure. -/
theorem kept_of_mem {ctx : Context} {ds : List FiniteDecimal} {g : FiniteDecimal} (hg : g ∈ ds)
    (hpos : 0 < g.toRat) (hmeasures : ∀ d ∈ ds, Measures g.toRat d.toRat)
    (hkeeps : ctx.Keeps g.toRat) : Kept ctx (numbers ds) := by
  refine ⟨g.toRat, .of_mem hpos ⟨g, hg, rfl⟩ ?_, hkeeps⟩
  rintro _ ⟨d, hd, rfl⟩
  exact hmeasures d hd

theorem toRat_half : FiniteDecimal.toRat ⟨false, 5, -1⟩ = 1 / 2 := by
  norm_num [FiniteDecimal.toRat, FiniteDecimal.magnitude]

theorem firstWindow_kept : firstWindow.Kept := by
  constructor
  · have hprices : observedNumbers fewTexts firstWindow.prices =
        numbers [⟨false, 5, -1⟩, ⟨false, 105, -1⟩, ⟨false, 105, -1⟩] :=
      observed_eq (by decide +kernel)
    rw [hprices]
    refine kept_of_mem List.mem_cons_self ?_ ?_ ⟨5, -1, rfl, by decide, by decide⟩
    · rw [toRat_half]
      norm_num
    · simp only [List.mem_cons, List.not_mem_nil, or_false, forall_eq_or_imp, forall_eq, toRat_half]
      have hlong : FiniteDecimal.toRat ⟨false, 105, -1⟩ = 21 / 2 := by
        norm_num [FiniteDecimal.toRat, FiniteDecimal.magnitude]
      rw [hlong]
      exact ⟨⟨1, by norm_num⟩, ⟨21, by norm_num⟩, ⟨21, by norm_num⟩⟩
  · have hquantities : observedNumbers fewTexts firstWindow.quantities =
        numbers [⟨false, 10, -1⟩] := observed_eq (by decide +kernel)
    rw [hquantities]
    refine kept_of_mem List.mem_cons_self ?_ ?_ ⟨10, -1, rfl, by decide, by decide⟩
    · norm_num [FiniteDecimal.toRat, FiniteDecimal.magnitude]
    · intro d hd
      exact ⟨1, by rw [List.mem_singleton.mp hd, Int.cast_one, one_mul]⟩

theorem secondWindow_kept : secondWindow.Kept := by
  constructor
  · have hprices : observedNumbers fewTexts secondWindow.prices =
        numbers [⟨false, 50, -2⟩, ⟨false, 1, 0⟩] := observed_eq (by decide +kernel)
    rw [hprices]
    have hhalf : FiniteDecimal.toRat ⟨false, 50, -2⟩ = 1 / 2 := by
      norm_num [FiniteDecimal.toRat, FiniteDecimal.magnitude]
    have hone : FiniteDecimal.toRat ⟨false, 1, 0⟩ = 1 := by
      norm_num [FiniteDecimal.toRat, FiniteDecimal.magnitude]
    refine kept_of_mem List.mem_cons_self ?_ ?_ ⟨50, -2, rfl, by decide, by decide⟩
    · rw [hhalf]
      norm_num
    · simp only [List.mem_cons, List.not_mem_nil, or_false, forall_eq_or_imp, forall_eq, hhalf,
        hone]
      exact ⟨⟨1, by norm_num⟩, ⟨2, by norm_num⟩⟩
  · have hquantities : observedNumbers fewTexts secondWindow.quantities =
        numbers [⟨false, 1, 0⟩] := observed_eq (by decide +kernel)
    rw [hquantities]
    refine kept_of_mem List.mem_cons_self ?_ ?_ ⟨1, 0, rfl, by decide, by decide⟩
    · norm_num [FiniteDecimal.toRat, FiniteDecimal.magnitude]
    · intro d hd
      exact ⟨1, by rw [List.mem_singleton.mp hd, Int.cast_one, one_mul]⟩

/-- Two windows, the same two put otherwise, and one that disagrees. -/
theorem combine_unbiased_two :
    (Describes [firstWindow, secondWindow] twoWindowMeta ∧
      ∃ found', combine defaultContext backward
          ([secondWindow, firstWindow, secondWindow].map (·.estimate)) "2026-08-09" = .ok found' ∧
        found'.tickSize.toRat = twoWindowMeta.tickSize.toRat ∧
        found'.stepSize.toRat = twoWindowMeta.stepSize.toRat ∧
        found'.distinctPrices = twoWindowMeta.distinctPrices ∧
        found'.distinctQuantities = twoWindowMeta.distinctQuantities) ∧
    ∃ error, combine defaultContext backward ([thinWindow, firstWindow].map (·.estimate))
      "2026-08-09" = .error error := by
  have hkept : ∀ w ∈ [firstWindow, secondWindow], w.Kept := by
    simp only [List.mem_cons, List.not_mem_nil, or_false, forall_eq_or_imp, forall_eq]
    exact ⟨firstWindow_kept, secondWindow_kept⟩
  have hfound : combine defaultContext backward
      ([firstWindow, secondWindow].map (·.estimate)) "2026-08-09" = .ok twoWindowMeta := by
    decide +kernel
  obtain ⟨hdescribes, hrespelled⟩ :=
    ((combine_unbiased defaultContext fewTexts backward [firstWindow, secondWindow]
      "2026-08-09").1 twoWindowMeta hfound).mpr hkept
  refine ⟨⟨hdescribes, hrespelled _ (.of_subset ?_) (.of_subset ?_)⟩, ?_⟩
  · simp
  · simp
  · have hone : FiniteDecimal.toRat ⟨false, 1, 0⟩ = 1 := by
      norm_num [FiniteDecimal.toRat, FiniteDecimal.magnitude]
    refine (combine_unbiased defaultContext fewTexts backward [firstWindow, thinWindow]
      "2026-08-09").2 firstWindow (by simp) thinWindow (by simp) (.inl ?_) _ (List.Perm.swap ..)
    show FiniteDecimal.toRat ⟨false, 5, -1⟩ ≠ FiniteDecimal.toRat ⟨false, 1, 0⟩
    rw [toRat_half, hone]
    norm_num

end CombineWindows
end Ingestion
end PerpCarry
