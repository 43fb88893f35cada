import PerpCarry.Core.PyDecimal
import PerpCarry.Lib.CommonMeasure
import PerpCarry.Lib.EventRun
import PerpCarry.Strategy.Decimal

/-!
# Ingestion.SymbolMeta

The greatest common divisor of decimals: `decimal_gcd` of
`python/perpcarry/ingestion/derive_symbol_meta.py`.

The values are scaled to integers on their digits, so no context can round them. The common divisor
is scaled back with operations of the context, and these do round.

* `gridOf_scaled`: what is scaled back is the greatest common measure of the values.
* `decimalGcd_greatest`: the result is that measure if and only if the context holds it.
* `decimalGcd_respelled`: two lists of the same numbers.
* `decimalGcd_keeps`: a result that was not rounded.
-/

namespace PerpCarry
namespace Ingestion
namespace SymbolMeta

open Lib
open Strategy (bind_ok pure_ok)

/-- The digits that `int` reads from a string at most. -/
def INT_MAX_STR_DIGITS : Nat := 4300

/-- An argument, by its Python type; a string is kept as the number it spells, if it spells one. -/
inductive GridValue where
  | decimal (value : PyDecimal)
  | int (value : Int)
  | text (parsed : Option PyDecimal)
  | float
  | other (typeName : String)

/-- `SymbolMetaError`, `TypeError`, the `ValueError` of `int`, or a signal of the context. -/
inductive GridError where
  | noValues
  | floatRejected
  | notADecimal
  | wrongType (typeName : String)
  | nonPositive (first : PyDecimal)
  | nonFinite (value : PyDecimal)
  | truncated (value : FiniteDecimal) (places : Int)
  | tooManyDigits
  | signal (signal : DecimalSignal)
  deriving DecidableEq

/-- `_to_decimal`. -/
def toDecimal : GridValue → Except GridError PyDecimal
  | .decimal value => .ok value
  | .int value => .ok (.finite ⟨decide (value < 0), value.natAbs, 0⟩)
  | .text (some value) => .ok value
  | .text none => .error .notADecimal
  | .float => .error .floatRejected
  | .other typeName => .error (.wrongType typeName)

/-- `d <= 0`. -/
def atMostZero : PyDecimal → Except GridError Bool
  | .finite d => .ok (d.negative || d.coefficient = 0)
  | .infinity negative => .ok negative
  | .nan => .error (.signal .invalidOperation)

/-- `[d for d in decimals if d <= 0]`. -/
def nonPositive : List PyDecimal → Except GridError (List PyDecimal)
  | [] => .ok []
  | d :: rest => do
    let bad ← atMostZero d
    let found ← nonPositive rest
    return if bad then d :: found else found

/-- The check of `_decimal_places`: an infinity or a NaN has no exponent. -/
def finiteOf : PyDecimal → Except GridError FiniteDecimal
  | .finite d => .ok d
  | d => .error (.nonFinite d)

/-- `_decimal_places`. -/
def decimalPlaces (d : FiniteDecimal) : Int := max (-d.exponent) 0

/-- `_as_scaled_int`: `d * 10**places`. -/
def asScaledInt (places : Int) (d : FiniteDecimal) : Except GridError Nat :=
  if INT_MAX_STR_DIGITS < digitCount d.coefficient then .error .tooManyDigits
  else
    let shift := d.exponent + places
    if shift < 0 then .error (.truncated d places)
    else .ok (d.coefficient * 10 ^ shift.toNat)

/-- `max(_decimal_places(d) for d in decimals)`. -/
def maxPlaces (first : FiniteDecimal) (rest : List FiniteDecimal) : Int :=
  (rest.map decimalPlaces).foldl max (decimalPlaces first)

/-- The end of `decimal_gcd`, for positive finite values. -/
def gridOf (ctx : Context) (first : FiniteDecimal) (rest : List FiniteDecimal) :
    Except GridError FiniteDecimal := do
  let places := maxPlaces first rest
  let scaledFirst ← asScaledInt places first
  let scaledRest ← rest.mapM (asScaledInt places)
  let common := gcdOf scaledFirst scaledRest
  match ctx.scaledBack common places with
  | .error signal => .error (.signal signal)
  | .ok grid => return grid.plain

def decimalGcd (ctx : Context) (values : List GridValue) : Except GridError FiniteDecimal := do
  let decimals ← values.mapM toDecimal
  let bad ← nonPositive decimals
  match bad with
  | worst :: _ => .error (.nonPositive worst)
  | [] =>
    let finite ← decimals.mapM finiteOf
    match finite with
    | [] => .error .noValues
    | first :: rest => gridOf ctx first rest

/-! ## Positive finite values -/

/-- Arguments that are positive finite decimals, one at least. -/
structure Reads (values : List GridValue) (ds : List FiniteDecimal) : Prop where
  decimals : values.mapM toDecimal = .ok (ds.map .finite)
  nonempty : ds ≠ []
  positive : ∀ d ∈ ds, 0 < d.toRat

/-- The numbers that decimals spell. -/
def numbers (ds : List FiniteDecimal) : Set ℚ := {q | ∃ d ∈ ds, q = d.toRat}

/-- Each coefficient can be read as an integer, the places are in the range of `scaleb`, and the
context holds the common measure. -/
structure Fits (ctx : Context) (ds : List FiniteDecimal) : Prop where
  digits : ∀ d ∈ ds, digitCount d.coefficient ≤ INT_MAX_STR_DIGITS
  places : ∀ d ∈ ds, -d.exponent ≤ 2 * (ctx.eMax + ctx.prec)
  grid : ∃ g, GreatestMeasure (numbers ds) g ∧ ctx.Representable g

theorem positive_iff {d : FiniteDecimal} :
    0 < d.toRat ↔ d.negative = false ∧ d.coefficient ≠ 0 := by
  have hpow : (0 : ℚ) < 10 ^ d.exponent := zpow_pos (by norm_num) _
  have hnonneg : 0 ≤ d.magnitude := mul_nonneg (Nat.cast_nonneg _) hpow.le
  unfold FiniteDecimal.toRat
  cases d.negative with
  | false =>
    have hpos : 0 < d.magnitude ↔ d.coefficient ≠ 0 := by
      rw [FiniteDecimal.magnitude, mul_pos_iff_of_pos_right hpow, Nat.cast_pos, Nat.pos_iff_ne_zero]
    simp [hpos]
  | true => simp [hnonneg]

theorem nonPositive_finite {ds : List FiniteDecimal} (h : ∀ d ∈ ds, 0 < d.toRat) :
    nonPositive (ds.map .finite) = .ok [] := by
  induction ds with
  | nil => rfl
  | cons d ds ih =>
    obtain ⟨hd, hds⟩ := List.forall_mem_cons.mp h
    obtain ⟨hsign, hne⟩ := positive_iff.mp hd
    rw [List.map_cons, nonPositive, ih hds]
    simp [atMostZero, hsign, hne, bind, Except.bind, pure, Except.pure]

theorem decimalGcd_reads {ctx : Context} {values : List GridValue} {first : FiniteDecimal}
    {rest : List FiniteDecimal} (h : Reads values (first :: rest)) :
    decimalGcd ctx values = gridOf ctx first rest := by
  have hfinite : ((first :: rest).map PyDecimal.finite).mapM finiteOf = .ok (first :: rest) := by
    rw [List.mapM_map]
    have hid : (first :: rest).mapM (finiteOf ∘ PyDecimal.finite) = .ok ((first :: rest).map id) :=
      mapM_of_ok fun d _ => rfl
    rwa [List.map_id] at hid
  unfold decimalGcd
  rw [h.decimals]
  simp only [bind, Except.bind, nonPositive_finite h.positive, hfinite]

/-! ## Scaling -/

/-- What `_as_scaled_int` returns. -/
def scaledNat (places : Int) (d : FiniteDecimal) : Nat :=
  d.coefficient * 10 ^ (d.exponent + places).toNat

theorem asScaledInt_ok {places : Int} {d : FiniteDecimal} (hplaces : -d.exponent ≤ places) :
    asScaledInt places d = if INT_MAX_STR_DIGITS < digitCount d.coefficient then
      .error .tooManyDigits else .ok (scaledNat places d) := by
  unfold asScaledInt scaledNat
  dsimp only
  rw [if_neg (not_lt.mpr (by omega : 0 ≤ d.exponent + places))]

theorem toRat_scaled {places : Int} {d : FiniteDecimal} (hpos : 0 < d.toRat)
    (hplaces : -d.exponent ≤ places) : d.toRat = scaledNat places d * (10 : ℚ) ^ (-places) := by
  obtain ⟨k, hk⟩ := Int.eq_ofNat_of_zero_le (by omega : 0 ≤ d.exponent + places)
  have hexponent : d.exponent = k + -places := by omega
  rw [FiniteDecimal.toRat, (positive_iff.mp hpos).1, FiniteDecimal.magnitude, scaledNat, hk,
    Int.toNat_natCast, hexponent, zpow_add₀ (by norm_num), zpow_natCast]
  push_cast
  rw [mul_assoc]

variable {ctx : Context} {first : FiniteDecimal} {rest : List FiniteDecimal}

theorem maxPlaces_le_iff {limit : Int} :
    maxPlaces first rest ≤ limit ↔ ∀ d ∈ first :: rest, decimalPlaces d ≤ limit := by
  have hmax : ((first :: rest).map decimalPlaces).max? = some (maxPlaces first rest) :=
    List.max?_cons'
  rw [List.max?_le_iff hmax, List.forall_mem_map]

theorem le_maxPlaces : ∀ d ∈ first :: rest, -d.exponent ≤ maxPlaces first rest :=
  fun d hd => (le_max_left _ _).trans (maxPlaces_le_iff.mp (le_refl _) d hd)

theorem maxPlaces_nonneg : 0 ≤ maxPlaces first rest :=
  (le_max_right _ _).trans (maxPlaces_le_iff.mp (le_refl _) first List.mem_cons_self)

theorem maxPlaces_le {limit : Int} (hlimit : 0 ≤ limit) :
    maxPlaces first rest ≤ limit ↔ ∀ d ∈ first :: rest, -d.exponent ≤ limit := by
  rw [maxPlaces_le_iff]
  constructor
  · exact fun h d hd => (le_max_left _ _).trans (h d hd)
  · exact fun h d hd => max_le (h d hd) hlimit

/-- The common divisor of the scaled values. -/
def commonOf (first : FiniteDecimal) (rest : List FiniteDecimal) : Nat :=
  gcdOf (scaledNat (maxPlaces first rest) first) (rest.map (scaledNat (maxPlaces first rest)))

/-- Scaled back exactly, it is the greatest common measure of the values. -/
theorem gridOf_scaled (hpos : ∀ d ∈ first :: rest, 0 < d.toRat) :
    GreatestMeasure (numbers (first :: rest))
      (commonOf first rest * (10 : ℚ) ^ (-maxPlaces first rest)) := by
  have hnumbers : numbers (first :: rest) = {v | ∃ b ∈ scaledNat (maxPlaces first rest) first ::
      rest.map (scaledNat (maxPlaces first rest)), v = b * (10 : ℚ) ^ (-maxPlaces first rest)} := by
    ext v
    rw [← List.map_cons]
    constructor
    · rintro ⟨d, hd, rfl⟩
      exact ⟨_, List.mem_map_of_mem hd, toRat_scaled (hpos d hd) (le_maxPlaces d hd)⟩
    · rintro ⟨_, hb, rfl⟩
      obtain ⟨d, hd, rfl⟩ := List.mem_map.mp hb
      exact ⟨d, hd, (toRat_scaled (hpos d hd) (le_maxPlaces d hd)).symm⟩
  rw [hnumbers]
  refine greatest_scaled (zpow_pos (by norm_num) _) (Nat.pos_of_ne_zero ?_) _
  have hcoefficient := (positive_iff.mp (hpos first List.mem_cons_self)).2
  exact Nat.mul_ne_zero hcoefficient (pow_ne_zero _ (by decide))

theorem commonOf_ne_zero (hpos : ∀ d ∈ first :: rest, 0 < d.toRat) : commonOf first rest ≠ 0 := by
  intro hzero
  have := (gridOf_scaled hpos).pos
  rw [hzero, Nat.cast_zero, zero_mul] at this
  exact lt_irrefl _ this

/-- Once every coefficient can be read, only the context can go wrong. -/
theorem gridOf_eq (hdigits : ∀ d ∈ first :: rest, digitCount d.coefficient ≤ INT_MAX_STR_DIGITS) :
    gridOf ctx first rest =
      match ctx.scaledBack (commonOf first rest) (maxPlaces first rest) with
      | .error signal => .error (.signal signal)
      | .ok grid => .ok grid.plain := by
  have hscaled : ∀ d ∈ first :: rest, asScaledInt (maxPlaces first rest) d =
      .ok (scaledNat (maxPlaces first rest) d) := by
    intro d hd
    rw [asScaledInt_ok (le_maxPlaces d hd), if_neg (not_lt.mpr (hdigits d hd))]
  obtain ⟨hfirst, hrest⟩ := List.forall_mem_cons.mp hscaled
  unfold gridOf
  simp only [hfirst, mapM_of_ok hrest, bind, Except.bind]
  rfl

theorem gridOf_digits {g : FiniteDecimal} (h : gridOf ctx first rest = .ok g) :
    ∀ d ∈ first :: rest, digitCount d.coefficient ≤ INT_MAX_STR_DIGITS := by
  unfold gridOf at h
  simp only [bind_ok] at h
  obtain ⟨scaledFirst, hfirst, scaledRest, hrest, -⟩ := h
  have hall : ∀ d ∈ first :: rest, ∃ n, asScaledInt (maxPlaces first rest) d = .ok n :=
    List.forall_mem_cons.mpr ⟨⟨scaledFirst, hfirst⟩, ok_of_mapM hrest⟩
  intro d hd
  obtain ⟨n, hn⟩ := hall d hd
  rw [asScaledInt_ok (le_maxPlaces d hd)] at hn
  by_contra hmany
  rw [if_pos (not_le.mp hmany)] at hn
  cases hn

/-! ## The common measure -/

/-- The result is the greatest common measure if and only if the context can hold that. -/
theorem decimalGcd_greatest {values : List GridValue} {ds : List FiniteDecimal}
    (h : Reads values ds) :
    (∃ g, decimalGcd ctx values = .ok g ∧ GreatestMeasure (numbers ds) g.toRat) ↔ Fits ctx ds := by
  obtain ⟨first, rest, rfl⟩ := List.exists_cons_of_ne_nil h.nonempty
  rw [decimalGcd_reads h]
  have hscaled := gridOf_scaled h.positive
  have hlimit : 0 ≤ 2 * (ctx.eMax + ctx.prec) := by
    have := ctx.eMax_nonneg
    omega
  constructor
  · rintro ⟨g, hg, hgreatest⟩
    have hdigits := gridOf_digits hg
    rw [gridOf_eq hdigits] at hg
    split at hg
    · cases hg
    · rename_i grid hgrid
      cases hg
      obtain ⟨hplaces, hrepresentable⟩ := Context.scaledBack_representable hgrid
      rw [FiniteDecimal.plain_toRat] at hgreatest
      exact ⟨hdigits, (maxPlaces_le hlimit).mp hplaces, _, hgreatest, hrepresentable⟩
  · rintro ⟨hdigits, hplaces, measure, hmeasure, hrepresentable⟩
    rw [hmeasure.unique hscaled] at hrepresentable
    obtain ⟨grid, hgrid, hvalue⟩ := Context.scaledBack_exact (commonOf_ne_zero h.positive)
      maxPlaces_nonneg ((maxPlaces_le hlimit).mpr hplaces) hrepresentable
    refine ⟨grid.plain, ?_, ?_⟩
    · rw [gridOf_eq hdigits, hgrid]
    · rw [FiniteDecimal.plain_toRat, hvalue]
      exact hscaled

/-- Two lists that spell the same numbers, in whatever order, how often and with whatever
exponents. -/
theorem decimalGcd_respelled {values values' : List GridValue} {ds ds' : List FiniteDecimal}
    (h : Reads values ds) (h' : Reads values' ds') (hsame : numbers ds = numbers ds') :
    (∃ g g', decimalGcd ctx values = .ok g ∧ decimalGcd ctx values' = .ok g' ∧
      GreatestMeasure (numbers ds) g.toRat ∧ g'.toRat = g.toRat) ↔ Fits ctx ds ∧ Fits ctx ds' := by
  rw [← decimalGcd_greatest h, ← decimalGcd_greatest h']
  constructor
  · rintro ⟨g, g', hg, hg', hgreatest, hequal⟩
    refine ⟨⟨g, hg, hgreatest⟩, g', hg', ?_⟩
    rw [hequal, ← hsame]
    exact hgreatest
  · rintro ⟨⟨g, hg, hgreatest⟩, g', hg', hgreatest'⟩
    rw [← hsame] at hgreatest'
    exact ⟨g, g', hg, hg', hgreatest, hgreatest'.unique hgreatest⟩

/-! ## Accepted values -/

theorem nonPositive_ok {decimals : List PyDecimal} (h : nonPositive decimals = .ok []) :
    ∀ d ∈ decimals, atMostZero d = .ok false := by
  induction decimals with
  | nil => exact nofun
  | cons d decimals ih =>
    unfold nonPositive at h
    simp only [bind_ok, pure_ok] at h
    obtain ⟨bad, hbad, found, hfound, hnil⟩ := h
    cases bad with
    | true => cases hnil
    | false =>
      subst hnil
      exact List.forall_mem_cons.mpr ⟨hbad, ih hfound⟩

theorem finiteOf_ok {decimals : List PyDecimal} {ds : List FiniteDecimal}
    (h : decimals.mapM finiteOf = .ok ds) : decimals = ds.map .finite := by
  rw [mapM_ok_iff] at h
  induction h with
  | nil => rfl
  | @cons d _ _ _ hd _ ih =>
    cases d with
    | finite d =>
      cases hd
      rw [ih, List.map_cons]
    | infinity => cases hd
    | nan => cases hd

/-- A grid is only found for positive finite values. -/
theorem reads_of_ok {values : List GridValue} {g : FiniteDecimal}
    (h : decimalGcd ctx values = .ok g) : ∃ ds, Reads values ds := by
  unfold decimalGcd at h
  simp only [bind_ok] at h
  obtain ⟨decimals, hdecimals, bad, hbad, h⟩ := h
  cases bad with
  | cons worst _ => cases h
  | nil =>
    simp only [bind_ok] at h
    obtain ⟨ds, hds, h⟩ := h
    obtain rfl := finiteOf_ok hds
    refine ⟨ds, hdecimals, ?_, ?_⟩
    · rintro rfl
      cases h
    · intro d hd
      have hsign := nonPositive_ok hbad _ (List.mem_map_of_mem hd)
      rw [positive_iff]
      simpa [atMostZero] using hsign

/-- A grid that was found is the common measure, unless that is too long or too small. -/
theorem decimalGcd_keeps {values : List GridValue} {ds : List FiniteDecimal} {g : FiniteDecimal}
    (h : Reads values ds) (hg : decimalGcd ctx values = .ok g)
    (hkeeps : ∃ m, GreatestMeasure (numbers ds) m ∧ ctx.Keeps m) :
    Fits ctx ds ∧ GreatestMeasure (numbers ds) g.toRat := by
  obtain ⟨first, rest, rfl⟩ := List.exists_cons_of_ne_nil h.nonempty
  have hscaled := gridOf_scaled h.positive
  have hfits : Fits ctx (first :: rest) := by
    rw [decimalGcd_reads h] at hg
    have hdigits := gridOf_digits hg
    rw [gridOf_eq hdigits] at hg
    split at hg
    · cases hg
    · rename_i grid hgrid
      obtain ⟨m, hm, hm'⟩ := hkeeps
      rw [hm.unique hscaled] at hm'
      have hlimit : 0 ≤ 2 * (ctx.eMax + ctx.prec) := by
        have := ctx.eMax_nonneg
        omega
      exact {
        digits := hdigits
        places := (maxPlaces_le hlimit).mp (Context.scaledBack_representable hgrid).1
        grid := ⟨_, hscaled,
          Context.scaledBack_keeps (commonOf_ne_zero h.positive) hgrid hm'⟩ }
  obtain ⟨g', hg', hgreatest⟩ := (decimalGcd_greatest h).mpr hfits
  rw [hg] at hg'
  cases hg'
  exact ⟨hfits, hgreatest⟩

/-- A result of which the common measure is a multiple was not rounded. -/
theorem decimalGcd_measuring {values : List GridValue} {ds : List FiniteDecimal}
    {g : FiniteDecimal} (h : Reads values ds) (hg : decimalGcd ctx values = .ok g)
    (hpos : 0 < g.toRat) (hmeasures : ∀ q ∈ numbers ds, Measures g.toRat q) : Fits ctx ds := by
  rw [← decimalGcd_greatest h]
  refine ⟨g, hg, ?_⟩
  obtain ⟨first, rest, rfl⟩ := List.exists_cons_of_ne_nil h.nonempty
  have hscaled := gridOf_scaled h.positive
  rw [decimalGcd_reads h] at hg
  rw [gridOf_eq (gridOf_digits hg)] at hg
  split at hg
  · cases hg
  · rename_i grid hgrid
    cases hg
    rw [FiniteDecimal.plain_toRat] at hpos hmeasures ⊢
    have htwice := Context.scaledBack_lt_twice hgrid hpos
    rwa [← (hscaled.greatest _ hmeasures).eq_of_lt_twice hscaled.pos htwice]

/-! ## Under the default context -/

/-- `decimal.DefaultContext`. -/
def defaultContext : Context where
  prec := 28
  rounding := .halfEven
  eMin := -999999
  eMax := 999999
  prec_pos := by norm_num
  eMin_nonpos := by norm_num
  eMax_nonneg := by norm_num

/-- `1234567890123456789.01234567891`, of thirty digits. -/
def longPrice : FiniteDecimal := ⟨false, 123456789012345678901234567891, -11⟩

def roundedPrice : FiniteDecimal := ⟨false, 1234567890123456789012345679, -9⟩

/-- The only value of a list is no multiple of the result. -/
theorem decimalGcd_rounded :
    decimalGcd defaultContext [.decimal (.finite longPrice)] = .ok roundedPrice ∧
      ¬ Measures roundedPrice.toRat longPrice.toRat := by
  refine ⟨by decide +kernel, ?_⟩
  rintro ⟨n, hn⟩
  have hscaled : (123456789012345678901234567891 : ℚ) =
      (n * (1234567890123456789012345679 * 100) : Int) := by
    simp only [FiniteDecimal.toRat, FiniteDecimal.magnitude, longPrice, roundedPrice] at hn
    norm_num at hn ⊢
    linarith
  have hinteger : (123456789012345678901234567891 : Int) =
      n * (1234567890123456789012345679 * 100) := by
    exact_mod_cast hscaled
  omega

/-- A grid of cents, and the same numbers in another order and spelling. -/
theorem decimalGcd_respelled_cents :
    (∃ g g', decimalGcd defaultContext
        [.text (some (.finite ⟨false, 10, -2⟩)), .text (some (.finite ⟨false, 25, -2⟩))] = .ok g ∧
      decimalGcd defaultContext
        [.text (some (.finite ⟨false, 250, -3⟩)), .decimal (.finite ⟨false, 1, -1⟩)] = .ok g' ∧
      GreatestMeasure (numbers [⟨false, 10, -2⟩, ⟨false, 25, -2⟩]) g.toRat ∧
        g'.toRat = g.toRat) ↔
      Fits defaultContext [⟨false, 10, -2⟩, ⟨false, 25, -2⟩] ∧
        Fits defaultContext [⟨false, 250, -3⟩, ⟨false, 1, -1⟩] := by
  refine decimalGcd_respelled ⟨rfl, List.cons_ne_nil _ _, ?_⟩ ⟨rfl, List.cons_ne_nil _ _, ?_⟩ ?_
  · intro d hd
    rw [positive_iff]
    revert d
    decide
  · intro d hd
    rw [positive_iff]
    revert d
    decide
  · ext q
    have hten : FiniteDecimal.toRat ⟨false, 10, -2⟩ = FiniteDecimal.toRat ⟨false, 1, -1⟩ := by
      norm_num [FiniteDecimal.toRat, FiniteDecimal.magnitude]
    have hquarter : FiniteDecimal.toRat ⟨false, 25, -2⟩ = FiniteDecimal.toRat ⟨false, 250, -3⟩ := by
      norm_num [FiniteDecimal.toRat, FiniteDecimal.magnitude]
    simp only [numbers, List.mem_cons, List.not_mem_nil, or_false, exists_eq_or_imp, exists_eq_left]
    show q = _ ∨ q = _ ↔ q = _ ∨ q = _
    rw [hten, hquarter, or_comm]

end SymbolMeta
end Ingestion
end PerpCarry
