import Mathlib.Algebra.Order.Field.Power
import Mathlib.Data.Nat.Log
import Mathlib.Data.Rat.Cast.Order
import Mathlib.Tactic.Linarith
import Mathlib.Tactic.Ring

/-!
# Core.PyDecimal

Python's `decimal.Decimal` and the operations that follow the active context.

A finite decimal is a sign, a coefficient and an exponent, so one number has many spellings.
Construction, comparison and plain formatting are exact. `scaleb` and `normalize` bring their result
into the context: `fix` rounds it to the precision and to the exponents that the context has. The
context traps `InvalidOperation` and `Overflow`, as the default one does.

* `Context.fix_representable`: a fixed decimal is a number of the context.
* `Context.fix_exact`: a number of the context is fixed without rounding.
* `Context.scaledBack_exact`: hence so is an integer scaled to a number of the context.
-/

namespace PerpCarry

/-- Sign, digits and exponent; the digits of a `Decimal` have no leading zeros. -/
structure FiniteDecimal where
  negative : Bool
  coefficient : Nat
  exponent : Int
  deriving DecidableEq

inductive PyDecimal where
  | finite (value : FiniteDecimal)
  | infinity (negative : Bool)
  | nan
  deriving DecidableEq

/-- The number of decimal digits; zero has one. -/
def digitCount (n : Nat) : Nat := Nat.log 10 n + 1

namespace FiniteDecimal

/-- The number that a decimal spells, without its sign. -/
def magnitude (self : FiniteDecimal) : ℚ := self.coefficient * (10 : ℚ) ^ self.exponent

def toRat (self : FiniteDecimal) : ℚ := if self.negative then -self.magnitude else self.magnitude

/-- `Decimal(format(self, "f"))`: a positive exponent is written out in zeros. -/
def plain (self : FiniteDecimal) : FiniteDecimal :=
  if 0 < self.exponent then
    { self with
      coefficient := self.coefficient * 10 ^ self.exponent.toNat
      exponent := 0 }
  else self

/-- Trailing zeros go to the exponent, as long as it is below a limit. -/
def stripZeros (limit : Int) : Nat → FiniteDecimal → FiniteDecimal
  | 0, d => d
  | fuel + 1, d =>
    if d.coefficient % 10 = 0 ∧ d.exponent < limit then
      stripZeros limit fuel { d with coefficient := d.coefficient / 10, exponent := d.exponent + 1 }
    else d

end FiniteDecimal

inductive DecimalRounding where
  | down | up | halfUp | halfDown | halfEven | ceiling | floor | fiveUp
  deriving DecidableEq

/-- Whether what is kept goes up by one, when `rest` of `unit` is cut off. -/
def DecimalRounding.roundsUp (mode : DecimalRounding) (negative : Bool) (kept rest unit : Nat) :
    Bool :=
  rest ≠ 0 && match mode with
    | .down => false
    | .up => true
    | .halfUp => unit ≤ 2 * rest
    | .halfDown => unit < 2 * rest
    | .halfEven => unit < 2 * rest || (unit = 2 * rest && kept % 2 = 1)
    | .ceiling => !negative
    | .floor => negative
    | .fiveUp => kept % 5 = 0

/-- The signals that are raised. -/
inductive DecimalSignal where
  | invalidOperation
  | overflow
  deriving DecidableEq

structure Context where
  prec : Nat
  rounding : DecimalRounding
  eMin : Int
  eMax : Int
  prec_pos : 1 ≤ prec
  eMin_nonpos : eMin ≤ 0
  eMax_nonneg : 0 ≤ eMax

namespace Context

variable (ctx : Context)

def etiny : Int := ctx.eMin - ctx.prec + 1

def etop : Int := ctx.eMax - ctx.prec + 1

/-- The end of `_fix`, once the digits below `expMin` are known to be too many. -/
def roundAt (d : FiniteDecimal) (expMin : Int) : Except DecimalSignal FiniteDecimal :=
  let unit := 10 ^ (expMin - d.exponent).toNat
  let kept := d.coefficient / unit
  let up := ctx.rounding.roundsUp d.negative kept (d.coefficient % unit) unit
  let coefficient := kept + if up then 1 else 0
  let carried := ctx.prec < digitCount coefficient
  let expMin := if carried then expMin + 1 else expMin
  if ctx.etop < expMin then .error .overflow
  else .ok { d with
    coefficient := if carried then coefficient / 10 else coefficient
    exponent := expMin }

/-- `Decimal._fix`. -/
def fix (d : FiniteDecimal) : Except DecimalSignal FiniteDecimal :=
  if d.coefficient = 0 then
    .ok { d with exponent := min (max d.exponent ctx.etiny) ctx.eMax }
  else
    let expMin := digitCount d.coefficient + d.exponent - ctx.prec
    if ctx.etop < expMin then .error .overflow
    else
      let expMin := max expMin ctx.etiny
      if d.exponent < expMin then ctx.roundAt d expMin else .ok d

def scaleb (d : FiniteDecimal) (places : Int) : Except DecimalSignal FiniteDecimal :=
  let limit := 2 * (ctx.eMax + ctx.prec)
  if places < -limit ∨ limit < places then .error .invalidOperation
  else ctx.fix { d with exponent := d.exponent + places }

def normalize (d : FiniteDecimal) : Except DecimalSignal FiniteDecimal :=
  match ctx.fix d with
  | .error e => .error e
  | .ok fixed =>
    if fixed.coefficient = 0 then .ok { fixed with exponent := 0 }
    else .ok (fixed.stripZeros ctx.eMax (digitCount fixed.coefficient))

/-- The nonnegative numbers of a context. -/
def Representable (q : ℚ) : Prop :=
  ∃ (coefficient : Nat) (exponent : Int), q = coefficient * (10 : ℚ) ^ exponent ∧
    coefficient < 10 ^ ctx.prec ∧ ctx.etiny ≤ exponent ∧
      digitCount coefficient + exponent - 1 ≤ ctx.eMax

/-- The numbers that rounding leaves as they are, if they are not too large. -/
def Keeps (q : ℚ) : Prop :=
  ∃ (coefficient : Nat) (exponent : Int), q = coefficient * (10 : ℚ) ^ exponent ∧
    coefficient < 10 ^ ctx.prec ∧ ctx.etiny ≤ exponent

end Context

/-! ## Digits -/

theorem digitCount_le {n k : Nat} (hn : n ≠ 0) : digitCount n ≤ k ↔ n < 10 ^ k :=
  Nat.log_lt_iff_lt_pow (by decide) hn

theorem digitCount_mul_pow {n : Nat} (hn : n ≠ 0) (k : Nat) :
    digitCount (n * 10 ^ k) = digitCount n + k := by
  induction k with
  | zero => rw [pow_zero, mul_one, add_zero]
  | succ k ih =>
    have hpow : n * 10 ^ k ≠ 0 := Nat.mul_ne_zero hn (pow_ne_zero k (by decide))
    rw [pow_succ, ← mul_assoc, digitCount, Nat.log_mul_base (by decide) hpow]
    exact congrArg (· + 1) ih

/-- Of two spellings of a number, the one with the lower exponent has the zeros. -/
theorem spelling {c c' : Nat} {e e' : Int} (h : c * (10 : ℚ) ^ e = c' * (10 : ℚ) ^ e')
    (hle : e ≤ e') : c = c' * 10 ^ (e' - e).toNat := by
  obtain ⟨k, rfl⟩ := Int.le.dest hle
  have hten : (10 : ℚ) ^ e ≠ 0 := zpow_ne_zero e (by norm_num)
  rw [zpow_add₀ (by norm_num), mul_comm ((10 : ℚ) ^ e), ← mul_assoc] at h
  have hcast := mul_right_cancel₀ hten h
  rw [zpow_natCast] at hcast
  rw [add_sub_cancel_left, Int.toNat_natCast]
  exact_mod_cast hcast

theorem digitCount_spelling {c c' : Nat} {e e' : Int} (hc : c ≠ 0)
    (h : c * (10 : ℚ) ^ e = c' * (10 : ℚ) ^ e') :
    digitCount c + e = digitCount c' + e' := by
  have hten : ∀ k : Int, (10 : ℚ) ^ k ≠ 0 := fun k => zpow_ne_zero k (by norm_num)
  have hc' : c' ≠ 0 := by
    rintro rfl
    rw [Nat.cast_zero, zero_mul] at h
    exact mul_ne_zero (Nat.cast_ne_zero.mpr hc) (hten e) h
  rcases le_total e e' with hle | hle
  · rw [spelling h hle, digitCount_mul_pow hc']
    omega
  · rw [spelling h.symm hle, digitCount_mul_pow hc]
    omega

namespace FiniteDecimal

theorem plain_toRat (d : FiniteDecimal) : d.plain.toRat = d.toRat := by
  unfold plain
  split
  · rename_i hpos
    have hmagnitude : ((d.coefficient * 10 ^ d.exponent.toNat : Nat) : ℚ) * (10 : ℚ) ^ (0 : Int) =
        d.coefficient * (10 : ℚ) ^ d.exponent := by
      obtain ⟨k, hk⟩ := Int.eq_ofNat_of_zero_le hpos.le
      rw [hk, Int.toNat_natCast, zpow_zero, mul_one, zpow_natCast]
      push_cast
      rfl
    unfold toRat magnitude
    dsimp only
    rw [hmagnitude]
  · rfl

theorem stripZeros_toRat (limit : Int) (fuel : Nat) (d : FiniteDecimal) :
    (d.stripZeros limit fuel).toRat = d.toRat := by
  induction fuel generalizing d with
  | zero => rfl
  | succ fuel ih =>
    unfold stripZeros
    split
    · rename_i hzero
      obtain ⟨k, hk⟩ := Nat.dvd_of_mod_eq_zero hzero.1
      rw [ih]
      have hmagnitude : ((d.coefficient / 10 : Nat) : ℚ) * (10 : ℚ) ^ (d.exponent + 1) =
          d.coefficient * (10 : ℚ) ^ d.exponent := by
        rw [hk, Nat.mul_div_cancel_left k (by decide), zpow_add_one₀ (by norm_num)]
        push_cast
        ring
      unfold toRat magnitude
      dsimp only
      rw [hmagnitude]
    · rfl

end FiniteDecimal

namespace Context

variable {ctx : Context} {d r : FiniteDecimal}

theorem etiny_le_etop : ctx.etiny ≤ ctx.etop := by
  have hlow := ctx.eMin_nonpos
  have hhigh := ctx.eMax_nonneg
  unfold etiny etop
  omega

theorem representable_of_lt {c : Nat} {e : Int} (hc : c < 10 ^ ctx.prec) (hlow : ctx.etiny ≤ e)
    (hhigh : e ≤ ctx.etop) : ctx.Representable (c * (10 : ℚ) ^ e) := by
  refine ⟨c, e, rfl, hc, hlow, ?_⟩
  have hprec := ctx.prec_pos
  have hdigits : digitCount c ≤ ctx.prec := by
    by_cases hzero : c = 0
    · rw [hzero]
      exact hprec
    · exact (digitCount_le hzero).mpr hc
  unfold etop at hhigh
  omega

/-- What is rounded fits the precision, or carries into one more digit. -/
theorem roundAt_representable {expMin : Int} (hlow : ctx.etiny ≤ expMin)
    (hkept : d.coefficient / 10 ^ (expMin - d.exponent).toNat < 10 ^ ctx.prec)
    (h : ctx.roundAt d expMin = .ok r) : ctx.Representable r.magnitude := by
  unfold roundAt at h
  dsimp only at h
  generalize ctx.rounding.roundsUp _ _ _ _ = up at h
  generalize d.coefficient / 10 ^ (expMin - d.exponent).toNat = kept at h hkept
  have hcoefficient : (kept + if up = true then 1 else 0) ≤ 10 ^ ctx.prec := by
    split <;> omega
  generalize (kept + if up = true then 1 else 0) = coefficient at h hcoefficient
  have hprec := ctx.prec_pos
  by_cases hcarried : ctx.prec < digitCount coefficient
  · simp only [hcarried, if_true] at h
    split at h
    · cases h
    · rename_i hhigh
      cases h
      refine representable_of_lt ?_ (by dsimp only; omega) (not_lt.mp hhigh)
      have hpow : 0 < 10 ^ ctx.prec := Nat.pow_pos (by decide)
      dsimp only
      omega
  · simp only [hcarried, if_false] at h
    split at h
    · cases h
    · rename_i hhigh
      cases h
      refine representable_of_lt ?_ hlow (not_lt.mp hhigh)
      by_cases hzero : coefficient = 0
      · rw [hzero]
        exact Nat.pow_pos (by decide)
      · exact (digitCount_le hzero).mp (not_lt.mp hcarried)

theorem fix_range (hne : d.coefficient ≠ 0) (h : ctx.fix d = .ok r) :
    digitCount d.coefficient + d.exponent - 1 ≤ ctx.eMax := by
  unfold fix at h
  rw [if_neg hne] at h
  dsimp only at h
  split at h
  · cases h
  · rename_i hrange
    unfold etop at hrange
    omega

theorem fix_representable (h : ctx.fix d = .ok r) : ctx.Representable r.magnitude := by
  unfold fix at h
  split at h
  · rename_i hzero
    cases h
    have hrange := ctx.etiny_le_etop
    have hprec := ctx.prec_pos
    have hmax := ctx.eMax_nonneg
    refine ⟨0, min (max d.exponent ctx.etiny) ctx.eMax, ?_, Nat.pow_pos (by decide), ?_, ?_⟩
    · rw [FiniteDecimal.magnitude, hzero]
    · unfold etop at hrange
      omega
    · have hdigit : digitCount 0 = 1 := rfl
      rw [hdigit]
      omega
  · rename_i hne
    dsimp only at h
    split at h
    · cases h
    · rename_i hrange
      split at h
      · refine roundAt_representable (le_max_right _ _) ?_ h
        refine Nat.div_lt_of_lt_mul ((digitCount_le hne).mp (le_refl _) |>.trans_le ?_)
        rw [← pow_add]
        exact Nat.pow_le_pow_right (by decide) (by omega)
      · rename_i hexponent
        cases h
        refine ⟨_, _, rfl, ?_, by omega, ?_⟩
        · exact (digitCount_le hne).mp (by omega)
        · unfold etop at hrange
          omega

/-- What is rounded is less than twice the result, unless it is rounded to zero. -/
theorem roundAt_lt_twice {expMin : Int} (hle : d.exponent ≤ expMin)
    (h : ctx.roundAt d expMin = .ok r) (hne : r.coefficient ≠ 0) :
    d.magnitude < 2 * r.magnitude := by
  obtain ⟨k, rfl⟩ := Int.le.dest hle
  unfold roundAt at h
  rw [add_sub_cancel_left, Int.toNat_natCast] at h
  dsimp only at h
  generalize ctx.rounding.roundsUp _ _ _ _ = up at h
  have hcut : d.coefficient < (d.coefficient / 10 ^ k + 1) * 10 ^ k :=
    (Nat.div_lt_iff_lt_mul (Nat.pow_pos (by decide))).mp (Nat.lt_succ_self _)
  generalize d.coefficient / 10 ^ k = kept at h hcut
  have hpow : (0 : ℚ) < 10 ^ d.exponent := zpow_pos (by norm_num) _
  have hbelow : d.magnitude < (kept + 1 : Nat) * (10 : ℚ) ^ (d.exponent + k) := by
    rw [FiniteDecimal.magnitude, zpow_add₀ (by norm_num), zpow_natCast, mul_comm _ ((10 : ℚ) ^ k),
      ← mul_assoc]
    exact mul_lt_mul_of_pos_right (by exact_mod_cast hcut) hpow
  -- The result counts units of the place where the digits are cut, or tens of them after a carry.
  obtain ⟨units, hunits, htwice⟩ : ∃ units : Nat,
      r.magnitude = units * (10 : ℚ) ^ (d.exponent + k) ∧ kept + 1 ≤ 2 * units := by
    have hkept : kept ≤ (kept + if up = true then 1 else 0) := Nat.le_add_right ..
    have hup : (kept + if up = true then 1 else 0) = 0 ∨
        kept + 1 ≤ 2 * (kept + if up = true then 1 else 0) := by
      split <;> omega
    generalize (kept + if up = true then 1 else 0) = coefficient at h hkept hup
    have hprec := ctx.prec_pos
    by_cases hcarried : ctx.prec < digitCount coefficient
    · simp only [hcarried, if_true] at h
      split at h
      · cases h
      · cases h
        refine ⟨coefficient / 10 * 10, ?_, ?_⟩
        · rw [FiniteDecimal.magnitude, zpow_add_one₀ (by norm_num)]
          push_cast
          ring
        · have hten : ¬ coefficient < 10 ^ 1 := by
            intro hsmall
            by_cases hzero : coefficient = 0
            · rw [hzero] at hcarried
              exact absurd hcarried (by unfold digitCount; simp; omega)
            · have := (digitCount_le hzero).mpr hsmall
              omega
          omega
    · simp only [hcarried, if_false] at h
      split at h
      · cases h
      · cases h
        exact ⟨coefficient, rfl, hup.resolve_left hne⟩
  rw [hunits, ← mul_assoc]
  refine hbelow.trans_le (mul_le_mul_of_nonneg_right ?_ (zpow_pos (by norm_num) _).le)
  exact_mod_cast htwice

/-- Rounding at zeros that are cut off changes nothing. -/
theorem roundAt_exact {expMin : Int} {kept : Nat} (hle : d.exponent ≤ expMin)
    (hzeros : d.coefficient = kept * 10 ^ (expMin - d.exponent).toNat)
    (hdigits : digitCount kept ≤ ctx.prec) (hhigh : expMin ≤ ctx.etop) :
    ∃ r, ctx.roundAt d expMin = .ok r ∧ r.toRat = d.toRat := by
  have hpow : 0 < 10 ^ (expMin - d.exponent).toNat := Nat.pow_pos (by decide)
  have hkept : d.coefficient / 10 ^ (expMin - d.exponent).toNat = kept := by
    rw [hzeros, Nat.mul_div_cancel _ hpow]
  have hrest : d.coefficient % 10 ^ (expMin - d.exponent).toNat = 0 := by
    rw [hzeros, Nat.mul_mod_left]
  have hmagnitude : (kept : ℚ) * (10 : ℚ) ^ expMin = d.magnitude := by
    obtain ⟨k, rfl⟩ := Int.le.dest hle
    rw [add_sub_cancel_left, Int.toNat_natCast] at hzeros
    rw [FiniteDecimal.magnitude, hzeros, zpow_add₀ (by norm_num), zpow_natCast]
    push_cast
    ring
  refine ⟨{ d with coefficient := kept, exponent := expMin }, ?_, ?_⟩
  · unfold roundAt
    simp only [hkept, hrest, DecimalRounding.roundsUp, ne_eq, not_true_eq_false, decide_false,
      Bool.false_and, Bool.false_eq_true, if_false, add_zero, not_lt.mpr hdigits,
      not_lt.mpr hhigh]
  · unfold FiniteDecimal.toRat
    rw [← hmagnitude]
    rfl

theorem fix_lt_twice (h : ctx.fix d = .ok r) (hne : r.coefficient ≠ 0) :
    d.magnitude < 2 * r.magnitude := by
  have hpos : 0 < r.magnitude :=
    mul_pos (Nat.cast_pos.mpr (Nat.pos_of_ne_zero hne)) (zpow_pos (by norm_num) _)
  unfold fix at h
  split at h
  · rename_i hzero
    cases h
    exact absurd hzero hne
  · dsimp only at h
    split at h
    · cases h
    · split at h
      · rename_i hexponent
        exact roundAt_lt_twice hexponent.le h hne
      · cases h
        linarith

theorem fix_exact (hne : d.coefficient ≠ 0) (h : ctx.Representable d.magnitude) :
    ∃ r, ctx.fix d = .ok r ∧ r.toRat = d.toRat := by
  obtain ⟨c, e, hvalue, hc, hlow, hhigh⟩ := h
  have hdigits := digitCount_spelling hne hvalue
  have hc0 : c ≠ 0 := by
    rintro rfl
    rw [FiniteDecimal.magnitude, Nat.cast_zero, zero_mul] at hvalue
    exact mul_ne_zero (Nat.cast_ne_zero.mpr hne) (zpow_ne_zero _ (by norm_num)) hvalue
  have hprec := (digitCount_le hc0).mpr hc
  have hrange := ctx.etiny_le_etop
  have hover : ¬ ctx.etop < digitCount d.coefficient + d.exponent - ctx.prec := by
    unfold etop
    omega
  unfold fix
  simp only [hne, if_false, hover]
  split
  · rename_i hexponent
    have hle : d.exponent ≤ e := by omega
    have hzeros := spelling hvalue hle
    generalize hexp :
      max ((digitCount d.coefficient : Int) + d.exponent - ctx.prec) ctx.etiny = m at *
    have hm : m ≤ e := by omega
    refine @roundAt_exact ctx d m (c * 10 ^ (e - m).toNat) hexponent.le ?_ ?_ (by omega)
    · rw [hzeros, mul_assoc, ← pow_add]
      congr 2
      omega
    · rw [digitCount_mul_pow hc0]
      omega
  · exact ⟨d, rfl, rfl⟩

theorem roundAt_negative {expMin : Int} (h : ctx.roundAt d expMin = .ok r) :
    r.negative = d.negative := by
  unfold roundAt at h
  dsimp only at h
  split_ifs at h <;> cases h <;> rfl

theorem fix_negative (h : ctx.fix d = .ok r) : r.negative = d.negative := by
  unfold fix at h
  dsimp only at h
  split at h
  · cases h
    rfl
  · split at h
    · cases h
    · split at h
      · exact roundAt_negative h
      · cases h
        rfl

theorem normalize_ok : ctx.normalize d = .ok r →
    ∃ fixed, ctx.fix d = .ok fixed ∧ r.toRat = fixed.toRat := by
  intro h
  unfold normalize at h
  split at h
  · cases h
  · rename_i fixed hfixed
    refine ⟨fixed, hfixed, ?_⟩
    split at h
    · rename_i hzero
      cases h
      simp [FiniteDecimal.toRat, FiniteDecimal.magnitude, hzero]
    · cases h
      exact FiniteDecimal.stripZeros_toRat ..

theorem normalize_of_fix {fixed : FiniteDecimal} (h : ctx.fix d = .ok fixed) :
    ∃ r, ctx.normalize d = .ok r ∧ r.toRat = fixed.toRat := by
  have hok : ∃ r, ctx.normalize d = .ok r := by
    unfold normalize
    rw [h]
    dsimp only
    split
    · exact ⟨_, rfl⟩
    · exact ⟨_, rfl⟩
  obtain ⟨r, hr⟩ := hok
  obtain ⟨fixed', hfixed', hvalue⟩ := normalize_ok hr
  rw [h] at hfixed'
  cases hfixed'
  exact ⟨r, hr, hvalue⟩

theorem scaleb_ok {places : Int} : ctx.scaleb d places = .ok r ↔
    (-(2 * (ctx.eMax + ctx.prec)) ≤ places ∧ places ≤ 2 * (ctx.eMax + ctx.prec)) ∧
      ctx.fix { d with exponent := d.exponent + places } = .ok r := by
  unfold scaleb
  dsimp only
  split
  · rename_i hfar
    simp only [reduceCtorEq, false_iff, not_and]
    intro hnear
    omega
  · rename_i hnear
    have hrange : -(2 * (ctx.eMax + ctx.prec)) ≤ places ∧ places ≤ 2 * (ctx.eMax + ctx.prec) := by
      omega
    exact (and_iff_right hrange).symm

/-! ## Scaling back -/

/-- `Decimal(n).scaleb(-places).normalize()`. -/
def scaledBack (ctx : Context) (n : Nat) (places : Int) : Except DecimalSignal FiniteDecimal :=
  match ctx.scaleb ⟨false, n, 0⟩ (-places) with
  | .error e => .error e
  | .ok scaled => ctx.normalize scaled

theorem scaledBack_representable {n : Nat} {places : Int} (h : ctx.scaledBack n places = .ok r) :
    places ≤ 2 * (ctx.eMax + ctx.prec) ∧ ctx.Representable r.toRat := by
  unfold scaledBack at h
  split at h
  · cases h
  · rename_i scaled hscaled
    obtain ⟨hrange, hfix⟩ := scaleb_ok.mp hscaled
    obtain ⟨fixed, hfixed, hvalue⟩ := normalize_ok h
    refine ⟨by omega, ?_⟩
    have hsign : fixed.negative = false := (fix_negative hfixed).trans (fix_negative hfix)
    rw [hvalue, FiniteDecimal.toRat, hsign]
    exact fix_representable hfixed

/-- What is not too small was not too large either, when scaling it back did not overflow. -/
theorem scaledBack_keeps {n : Nat} {places : Int} (hn : n ≠ 0)
    (h : ctx.scaledBack n places = .ok r) (hkeeps : ctx.Keeps (n * (10 : ℚ) ^ (-places))) :
    ctx.Representable (n * (10 : ℚ) ^ (-places)) := by
  obtain ⟨coefficient, exponent, hvalue, hdigits, hlow⟩ := hkeeps
  refine ⟨coefficient, exponent, hvalue, hdigits, hlow, ?_⟩
  unfold scaledBack at h
  split at h
  · cases h
  · rename_i scaled hscaled
    have hrange := fix_range hn (scaleb_ok.mp hscaled).2
    have hspelling := digitCount_spelling hn hvalue
    dsimp only at hrange
    omega

theorem scaledBack_lt_twice {n : Nat} {places : Int} (h : ctx.scaledBack n places = .ok r)
    (hpos : 0 < r.toRat) : n * (10 : ℚ) ^ (-places) < 2 * r.toRat := by
  unfold scaledBack at h
  split at h
  · cases h
  · rename_i scaled hscaled
    obtain ⟨-, hfix⟩ := scaleb_ok.mp hscaled
    obtain ⟨fixed, hfixed, hvalue⟩ := normalize_ok h
    have hne : scaled.coefficient ≠ 0 := by
      intro hzero
      unfold fix at hfixed
      rw [if_pos hzero] at hfixed
      cases hfixed
      rw [hvalue] at hpos
      simp [FiniteDecimal.toRat, FiniteDecimal.magnitude, hzero] at hpos
    have hscaledTwice := fix_lt_twice hfix hne
    obtain ⟨fixed', hfixed', hexact⟩ := fix_exact hne (fix_representable hfix)
    rw [hfixed] at hfixed'
    cases hfixed'
    have hsign : scaled.negative = false := fix_negative hfix
    rw [hvalue, hexact, FiniteDecimal.toRat, hsign]
    rw [FiniteDecimal.magnitude, zero_add] at hscaledTwice
    exact hscaledTwice

theorem scaledBack_exact {n : Nat} {places : Int} (hn : n ≠ 0) (hplaces : 0 ≤ places)
    (hrange : places ≤ 2 * (ctx.eMax + ctx.prec))
    (h : ctx.Representable (n * (10 : ℚ) ^ (-places))) :
    ∃ r, ctx.scaledBack n places = .ok r ∧ r.toRat = n * (10 : ℚ) ^ (-places) := by
  have hvalue : FiniteDecimal.toRat ⟨false, n, 0 + -places⟩ = n * (10 : ℚ) ^ (-places) := by
    rw [zero_add]
    rfl
  have hsource : ctx.Representable (FiniteDecimal.magnitude ⟨false, n, 0 + -places⟩) := by
    rw [zero_add]
    exact h
  obtain ⟨scaled, hscaled, hscaled'⟩ := fix_exact hn hsource
  have hsign : scaled.negative = false := fix_negative hscaled
  have hmagnitude : scaled.magnitude = n * (10 : ℚ) ^ (-places) := by
    rw [← hvalue, ← hscaled', FiniteDecimal.toRat, hsign]
    rfl
  have hne : scaled.coefficient ≠ 0 := by
    intro hzero
    rw [FiniteDecimal.magnitude, hzero, Nat.cast_zero, zero_mul] at hmagnitude
    exact mul_ne_zero (Nat.cast_ne_zero.mpr hn) (zpow_ne_zero _ (by norm_num)) hmagnitude.symm
  rw [← hmagnitude] at h
  obtain ⟨fixed, hfixed, hfixed'⟩ := fix_exact hne h
  obtain ⟨r, hr, hr'⟩ := normalize_of_fix hfixed
  have hscaleb : ctx.scaleb ⟨false, n, 0⟩ (-places) = .ok scaled :=
    scaleb_ok.mpr ⟨⟨by omega, by omega⟩, hscaled⟩
  refine ⟨r, ?_, ?_⟩
  · unfold scaledBack
    rw [hscaleb]
    exact hr
  · rw [hr', hfixed', hscaled', hvalue]

end Context

end PerpCarry
