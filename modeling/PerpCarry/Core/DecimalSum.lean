import Mathlib.Algebra.Order.BigOperators.Group.List
import PerpCarry.Core.PyDecimal
import PerpCarry.Lib.EventRun

/-!
# Core.DecimalSum

Addition and division of `decimal.Decimal` under a context.

* `Context.add_exact`: a sum that the context can hold is not rounded.
* `Context.sum_exact`: nor is a sum of many numbers with as many places, if the digits suffice.
-/

namespace PerpCarry

namespace FiniteDecimal

/-- The coefficient with its sign, written out to a smaller exponent. -/
def signedAt (self : FiniteDecimal) (exponent : Int) : Int :=
  (if self.negative then -1 else 1) * self.coefficient * 10 ^ (self.exponent - exponent).toNat

end FiniteDecimal

namespace Context

variable (ctx : Context)

/-- `Decimal.__add__` of finite numbers. -/
def add (a b : FiniteDecimal) : Except DecimalSignal FiniteDecimal :=
  let exponent := min a.exponent b.exponent
  let total := a.signedAt exponent + b.signedAt exponent
  let negative :=
    if total = 0 then a.negative && b.negative || ctx.rounding = .floor && a.negative != b.negative
    else decide (total < 0)
  ctx.fix ⟨negative, total.natAbs, exponent⟩

/-- `sum(values, Decimal(0))`. -/
def sum (values : List FiniteDecimal) : Except DecimalSignal FiniteDecimal :=
  Lib.run ctx.add ⟨false, 0, 0⟩ values

/-- `Decimal.__truediv__` of finite numbers; to divide by zero is not a signal that is kept apart
here. -/
def divide (a b : FiniteDecimal) : Except DecimalSignal FiniteDecimal :=
  if b.coefficient = 0 then .error .invalidOperation
  else
    let negative := a.negative != b.negative
    let ideal := a.exponent - b.exponent
    if a.coefficient = 0 then ctx.fix ⟨negative, 0, ideal⟩
    else
      let shift := (digitCount b.coefficient : Int) - digitCount a.coefficient + ctx.prec + 1
      let upper := a.coefficient * 10 ^ shift.toNat
      let lower := b.coefficient * 10 ^ (-shift).toNat
      let quotient := upper / lower
      if upper % lower ≠ 0 then
        -- an inexact quotient ends neither in 0 nor in 5
        ctx.fix ⟨negative, if quotient % 5 = 0 then quotient + 1 else quotient, ideal - shift⟩
      else ctx.fix (FiniteDecimal.stripZeros ideal (digitCount quotient)
        ⟨negative, quotient, ideal - shift⟩)

end Context

namespace FiniteDecimal

theorem toRat_eq (d : FiniteDecimal) :
    d.toRat = ((if d.negative then -1 else 1) * d.coefficient : Int) * (10 : ℚ) ^ d.exponent := by
  unfold toRat magnitude
  split
  · push_cast
    ring
  · push_cast
    ring

theorem signedAt_toRat {d : FiniteDecimal} {exponent : Int} (h : exponent ≤ d.exponent) :
    d.toRat = d.signedAt exponent * (10 : ℚ) ^ exponent := by
  obtain ⟨k, hk⟩ := Int.eq_ofNat_of_zero_le (sub_nonneg.mpr h)
  have hexponent : d.exponent = k + exponent := by omega
  rw [toRat_eq, signedAt, hk, Int.toNat_natCast, hexponent, zpow_add₀ (by norm_num), zpow_natCast]
  push_cast
  ring

theorem signed_toRat {negative : Bool} {total exponent : Int}
    (h : total ≠ 0 → negative = decide (total < 0)) :
    FiniteDecimal.toRat ⟨negative, total.natAbs, exponent⟩ = total * (10 : ℚ) ^ exponent := by
  rw [toRat_eq]
  dsimp only
  congr 2
  by_cases hzero : total = 0
  · simp [hzero]
  · rw [h hzero]
    by_cases hneg : total < 0
    · simp only [hneg, decide_true, if_true]
      omega
    · simp only [hneg, decide_false, Bool.false_eq_true, if_false]
      omega

end FiniteDecimal

namespace Context

variable {ctx : Context} {a b r : FiniteDecimal}

theorem fix_zero {negative : Bool} {exponent : Int} :
    ∃ r, ctx.fix ⟨negative, 0, exponent⟩ = .ok r ∧ r.toRat = 0 := by
  refine ⟨_, if_pos rfl, ?_⟩
  simp [FiniteDecimal.toRat, FiniteDecimal.magnitude]

/-- A sum that is a number of the context is exact. -/
theorem add_exact (h : ctx.Representable |a.toRat + b.toRat|) :
    ∃ r, ctx.add a b = .ok r ∧ r.toRat = a.toRat + b.toRat := by
  have hsum : a.toRat + b.toRat =
      ((a.signedAt (min a.exponent b.exponent) +
        b.signedAt (min a.exponent b.exponent) : Int) : ℚ) *
          (10 : ℚ) ^ min a.exponent b.exponent := by
    rw [FiniteDecimal.signedAt_toRat (min_le_left a.exponent b.exponent),
      FiniteDecimal.signedAt_toRat (min_le_right a.exponent b.exponent)]
    push_cast
    ring
  unfold add
  dsimp only
  generalize a.signedAt (min a.exponent b.exponent) + b.signedAt (min a.exponent b.exponent) =
    total at hsum ⊢
  generalize min a.exponent b.exponent = exponent at hsum ⊢
  rw [hsum] at h ⊢
  by_cases hzero : total = 0
  · subst hzero
    rw [Int.natAbs_zero, Int.cast_zero, zero_mul]
    exact fix_zero
  · rw [if_neg hzero]
    obtain ⟨r, hr, hvalue⟩ := fix_exact (d := ⟨decide (total < 0), total.natAbs, exponent⟩)
      (Int.natAbs_ne_zero.mpr hzero) (by
        have hpow : (0 : ℚ) < 10 ^ exponent := zpow_pos (by norm_num) _
        rw [abs_mul, abs_of_pos hpow, ← Int.cast_abs, Int.abs_eq_natAbs] at h
        exact h)
    exact ⟨r, hr, hvalue.trans (FiniteDecimal.signed_toRat fun _ => rfl)⟩

theorem add_whole {n m : Nat} (h : n + m < 10 ^ ctx.prec) (htiny : ctx.etiny ≤ 0)
    (htop : 0 ≤ ctx.etop) : ctx.add ⟨false, n, 0⟩ ⟨false, m, 0⟩ = .ok ⟨false, n + m, 0⟩ := by
  have hsigned : ∀ k : Nat, FiniteDecimal.signedAt ⟨false, k, 0⟩ 0 = k := fun k => by
    simp [FiniteDecimal.signedAt]
  have htotal : ((n : Int) + m).natAbs = n + m := by omega
  have hnonneg : ¬ (n : Int) + m < 0 := by omega
  unfold add
  simp only [min_self, hsigned, htotal, hnonneg, decide_false, Bool.and_self, bne_self_eq_false,
    Bool.and_false, Bool.or_self, ite_self]
  unfold fix
  dsimp only
  by_cases hzero : n + m = 0
  · have hmax := ctx.eMax_nonneg
    rw [if_pos hzero, max_eq_left htiny, min_eq_left hmax]
  · have hdigits := (digitCount_le hzero).mpr h
    rw [if_neg hzero, if_neg (by omega), if_neg (by omega)]

/-- A number of `places` decimal places whose digits the context can hold. -/
structure Fits (ctx : Context) (places : Nat) (q : ℚ) (n : Nat) : Prop where
  value : q = n * (10 : ℚ) ^ (-(places : Int))
  digits : n < 10 ^ ctx.prec
  tiny : ctx.etiny ≤ -places
  huge : ctx.prec ≤ ctx.eMax + 1

theorem Fits.representable {places n : Nat} {q : ℚ} (h : Fits ctx places q n) :
    ctx.Representable q := by
  refine ⟨n, -places, h.value, h.digits, h.tiny, ?_⟩
  have hhuge := h.huge
  have hprec := ctx.prec_pos
  by_cases hn : n = 0
  · subst hn
    simp only [digitCount, Nat.log_zero_right]
    omega
  · have hdigits := (digitCount_le hn).mpr h.digits
    omega

/-- A sum of such numbers that is one itself is exact, whatever the order. -/
theorem sum_exact {places : Nat} {start : FiniteDecimal} {m : Nat} {values : List FiniteDecimal}
    {ns : List Nat} (hvalues : List.Forall₂ (fun d n => d.toRat =
      (n : Nat) * (10 : ℚ) ^ (-(places : Int))) values ns)
    (hstart : start.toRat = m * (10 : ℚ) ^ (-(places : Int)))
    (hdigits : m + ns.sum < 10 ^ ctx.prec) (htiny : ctx.etiny ≤ -places)
    (hhuge : ctx.prec ≤ ctx.eMax + 1) :
    ∃ r, Lib.run ctx.add start values = .ok r ∧
      r.toRat = ((m + ns.sum : Nat) : ℚ) * (10 : ℚ) ^ (-(places : Int)) := by
  induction hvalues generalizing start m with
  | nil => exact ⟨start, rfl, by simpa using hstart⟩
  | @cons d n values ns hd hrest ih =>
    rw [List.sum_cons] at hdigits ⊢
    have hsum : start.toRat + d.toRat = ((m + n : Nat) : ℚ) * (10 : ℚ) ^ (-(places : Int)) := by
      rw [hstart, hd]
      push_cast
      ring
    have hfits : Fits ctx places (start.toRat + d.toRat) (m + n) :=
      ⟨hsum, by omega, htiny, hhuge⟩
    have hpositive : 0 ≤ start.toRat + d.toRat := by
      rw [hsum]
      positivity
    obtain ⟨next, hnext, hvalue⟩ := add_exact (a := start) (b := d)
      (by rw [abs_of_nonneg hpositive]; exact hfits.representable)
    obtain ⟨r, hr, htotal⟩ := ih (hvalue.trans hsum) (by omega)
    refine ⟨r, Lib.run_cons_ok.mpr ⟨next, hnext, hr⟩, ?_⟩
    rw [htotal, add_assoc]

end Context

end PerpCarry
