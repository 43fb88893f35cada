import Mathlib.Data.Int.Log
import Mathlib.Data.Rat.Floor
import PerpCarry.Core.PyDecimal

/-!
# Core.ContextRounding

What a context makes of the exact result of an operation.

Sums, products and quotients of finite decimals are rational numbers. The operation returns that
number rounded to the digits of the context, and not below its smallest exponent. A result past the
largest exponent raises `Overflow` instead; that is not part of `rounded`.

* `rounded_keeps`: what is rounded is a number that rounding keeps.
* `keeps_rounded`: such a number is left as it is.
* `rounded_lost`: what more digits round to zero, fewer do.
-/

namespace PerpCarry
namespace Context

/-- `Context(prec=prec)`, with the defaults. -/
def ofPrec (prec : Nat) (prec_pos : 1 ≤ prec) : Context where
  prec := prec
  rounding := .halfEven
  eMin := -999999
  eMax := 999999
  prec_pos := prec_pos
  eMin_nonpos := by omega
  eMax_nonneg := by omega

theorem fifty_pos : 1 ≤ 50 := by decide
theorem sixty_pos : 1 ≤ 60 := by decide

section Definitions

variable (ctx : Context)

/-- The exponent of the last digit that is kept. -/
def lastPlace (q : ℚ) : Int := max (Int.log 10 |q| + 1 - ctx.prec) ctx.etiny

/-- A nonnegative number rounded to an integer. -/
def integral (negative : Bool) (q : ℚ) : Nat :=
  let kept := q.num.natAbs / q.den
  let rest := q.num.natAbs % q.den
  kept + if ctx.rounding.roundsUp negative kept rest q.den then 1 else 0

def rounded (q : ℚ) : ℚ :=
  let unit := (10 : ℚ) ^ ctx.lastPlace q
  let magnitude := ctx.integral (decide (q < 0)) (|q| / unit) * unit
  if q < 0 then -magnitude else magnitude

end Definitions

variable {ctx wide : Context} {q : ℚ}

theorem ten_pos (e : Int) : (0 : ℚ) < 10 ^ e := zpow_pos (by norm_num) e

theorem ten_add (e e' : Int) : (10 : ℚ) ^ (e + e') = 10 ^ e * 10 ^ e' :=
  zpow_add₀ (by norm_num) e e'

/-! ## Integers -/

theorem natAbs_num (hq : 0 ≤ q) : (q.num.natAbs : ℚ) = q * q.den := by
  rw [Rat.mul_den_eq_num, ← Int.cast_natCast, Int.natAbs_of_nonneg (Rat.num_nonneg.mpr hq)]

theorem kept_lt (hq : 0 ≤ q) {n : Nat} (h : q < n) : q.num.natAbs / q.den < n := by
  have hden : (0 : ℚ) < q.den := by exact_mod_cast q.den_pos
  have hlt : (q.num.natAbs : ℚ) < q.den * n := by
    rw [natAbs_num hq, mul_comm]
    exact mul_lt_mul_of_pos_left h hden
  exact Nat.div_lt_of_lt_mul (by exact_mod_cast hlt)

theorem integral_le (hq : 0 ≤ q) {n : Nat} (h : q < n) (negative : Bool) :
    ctx.integral negative q ≤ n := by
  have hkept := kept_lt hq h
  unfold integral
  dsimp only
  split <;> omega

theorem integral_natCast (n : Nat) (negative : Bool) : ctx.integral negative (n : ℚ) = n := by
  simp [integral, DecimalRounding.roundsUp, Nat.mod_one]

/-- Half even rounds alike on both sides of zero, and less than a half to zero. -/
theorem integral_mode (h : ctx.rounding = .halfEven) (negative negative' : Bool) :
    ctx.integral negative q = ctx.integral negative' q := by
  unfold integral
  rw [h]
  rfl

theorem integral_small (h : ctx.rounding = .halfEven) (hq : 0 ≤ q) (hsmall : 2 * q < 1)
    (negative : Bool) : ctx.integral negative q = 0 := by
  have hden : (0 : ℚ) < q.den := by exact_mod_cast q.den_pos
  have htwice : 2 * q.num.natAbs < q.den := by
    have hlt : 2 * (q.num.natAbs : ℚ) < q.den := by
      rw [natAbs_num hq, ← mul_assoc]
      exact mul_lt_of_lt_one_left hden hsmall
    exact_mod_cast hlt
  have hdown : DecimalRounding.halfEven.roundsUp negative 0 q.num.natAbs q.den = false := by
    simp [DecimalRounding.roundsUp]
    omega
  unfold integral
  rw [Nat.div_eq_of_lt (by omega), Nat.mod_eq_of_lt (by omega), h]
  dsimp only
  rw [hdown]
  rfl

theorem lt_one_of_integral {negative : Bool} (hq : 0 ≤ q) (h : ctx.integral negative q = 0) :
    q < 1 := by
  have hden : (0 : ℚ) < q.den := by exact_mod_cast q.den_pos
  have hkept : q.num.natAbs / q.den = 0 := (Nat.add_eq_zero_iff.mp h).1
  have hlt : (q.num.natAbs : ℚ) < q.den := by
    exact_mod_cast (Nat.div_eq_zero_iff_lt q.den_pos).mp hkept
  rw [natAbs_num hq] at hlt
  exact (mul_lt_iff_lt_one_left hden).mp hlt

/-! ## Numbers that are kept -/

theorem keeps_of_le {c : Nat} {e : Int} (hc : c ≤ 10 ^ ctx.prec) (hlow : ctx.etiny ≤ e) :
    ctx.Keeps (c * (10 : ℚ) ^ e) := by
  rcases hc.lt_or_eq with hlt | rfl
  · exact ⟨c, e, rfl, hlt, hlow⟩
  · have hprec := ctx.prec_pos
    refine ⟨10 ^ (ctx.prec - 1), e + 1, ?_, Nat.pow_lt_pow_right (by decide) (by omega), by omega⟩
    obtain ⟨n, hn⟩ := Nat.exists_eq_add_of_le hprec
    rw [hn, ten_add, Nat.add_sub_cancel_left]
    push_cast
    ring

theorem keeps_wide (hprec : ctx.prec ≤ wide.prec) (hmin : ctx.eMin = wide.eMin)
    (h : ctx.Keeps q) : wide.Keeps q := by
  obtain ⟨c, e, hq, hc, hlow⟩ := h
  refine ⟨c, e, hq, hc.trans_le (Nat.pow_le_pow_right (by decide) hprec), ?_⟩
  unfold etiny at hlow ⊢
  omega

theorem abs_div_lt (q : ℚ) : |q| / 10 ^ ctx.lastPlace q < (10 ^ ctx.prec : Nat) := by
  rw [div_lt_iff₀ (ten_pos _)]
  have hplace : Int.log 10 |q| + 1 ≤ ctx.prec + ctx.lastPlace q := by
    unfold lastPlace
    omega
  calc |q| < (10 : ℚ) ^ (Int.log 10 |q| + 1) := by
        exact_mod_cast Int.lt_zpow_succ_log_self (by decide) |q|
    _ ≤ (10 : ℚ) ^ (ctx.prec + ctx.lastPlace q) := zpow_le_zpow_right₀ (by norm_num) hplace
    _ = _ := by
      rw [ten_add, zpow_natCast]
      push_cast
      rfl

theorem abs_rounded (q : ℚ) : |ctx.rounded q| =
    ctx.integral (decide (q < 0)) (|q| / 10 ^ ctx.lastPlace q) * (10 : ℚ) ^ ctx.lastPlace q := by
  have hnonneg : (0 : ℚ) ≤ ctx.integral (decide (q < 0)) (|q| / 10 ^ ctx.lastPlace q) *
      (10 : ℚ) ^ ctx.lastPlace q :=
    mul_nonneg (Nat.cast_nonneg _) (ten_pos _).le
  unfold rounded
  dsimp only
  split
  · rw [abs_neg, abs_of_nonneg hnonneg]
  · exact abs_of_nonneg hnonneg

theorem rounded_keeps (q : ℚ) : ctx.Keeps |ctx.rounded q| := by
  rw [abs_rounded]
  exact keeps_of_le (integral_le (div_nonneg (abs_nonneg q) (ten_pos _).le) (abs_div_lt q) _)
    (le_max_right _ _)

theorem keeps_rounded (h : ctx.Keeps |q|) : ctx.rounded q = q := by
  obtain ⟨c, e, hq, hc, hlow⟩ := h
  have hmagnitude : ctx.integral (decide (q < 0)) (|q| / 10 ^ ctx.lastPlace q) *
      (10 : ℚ) ^ ctx.lastPlace q = |q| := by
    have hplace : ctx.lastPlace q ≤ e ∨ c = 0 := by
      by_cases hzero : c = 0
      · exact .inr hzero
      · refine .inl (max_le ?_ hlow)
        have hpos : 0 < |q| := by
          rw [hq]
          exact mul_pos (by positivity) (ten_pos e)
        have hlt : |q| < ((10 : Nat) : ℚ) ^ (ctx.prec + e : Int) := by
          rw [hq, Nat.cast_ofNat, ten_add, zpow_natCast]
          exact mul_lt_mul_of_pos_right (by exact_mod_cast hc) (ten_pos e)
        have hlog := (Int.lt_zpow_iff_log_lt (by decide) hpos).mp hlt
        omega
    rcases hplace with hplace | rfl
    · obtain ⟨k, hk⟩ := Int.le.dest hplace
      have hscaled : |q| / 10 ^ ctx.lastPlace q = (c * 10 ^ k : Nat) := by
        rw [div_eq_iff (ten_pos _).ne', hq, ← hk, ten_add, zpow_natCast]
        push_cast
        ring
      rw [hscaled, integral_natCast, ← hscaled, div_mul_cancel₀ _ (ten_pos _).ne']
    · rw [Nat.cast_zero, zero_mul] at hq
      rw [hq, zero_div, ← Nat.cast_zero, integral_natCast, Nat.cast_zero, zero_mul]
  unfold rounded
  dsimp only
  rw [hmagnitude]
  split
  · rename_i hneg
    rw [abs_of_neg hneg, neg_neg]
  · rename_i hnonneg
    exact abs_of_nonneg (not_lt.mp hnonneg)

/-! ## Laws -/

theorem rounded_idem (q : ℚ) : ctx.rounded (ctx.rounded q) = ctx.rounded q :=
  keeps_rounded (rounded_keeps q)

theorem rounded_wide (hprec : ctx.prec ≤ wide.prec) (hmin : ctx.eMin = wide.eMin) (q : ℚ) :
    wide.rounded (ctx.rounded q) = ctx.rounded q :=
  keeps_rounded (keeps_wide hprec hmin (rounded_keeps q))

theorem rounded_nonneg (h : 0 ≤ q) : 0 ≤ ctx.rounded q := by
  unfold rounded
  dsimp only
  rw [if_neg (not_lt.mpr h)]
  exact mul_nonneg (Nat.cast_nonneg _) (ten_pos _).le

theorem rounded_neg (h : ctx.rounding = .halfEven) (q : ℚ) :
    ctx.rounded (-q) = -ctx.rounded q := by
  have hplace : ctx.lastPlace (-q) = ctx.lastPlace q := by rw [lastPlace, abs_neg, lastPlace]
  unfold rounded
  dsimp only
  rw [abs_neg, hplace, integral_mode h (decide (-q < 0)) (decide (q < 0))]
  rcases lt_trichotomy q 0 with hneg | rfl | hpos
  · rw [if_neg (by linarith), if_pos hneg, neg_neg]
  · simp [integral, DecimalRounding.roundsUp]
  · rw [if_pos (by linarith), if_neg (by linarith)]

/-- What more digits round to zero, fewer do. -/
theorem rounded_lost (hprec : ctx.prec < wide.prec) (hmin : ctx.eMin = wide.eMin)
    (hmode : ctx.rounding = .halfEven) (h : wide.rounded q = 0) : ctx.rounded q = 0 := by
  by_cases hzero : q = 0
  · rw [hzero] at h ⊢
    exact keeps_rounded ⟨0, ctx.etiny, by simp, Nat.pow_pos (by decide), le_refl _⟩
  have hpos : 0 < |q| := abs_pos.mpr hzero
  have hlost := @abs_rounded wide q
  rw [h, abs_zero, zero_eq_mul, or_iff_left (ten_pos _).ne', Nat.cast_eq_zero] at hlost
  have hbelow : |q| < 10 ^ wide.lastPlace q :=
    (div_lt_one (ten_pos _)).mp
      (lt_one_of_integral (div_nonneg (abs_nonneg q) (ten_pos _).le) hlost)
  -- so small a number has no digits left but those below the smallest exponent
  have hplace : wide.lastPlace q = wide.etiny := by
    rcases max_choice (Int.log 10 |q| + 1 - wide.prec) wide.etiny with hlog | hlow
    · have hpow : (10 : ℚ) ^ Int.log 10 |q| ≤ |q| := by
        exact_mod_cast Int.zpow_log_le_self (by decide) hpos
      have hprec := wide.prec_pos
      have hle : (10 : ℚ) ^ wide.lastPlace q ≤ 10 ^ Int.log 10 |q| := by
        refine zpow_le_zpow_right₀ (by norm_num) ?_
        rw [lastPlace, hlog]
        omega
      exact absurd hbelow (not_lt.mpr (hle.trans hpow))
    · exact hlow
  have hlast : wide.etiny + 1 ≤ ctx.lastPlace q := by
    refine le_trans ?_ (le_max_right _ _)
    unfold etiny
    omega
  have hhalf : 2 * (|q| / 10 ^ ctx.lastPlace q) < 1 := by
    rw [← mul_div_assoc, div_lt_one (ten_pos _)]
    rw [hplace] at hbelow
    calc 2 * |q| < 10 * 10 ^ wide.etiny := by linarith [ten_pos wide.etiny]
      _ = 10 ^ (wide.etiny + 1) := by rw [ten_add, zpow_one, mul_comm]
      _ ≤ _ := zpow_le_zpow_right₀ (by norm_num) hlast
  have hnothing := @abs_rounded ctx q
  rw [integral_small hmode (div_nonneg (abs_nonneg q) (ten_pos _).le) hhalf, Nat.cast_zero,
    zero_mul] at hnothing
  exact abs_eq_zero.mp hnothing

end Context
end PerpCarry
