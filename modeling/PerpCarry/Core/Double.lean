import Mathlib.Data.Rat.Floor
import Mathlib.Tactic.Ring
import Mathlib.Tactic.Linarith

/-!
# Core.Double

The `double` of the C++ core: a finite value, an infinity or a NaN.

A finite double is kept as the rational number it denotes. Comparisons are those of IEEE 754, so
every comparison with a NaN is false and `eq` is not equality on NaNs. The two zeros are one value
here: no branch of the modelled code tells them apart, only `std::to_string` does, so that a message
with a negative zero has another text in the code. An arithmetic operation computes the rational
result and hands it to a rounding `rnd`. Round-to-nearest-even gives the machine's doubles, and
`exact`, which keeps every result as it is, reads the same program over exact rationals.
-/

namespace PerpCarry

inductive Double where
  | finite (value : ℚ)
  | infinity (negative : Bool)
  | nan
  deriving DecidableEq

/-- How the rational result of an operation on finite doubles becomes a double. -/
abbrev Rounding := ℚ → Double

def exact : Rounding := Double.finite

namespace Double

def zero : Double := finite 0

def isFinite : Double → Bool
  | finite _ => true
  | _ => false

/-- The number a finite double denotes. -/
def value : Double → ℚ
  | finite q => q
  | _ => 0

def lt : Double → Double → Bool
  | finite a, finite b => decide (a < b)
  | finite _, infinity s => !s
  | infinity s, finite _ => s
  | infinity s, infinity t => s && !t
  | _, _ => false

def eq : Double → Double → Bool
  | finite a, finite b => decide (a = b)
  | infinity s, infinity t => s == t
  | _, _ => false

def le (a b : Double) : Bool := lt a b || eq a b

def neg : Double → Double
  | finite a => finite (-a)
  | infinity s => infinity (!s)
  | nan => nan

def add (rnd : Rounding) : Double → Double → Double
  | finite a, finite b => rnd (a + b)
  | finite _, infinity s => infinity s
  | infinity s, finite _ => infinity s
  | infinity s, infinity t => if s = t then infinity s else nan
  | _, _ => nan

def sub (rnd : Rounding) (a b : Double) : Double := add rnd a (neg b)

def mul (rnd : Rounding) : Double → Double → Double
  | finite a, finite b => rnd (a * b)
  | finite a, infinity s => if a = 0 then nan else infinity (decide (a < 0) != s)
  | infinity s, finite b => if b = 0 then nan else infinity (s != decide (b < 0))
  | infinity s, infinity t => infinity (s != t)
  | _, _ => nan

def div (rnd : Rounding) : Double → Double → Double
  | finite a, finite b =>
    if b = 0 then (if a = 0 then nan else infinity (decide (a < 0))) else rnd (a / b)
  | finite _, infinity _ => zero
  | infinity s, finite b => infinity (s != decide (b < 0))
  | infinity _, infinity _ => nan
  | _, _ => nan

/-! ## `std::to_string` -/

/-- Round half to even, for a nonnegative number. -/
def roundHalfEven (q : ℚ) : Nat :=
  let n := ⌊q⌋.toNat
  let r := q - n
  if r < 1 / 2 then n
  else if 1 / 2 < r then n + 1
  else if n % 2 = 0 then n else n + 1

/-- `"%f"`: six digits after the point. -/
def toString : Double → String
  | finite q =>
    let n := roundHalfEven (|q| * 1000000)
    let frac := (n % 1000000).repr
    (if q < 0 then "-" else "") ++ (n / 1000000).repr ++ "." ++
      "".pushn '0' (6 - frac.length) ++ frac
  | infinity s => if s then "-inf" else "inf"
  | nan => "nan"

/-! ## Comparisons of finite doubles -/

variable {a b : ℚ}

@[simp] theorem isFinite_finite : (finite a).isFinite = true := rfl
@[simp] theorem value_finite : (finite a).value = a := rfl
@[simp] theorem lt_finite : lt (finite a) (finite b) = decide (a < b) := rfl
@[simp] theorem eq_finite : eq (finite a) (finite b) = decide (a = b) := rfl

@[simp] theorem le_finite : le (finite a) (finite b) = decide (a ≤ b) := by
  simp only [le, lt_finite, eq_finite, ← Bool.decide_or]
  exact decide_eq_decide.mpr le_iff_lt_or_eq.symm

@[simp] theorem neg_finite : neg (finite a) = finite (-a) := rfl
@[simp] theorem add_exact : add exact (finite a) (finite b) = finite (a + b) := rfl
@[simp] theorem mul_exact : mul exact (finite a) (finite b) = finite (a * b) := rfl

@[simp] theorem sub_exact : sub exact (finite a) (finite b) = finite (a - b) := by
  simp only [sub, neg_finite, add_exact, sub_eq_add_neg]

theorem div_exact (hb : b ≠ 0) : div exact (finite a) (finite b) = finite (a / b) := by
  simp [div, hb, exact]

theorem isFinite_iff {d : Double} : d.isFinite = true ↔ ∃ q, d = finite q := by
  cases d <;> simp [isFinite]

/-- On a finite double the comparison is equality, whatever the other one is. -/
theorem eq_iff {d : Double} (hd : d.isFinite = true) (e : Double) : d.eq e = true ↔ d = e := by
  obtain ⟨q, rfl⟩ := isFinite_iff.mp hd
  cases e <;> simp [eq]

theorem lt_irrefl (d : Double) : lt d d = false := by
  cases d with
  | finite q => simp
  | infinity s => cases s <;> rfl
  | nan => rfl

theorem lt_trans {d e f : Double} (h₁ : lt d e = true) (h₂ : lt e f = true) : lt d f = true := by
  cases d <;> cases e <;> cases f <;> simp_all [lt]
  linarith

theorem le_trans {d e f : Double} (h₁ : le d e = true) (h₂ : le e f = true) : le d f = true := by
  cases d <;> cases e <;> cases f <;> simp_all [le, lt, eq] <;> grind

end Double

end PerpCarry
