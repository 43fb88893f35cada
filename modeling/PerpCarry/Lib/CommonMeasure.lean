import Mathlib.Algebra.Order.Ring.Cast
import Mathlib.Algebra.Order.Field.Basic
import Mathlib.Algebra.Order.Group.Unbundled.Int
import Mathlib.Data.Int.GCD
import Mathlib.Tactic.LinearCombination
import Mathlib.Tactic.Ring

/-!
# Lib.CommonMeasure

Numbers that are whole multiples of one number.

* `GreatestMeasure.unique`: a set has at most one greatest common measure.
* `GreatestMeasure.union`: sets that share it share it with their union.
* `greatest_scaled`: whole multiples of a unit have the greatest common divisor of the factors,
  times the unit.
-/

namespace PerpCarry
namespace Lib

variable {K : Type} [Field K]

/-- `v` is a whole multiple of `d`. -/
def Measures (d v : K) : Prop := ∃ n : Int, v = n * d

namespace Measures

variable {d u : K}

theorem of_dvd {a b : Nat} (h : a ∣ b) (u : K) : Measures (a * u) (b * u) := by
  obtain ⟨c, rfl⟩ := h
  refine ⟨c, ?_⟩
  push_cast
  ring

/-- What measures two multiples of a unit measures the multiple by their divisor. -/
theorem gcd {a b : Nat} (ha : Measures d (a * u)) (hb : Measures d (b * u)) :
    Measures d ((Nat.gcd a b : Nat) * u) := by
  obtain ⟨n, hn⟩ := ha
  obtain ⟨m, hm⟩ := hb
  have hbezout : ((Nat.gcd a b : Nat) : K) =
      a * (Nat.gcdA a b : Int) + b * (Nat.gcdB a b : Int) := by
    have := congrArg (Int.cast (R := K)) (Nat.gcd_eq_gcd_ab a b)
    push_cast at this
    exact this
  refine ⟨n * Nat.gcdA a b + m * Nat.gcdB a b, ?_⟩
  rw [hbezout]
  push_cast
  linear_combination (Nat.gcdA a b : K) * hn + (Nat.gcdB a b : K) * hm

end Measures

/-! ## Multiples of a unit -/

/-- The greatest common divisor of a list with a first element. -/
def gcdOf (a : Nat) (rest : List Nat) : Nat := rest.foldl Nat.gcd a

theorem gcdOf_dvd (a : Nat) (rest : List Nat) : ∀ b ∈ a :: rest, gcdOf a rest ∣ b := by
  induction rest generalizing a with
  | nil =>
    intro b hb
    rw [List.mem_singleton.mp hb]
    exact dvd_refl a
  | cons c rest ih =>
    have hfirst : gcdOf (Nat.gcd a c) rest ∣ Nat.gcd a c := ih _ _ List.mem_cons_self
    intro b hb
    rcases List.mem_cons.mp hb with rfl | hb
    · exact hfirst.trans (Nat.gcd_dvd_left ..)
    · rcases List.mem_cons.mp hb with rfl | hb
      · exact hfirst.trans (Nat.gcd_dvd_right ..)
      · exact ih _ b (List.mem_cons_of_mem _ hb)

theorem gcdOf_pos {a : Nat} (ha : 0 < a) (rest : List Nat) : 0 < gcdOf a rest :=
  Nat.pos_of_dvd_of_pos (gcdOf_dvd a rest a List.mem_cons_self) ha

theorem measures_gcdOf {d u : K} {a : Nat} {rest : List Nat}
    (h : ∀ b ∈ a :: rest, Measures d (b * u)) : Measures d (gcdOf a rest * u) := by
  induction rest generalizing a with
  | nil => exact h a List.mem_cons_self
  | cons c rest ih =>
    obtain ⟨ha, hc, hrest⟩ := List.forall_mem_cons.mp h |>.imp_right List.forall_mem_cons.mp
    exact ih (List.forall_mem_cons.mpr ⟨ha.gcd hc, hrest⟩)

/-! ## The greatest common measure -/

variable [LinearOrder K]

structure GreatestMeasure (values : Set K) (g : K) : Prop where
  pos : 0 < g
  measures : ∀ v ∈ values, Measures g v
  greatest : ∀ d, (∀ v ∈ values, Measures d v) → Measures d g

/-- A measure that is one of the numbers. -/
theorem GreatestMeasure.of_mem {values : Set K} {g : K} (hpos : 0 < g) (hmem : g ∈ values)
    (hmeasures : ∀ v ∈ values, Measures g v) : GreatestMeasure values g :=
  ⟨hpos, hmeasures, fun _ hd => hd g hmem⟩

/-- Sets with one greatest common measure, taken together. -/
theorem GreatestMeasure.union {ι : Type} {values : ι → Set K} {g : K} (i : ι)
    (h : ∀ i, GreatestMeasure (values i) g) : GreatestMeasure {v | ∃ i, v ∈ values i} g where
  pos := (h i).pos
  measures := by
    rintro v ⟨j, hv⟩
    exact (h j).measures v hv
  greatest := fun d hd => (h i).greatest d fun v hv => hd v ⟨i, hv⟩

variable [IsStrictOrderedRing K]

theorem GreatestMeasure.unique {values : Set K} {g g' : K} (h : GreatestMeasure values g)
    (h' : GreatestMeasure values g') : g = g' := by
  obtain ⟨n, hn⟩ := h.greatest g' h'.measures
  obtain ⟨m, hm⟩ := h'.greatest g h.measures
  have hpos : ∀ {k : Int} {x y : K}, x = k * y → 0 < x → 0 < y → 0 < k := by
    rintro k _ y rfl hx hy
    exact Int.cast_pos.mp (pos_of_mul_pos_left hx hy.le)
  have hn0 := hpos hn h.pos h'.pos
  have hone : m * n = 1 := by
    have hself : g' = (m * n : Int) * g' := by
      push_cast
      rw [mul_assoc, ← hn]
      exact hm
    have := mul_right_cancel₀ h'.pos.ne' ((one_mul g').trans hself)
    exact_mod_cast this.symm
  have hunit : n = 1 := Int.eq_one_of_mul_eq_one_left hn0.le hone
  rw [hn, hunit, Int.cast_one, one_mul]

/-- A multiple that is not twice as large, or more, is the number itself. -/
theorem Measures.eq_of_lt_twice {d v : K} (h : Measures d v) (hpos : 0 < v) (hlt : v < 2 * d) :
    v = d := by
  obtain ⟨n, rfl⟩ := h
  have hd : 0 < d := (mul_pos_iff_of_pos_left two_pos).mp (hpos.trans hlt)
  have hlow : 0 < n := Int.cast_pos.mp (pos_of_mul_pos_left hpos hd.le)
  have hhigh : n < 2 := by exact_mod_cast lt_of_mul_lt_mul_right hlt hd.le
  have hone : n = 1 := by omega
  rw [hone, Int.cast_one, one_mul]

theorem greatest_scaled {u : K} (hu : 0 < u) {a : Nat} (ha : 0 < a) (rest : List Nat) :
    GreatestMeasure {v | ∃ b ∈ a :: rest, v = b * u} (gcdOf a rest * u) where
  pos := mul_pos (Nat.cast_pos.mpr (gcdOf_pos ha rest)) hu
  measures := by
    rintro _ ⟨b, hb, rfl⟩
    exact .of_dvd (gcdOf_dvd a rest b hb) u
  greatest := fun d hd => measures_gcdOf fun b hb => hd _ ⟨b, hb, rfl⟩

end Lib
end PerpCarry
