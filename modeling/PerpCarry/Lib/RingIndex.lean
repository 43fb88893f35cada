import Mathlib.Data.Nat.ModEq
import Mathlib.Data.Nat.Log

/-!
# Lib.RingIndex

Unbounded counters kept as `w`-bit words, and the slots of a ring of `2^k` cells they address.

The counters of a ring are natural numbers that only grow; the machine keeps them modulo `2^w`. Two
counters less than `2^w` apart can still be told apart and subtracted (`ofNat_sub_ofNat`,
`ofNat_eq_iff`), and inside a window of `2^k` counters no two share a slot (`slot_eq_iff`).
-/

namespace PerpCarry
namespace Lib

variable {w : Nat}

theorem ofNat_sub_ofNat {lo hi : Nat} (h : lo ≤ hi) :
    BitVec.ofNat w hi - BitVec.ofNat w lo = BitVec.ofNat w (hi - lo) := by
  have : hi = (hi - lo) + lo := by omega
  rw [this, BitVec.ofNat_add, BitVec.add_sub_cancel]
  congr 1
  omega

theorem ofNat_succ (n : Nat) : BitVec.ofNat w n + 1 = BitVec.ofNat w (n + 1) := by
  rw [BitVec.ofNat_add]
  rfl

/-- Equal words mean equal counters while these are less than `2^w` apart. -/
theorem ofNat_eq_iff {lo hi : Nat} (h : lo ≤ hi) (hw : hi - lo < 2 ^ w) :
    BitVec.ofNat w lo = BitVec.ofNat w hi ↔ lo = hi := by
  constructor
  · intro heq
    have hsub : BitVec.ofNat w (hi - lo) = 0#w := by
      rw [← ofNat_sub_ofNat h, heq, BitVec.sub_self]
    have := congrArg BitVec.toNat hsub
    rw [BitVec.toNat_ofNat, Nat.mod_eq_of_lt hw] at this
    simp at this
    omega
  · rintro rfl
    rfl

theorem ofNat_inj_lt {a b : Nat} (ha : a < 2 ^ w) (hb : b < 2 ^ w) :
    BitVec.ofNat w a = BitVec.ofNat w b ↔ a = b := by
  constructor
  · intro heq
    have := congrArg BitVec.toNat heq
    rwa [BitVec.toNat_ofNat, BitVec.toNat_ofNat, Nat.mod_eq_of_lt ha, Nat.mod_eq_of_lt hb] at this
  · rintro rfl
    rfl

/-- The slot of counter `i`. -/
def slot (w k i : Nat) : BitVec w := BitVec.ofNat w i &&& (BitVec.ofNat w (2 ^ k) - 1)

theorem slot_toNat {k : Nat} (hk : k < w) (i : Nat) : (slot w k i).toNat = i % 2 ^ k := by
  have hpow : 2 ^ k < 2 ^ w := Nat.pow_lt_pow_right (by omega) hk
  have hone : 1 ≤ 2 ^ k := Nat.one_le_two_pow
  have hmask : (BitVec.ofNat w (2 ^ k) - 1).toNat = 2 ^ k - 1 := by
    have : (1 : BitVec w) = BitVec.ofNat w 1 := rfl
    rw [this, ofNat_sub_ofNat hone, BitVec.toNat_ofNat, Nat.mod_eq_of_lt (by omega)]
  rw [slot, BitVec.toNat_and, hmask, Nat.and_two_pow_sub_one_eq_mod, BitVec.toNat_ofNat,
    Nat.mod_mod_of_dvd _ (Nat.pow_dvd_pow 2 hk.le)]

/-- Counters of one window have different slots. -/
theorem slot_eq_iff {k i j lo : Nat} (hk : k < w) (hi : lo ≤ i ∧ i < lo + 2 ^ k)
    (hj : lo ≤ j ∧ j < lo + 2 ^ k) : slot w k i = slot w k j ↔ i = j := by
  constructor
  · intro heq
    have hmod : i % 2 ^ k = j % 2 ^ k := by
      rw [← slot_toNat hk, ← slot_toNat hk, heq]
    rcases le_total i j with hij | hij
    · have hdvd := (Nat.modEq_iff_dvd' hij).mp hmod
      have := Nat.eq_zero_of_dvd_of_lt hdvd (by omega)
      omega
    · have hdvd := (Nat.modEq_iff_dvd' hij).mp hmod.symm
      have := Nat.eq_zero_of_dvd_of_lt hdvd (by omega)
      omega
  · rintro rfl
    rfl

/-- The counter one window further on has the same slot. -/
theorem slot_add {k : Nat} (hk : k < w) (i : Nat) : slot w k (i + 2 ^ k) = slot w k i := by
  refine BitVec.eq_of_toNat_eq ?_
  rw [slot_toNat hk, slot_toNat hk, Nat.add_mod_right]

/-- Every masked word is the slot of a counter of the window. -/
theorem exists_slot_eq {k : Nat} (hk : k < w) (lo : Nat) (i : BitVec w) :
    ∃ j, lo ≤ j ∧ j < lo + 2 ^ k ∧ i &&& (BitVec.ofNat w (2 ^ k) - 1) = slot w k j := by
  have hi : i &&& (BitVec.ofNat w (2 ^ k) - 1) = slot w k i.toNat := by
    rw [slot, BitVec.ofNat_toNat, BitVec.setWidth_eq]
  have hpow := Nat.two_pow_pos k
  -- the first counter from `lo` on that is congruent to `i`
  let r := (i.toNat + (2 ^ k - lo % 2 ^ k)) % 2 ^ k
  have hr : r < 2 ^ k := Nat.mod_lt _ hpow
  refine ⟨lo + r, by omega, by omega, ?_⟩
  rw [hi]
  refine BitVec.eq_of_toNat_eq ?_
  rw [slot_toNat hk, slot_toNat hk]
  show i.toNat % 2 ^ k = (lo + (i.toNat + (2 ^ k - lo % 2 ^ k)) % 2 ^ k) % 2 ^ k
  have hlo := Nat.mod_lt lo hpow
  rw [Nat.add_mod_mod]
  have : lo + (i.toNat + (2 ^ k - lo % 2 ^ k)) = i.toNat + (lo / 2 ^ k + 1) * 2 ^ k := by
    have := Nat.div_add_mod lo (2 ^ k)
    rw [Nat.add_mul, Nat.mul_comm (lo / 2 ^ k), one_mul]
    omega
  rw [this, Nat.add_mul_mod_self_right]

end Lib
end PerpCarry
