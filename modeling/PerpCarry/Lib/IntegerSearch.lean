import Mathlib.Algebra.Order.Group.Int
import Mathlib.Order.MinMax
import Mathlib.Tactic.Linarith

/-!
# Lib.IntegerSearch

Searching an interval of integers.

* `lastTrue`: bisection for the last integer at which `p` holds, with the middle rounded up.
* `lastTrue_fuel`: as many passes as the interval is long are enough.
* `lastTrue_up`, `lastTrue_down`: what one pass does, with just enough passes.
* `lastTrue_spec`: if `p` holds at the bottom and is not regained, the bisection ends at its end.
* `peak_best`: a function that rises strictly up to `peak` and falls strictly after it is greatest
  next to `peak`, or at the end of the interval that is nearest to it.
-/

namespace PerpCarry
namespace Lib

def lastTrue (p : Int → Bool) : Nat → Int → Int → Int
  | 0, low, _ => low
  | fuel + 1, low, high =>
    if low < high then
      if p ((low + high + 1) / 2) then lastTrue p fuel ((low + high + 1) / 2) high
      else lastTrue p fuel low ((low + high + 1) / 2 - 1)
    else low

section Bisection

variable {p : Int → Bool} {low high : Int} {fuel : Nat}

theorem lastTrue_fuel {fuel' : Nat} (h : (high - low).toNat ≤ fuel)
    (h' : (high - low).toNat ≤ fuel') : lastTrue p fuel low high = lastTrue p fuel' low high := by
  induction fuel generalizing low high fuel' with
  | zero =>
    cases fuel' with
    | zero => rfl
    | succ fuel' =>
      have hdone : ¬ low < high := by omega
      simp only [lastTrue, if_neg hdone]
  | succ fuel ih =>
    cases fuel' with
    | zero =>
      have hdone : ¬ low < high := by omega
      simp only [lastTrue, if_neg hdone]
    | succ fuel' =>
      simp only [lastTrue]
      split
      · split
        · exact ih (by omega) (by omega)
        · exact ih (by omega) (by omega)
      · rfl

theorem lastTrue_done (h : ¬ low < high) : lastTrue p fuel low high = low := by
  cases fuel with
  | zero => rfl
  | succ fuel => simp only [lastTrue, if_neg h]

theorem lastTrue_up (h : low < high) (hmiddle : p ((low + high + 1) / 2) = true) :
    lastTrue p (high - low).toNat low high =
      lastTrue p (high - (low + high + 1) / 2).toNat ((low + high + 1) / 2) high := by
  obtain ⟨n, hn⟩ : ∃ n, (high - low).toNat = n + 1 := ⟨(high - low).toNat - 1, by omega⟩
  simp only [hn, lastTrue, if_pos h, hmiddle, if_true]
  exact lastTrue_fuel (by omega) le_rfl

theorem lastTrue_down (h : low < high) (hmiddle : p ((low + high + 1) / 2) = false) :
    lastTrue p (high - low).toNat low high =
      lastTrue p ((low + high + 1) / 2 - 1 - low).toNat low ((low + high + 1) / 2 - 1) := by
  obtain ⟨n, hn⟩ : ∃ n, (high - low).toNat = n + 1 := ⟨(high - low).toNat - 1, by omega⟩
  simp only [hn, lastTrue, if_pos h, hmiddle, Bool.false_eq_true, if_false]
  exact lastTrue_fuel (by omega) le_rfl

theorem lastTrue_spec (hle : low ≤ high) (hfuel : (high - low).toNat ≤ fuel)
    (hlow : p low = true)
    (hkeep : ∀ i j, low ≤ i → i ≤ j → j ≤ high → p j = true → p i = true) :
    (low ≤ lastTrue p fuel low high ∧ lastTrue p fuel low high ≤ high) ∧
      ∀ i, low ≤ i → i ≤ high → (p i = true ↔ i ≤ lastTrue p fuel low high) := by
  induction fuel generalizing low high with
  | zero =>
    obtain rfl : low = high := by omega
    refine ⟨⟨le_rfl, le_rfl⟩, ?_⟩
    intro i hi hi'
    obtain rfl : i = low := by omega
    simp [lastTrue, hlow]
  | succ fuel ih =>
    simp only [lastTrue]
    split
    · rename_i hlt
      split
      · rename_i hmiddle
        obtain ⟨⟨hge, hle⟩, hiff⟩ := @ih ((low + high + 1) / 2) high (by omega) (by omega) hmiddle
          fun i j hi => hkeep i j (by omega)
        refine ⟨⟨by omega, hle⟩, ?_⟩
        intro i hi hi'
        by_cases hbelow : i < (low + high + 1) / 2
        · have : p i = true := hkeep i _ hi hbelow.le (by omega) hmiddle
          simp only [this, true_iff]
          omega
        · exact hiff i (by omega) hi'
      · rename_i hmiddle
        obtain ⟨⟨hge, hle⟩, hiff⟩ := @ih low ((low + high + 1) / 2 - 1) (by omega) (by omega) hlow
          fun i j hi hij hj => hkeep i j hi hij (by omega)
        refine ⟨⟨hge, by omega⟩, ?_⟩
        intro i hi hi'
        by_cases habove : (low + high + 1) / 2 ≤ i
        · have hpi : ¬ p i = true := fun hp => hmiddle (hkeep _ i (by omega) habove hi' hp)
          exact ⟨fun hp => absurd hp hpi, fun hbelow => by omega⟩
        · exact hiff i hi (by omega)
    · rename_i hdone
      obtain rfl : low = high := by omega
      refine ⟨⟨le_rfl, le_rfl⟩, ?_⟩
      intro i hi hi'
      obtain rfl : i = low := by omega
      simp [hlow]

end Bisection

section Peak

variable {K : Type*} [LinearOrder K]

/-- `n`, or the end of the interval nearest to it. -/
def clamp (first last n : Int) : Int := max first (min last n)

/-- The better of the two neighbours of `peak`, the smaller one on a tie. -/
def peakAt (g : Int → K) (first last peak : Int) : Int :=
  if g (clamp first last peak) < g (clamp first last (peak + 1)) then clamp first last (peak + 1)
  else clamp first last peak

theorem clamp_mem {first last : Int} (h : first ≤ last) (n : Int) :
    first ≤ clamp first last n ∧ clamp first last n ≤ last := by
  unfold clamp
  omega

theorem peakAt_mem {first last : Int} (g : Int → K) (h : first ≤ last) (peak : Int) :
    first ≤ peakAt g first last peak ∧ peakAt g first last peak ≤ last := by
  unfold peakAt
  split
  · exact clamp_mem h _
  · exact clamp_mem h _

theorem peak_best {g : Int → K} {first last peak : Int} (hle : first ≤ last)
    (hup : ∀ i j, first ≤ i → i < j → j ≤ last → j ≤ peak → g i < g j)
    (hdown : ∀ i j, first ≤ i → i < j → j ≤ last → peak < i → g j < g i) :
    (first ≤ peakAt g first last peak ∧ peakAt g first last peak ≤ last) ∧
      ∀ i, first ≤ i → i ≤ last → g i ≤ g (peakAt g first last peak) ∧
        (g i = g (peakAt g first last peak) → peakAt g first last peak ≤ i) := by
  have hlow := clamp_mem hle peak
  have hhigh := clamp_mem hle (peak + 1)
  -- below the peak the lower neighbour is best, above it the upper one
  have hbelow : ∀ i, first ≤ i → i ≤ last → i ≤ peak →
      g i ≤ g (clamp first last peak) ∧ (g i = g (clamp first last peak) → i = clamp first last peak) := by
    intro i hi hi' hpeak
    have hclamp : i ≤ clamp first last peak ∧ clamp first last peak ≤ peak := by
      unfold clamp
      omega
    rcases hclamp.1.eq_or_lt with heq | hlt
    · exact ⟨(congrArg g heq).le, fun _ => heq⟩
    · have := hup i _ hi hlt hlow.2 hclamp.2
      exact ⟨this.le, fun heq => absurd heq this.ne⟩
  have habove : ∀ i, first ≤ i → i ≤ last → peak < i →
      g i ≤ g (clamp first last (peak + 1)) ∧
        (g i = g (clamp first last (peak + 1)) → i = clamp first last (peak + 1)) := by
    intro i hi hi' hpeak
    have hclamp : clamp first last (peak + 1) ≤ i ∧ peak < clamp first last (peak + 1) := by
      unfold clamp
      omega
    rcases hclamp.1.eq_or_lt with heq | hlt
    · exact ⟨(congrArg g heq.symm).le, fun _ => heq.symm⟩
    · have := hdown _ i hhigh.1 hlt hi' hclamp.2
      exact ⟨this.le, fun heq => absurd heq this.ne⟩
  have horder : clamp first last peak ≤ clamp first last (peak + 1) := by
    unfold clamp
    omega
  unfold peakAt
  split
  · rename_i hlt
    refine ⟨hhigh, ?_⟩
    intro i hi hi'
    rcases le_or_gt i peak with hpeak | hpeak
    · have := (hbelow i hi hi' hpeak).1.trans_lt hlt
      exact ⟨this.le, fun heq => absurd heq this.ne⟩
    · obtain ⟨hgi, heq⟩ := habove i hi hi' hpeak
      exact ⟨hgi, fun h => (heq h).ge⟩
  · rename_i hge
    have hge := not_lt.mp hge
    refine ⟨hlow, ?_⟩
    intro i hi hi'
    rcases le_or_gt i peak with hpeak | hpeak
    · obtain ⟨hgi, heq⟩ := hbelow i hi hi' hpeak
      exact ⟨hgi, fun h => (heq h).ge⟩
    · obtain ⟨hgi, heq⟩ := habove i hi hi' hpeak
      refine ⟨hgi.trans hge, fun h => ?_⟩
      rw [heq (le_antisymm hgi (h ▸ hge))]
      exact horder

end Peak

end Lib
end PerpCarry
