import Mathlib.Algebra.BigOperators.Group.List.Basic
import Mathlib.Algebra.Order.Ring.Defs
import Mathlib.Tactic.Linarith
import Mathlib.Tactic.Ring

/-!
# Lib.Ladder

Greedy consumption of a ladder: levels of a price and a quantity, best first.

`take q` is what an order of size `q` takes, level by level, and `leave q` is the ladder it leaves.

* `leave_leave`, `value_add`: an order of size `a` and then one of size `b` leave what one of size
  `a + b` leaves, and take the same value at any pricing.
* `value_one`: an order gets its size, or the whole depth when that is less.
* `last_add`: the last level reached is that of the later part, unless it got nothing.
-/

namespace PerpCarry
namespace Lib

variable {K : Type*}

def lastPrice (fills : List (K × K)) : Option K := fills.getLast?.map Prod.fst

theorem lastPrice_cons (t : K × K) (fills : List (K × K)) :
    lastPrice (t :: fills) = (lastPrice fills).or (some t.1) := by
  cases fills with
  | nil => rfl
  | cons u us =>
    have hsome : (u :: us).getLast? = some ((u :: us).getLast (by simp)) :=
      List.getLast?_eq_some_getLast _
    simp only [lastPrice, List.getLast?_cons_cons, hsome]
    rfl

theorem lastPrice_mem {fills : List (K × K)} {w : K} (h : lastPrice fills = some w) :
    ∃ t ∈ fills, t.1 = w := by
  simp only [lastPrice, Option.map_eq_some_iff] at h
  obtain ⟨t, ht, rfl⟩ := h
  exact ⟨t, List.mem_of_getLast? ht, rfl⟩

variable [CommRing K]

def depth (L : List (K × K)) : K := (L.map Prod.snd).sum

/-- The worth of the fills when a unit at price `p` counts `f p`. -/
def value (f : K → K) (fills : List (K × K)) : K := (fills.map fun t => f t.1 * t.2).sum

@[simp] theorem value_nil (f : K → K) : value f [] = 0 := rfl
@[simp] theorem depth_nil : depth ([] : List (K × K)) = 0 := rfl

@[simp] theorem value_cons (f : K → K) (t : K × K) (fills : List (K × K)) :
    value f (t :: fills) = f t.1 * t.2 + value f fills := by
  simp [value]

@[simp] theorem depth_cons (l : K × K) (L : List (K × K)) : depth (l :: L) = l.2 + depth L := by
  simp [depth]

variable [LinearOrder K]

/-- Levels of positive quantity. -/
def Stocked (L : List (K × K)) : Prop := ∀ l ∈ L, 0 < l.2

def take (q : K) : List (K × K) → List (K × K)
  | [] => []
  | (p, x) :: L => if 0 < q then (p, min q x) :: take (q - min q x) L else []

def leave (q : K) : List (K × K) → List (K × K)
  | [] => []
  | (p, x) :: L => if q < x then (p, x - q) :: L else leave (q - x) L

@[simp] theorem take_nil (q : K) : take q [] = [] := rfl
@[simp] theorem leave_nil (q : K) : leave q [] = [] := rfl
theorem Stocked.head {l : K × K} {L : List (K × K)} (h : Stocked (l :: L)) : 0 < l.2 :=
  h l (by simp)

theorem Stocked.tail {l : K × K} {L : List (K × K)} (h : Stocked (l :: L)) : Stocked L :=
  fun m hm => h m (by simp [hm])

theorem take_of_nonpos {q : K} (h : q ≤ 0) (L : List (K × K)) : take q L = [] := by
  cases L with
  | nil => rfl
  | cons l L => exact if_neg (not_lt.mpr h)

variable {L : List (K × K)} {p x q a b : K}

theorem take_cons_lt (h0 : 0 < q) (h : q < x) : take q ((p, x) :: L) = [(p, q)] := by
  simp only [take, if_pos h0, min_eq_left h.le, sub_self, take_of_nonpos le_rfl]

theorem take_cons_ge (hx : 0 < x) (h : x ≤ q) :
    take q ((p, x) :: L) = (p, x) :: take (q - x) L := by
  simp only [take, if_pos (lt_of_lt_of_le hx h), min_eq_right h]

theorem leave_cons_lt (h : q < x) : leave q ((p, x) :: L) = (p, x - q) :: L := if_pos h

theorem leave_cons_ge (h : x ≤ q) : leave q ((p, x) :: L) = leave (q - x) L :=
  if_neg (not_lt.mpr h)

theorem leave_zero (h : Stocked L) : leave 0 L = L := by
  cases L with
  | nil => rfl
  | cons l L => rw [leave_cons_lt h.head, sub_zero]

/-- Orders trade only at the prices of the ladder. -/
theorem price_of_take {t : K × K} (ht : t ∈ take q L) : ∃ l ∈ L, l.1 = t.1 := by
  induction L generalizing q with
  | nil => cases ht
  | cons l L ih =>
    simp only [take] at ht
    split at ht
    · rcases List.mem_cons.mp ht with rfl | ht
      · exact ⟨l, by simp, rfl⟩
      · obtain ⟨m, hm, heq⟩ := ih ht
        exact ⟨m, by simp [hm], heq⟩
    · cases ht

theorem price_of_leave {t : K × K} (ht : t ∈ leave q L) : ∃ l ∈ L, l.1 = t.1 := by
  induction L generalizing q with
  | nil => cases ht
  | cons l L ih =>
    simp only [leave] at ht
    split at ht
    · rcases List.mem_cons.mp ht with rfl | ht
      · exact ⟨l, by simp, rfl⟩
      · exact ⟨t, by simp [ht], rfl⟩
    · obtain ⟨m, hm, heq⟩ := ih ht
      exact ⟨m, by simp [hm], heq⟩

variable [IsStrictOrderedRing K]

theorem leave_stocked (h : Stocked L) (q : K) : Stocked (leave q L) := by
  induction L generalizing q with
  | nil => exact h
  | cons l L ih =>
    by_cases hq : q < l.2
    · rw [leave_cons_lt hq]
      intro m hm
      rcases List.mem_cons.mp hm with rfl | hm
      · exact sub_pos.mpr hq
      · exact h m (by simp [hm])
    · rw [leave_cons_ge (not_lt.mp hq)]
      exact ih h.tail _

theorem leave_leave (h : Stocked L) (ha : 0 ≤ a) (hb : 0 ≤ b) :
    leave b (leave a L) = leave (a + b) L := by
  induction L generalizing a with
  | nil => rfl
  | cons l L ih =>
    obtain ⟨p, x⟩ := l
    by_cases hax : a < x
    · rw [leave_cons_lt hax]
      by_cases hbx : b < x - a
      · rw [leave_cons_lt hbx, leave_cons_lt (by linarith), sub_sub]
      · rw [leave_cons_ge (not_lt.mp hbx), leave_cons_ge (by linarith)]
        congr 1
        ring
    · have hax := not_lt.mp hax
      rw [leave_cons_ge hax, leave_cons_ge (by linarith), ih h.tail (by linarith)]
      congr 1
      ring

theorem value_add (f : K → K) (h : Stocked L) (ha : 0 ≤ a) (hb : 0 ≤ b) :
    value f (take (a + b) L) = value f (take a L) + value f (take b (leave a L)) := by
  induction L generalizing a with
  | nil => simp
  | cons l L ih =>
    obtain ⟨p, x⟩ := l
    have hx : 0 < x := h.head
    by_cases hax : a < x
    · rcases ha.eq_or_lt with rfl | ha
      · rw [zero_add, leave_zero h, take_of_nonpos le_rfl, value_nil, zero_add]
      · rcases hb.eq_or_lt with rfl | hb
        · rw [add_zero, take_of_nonpos le_rfl (leave a _), value_nil, add_zero]
        · rw [leave_cons_lt hax, take_cons_lt ha hax]
          by_cases hbx : b < x - a
          · rw [take_cons_lt hb hbx, take_cons_lt (by linarith) (by linarith)]
            simp only [value_cons, value_nil]
            ring
          · have hbx := not_lt.mp hbx
            rw [take_cons_ge (by linarith) hbx, take_cons_ge hx (by linarith)]
            rw [show a + b - x = b - (x - a) by ring]
            simp only [value_cons, value_nil]
            ring
    · have hax := not_lt.mp hax
      rw [leave_cons_ge hax, take_cons_ge hx hax, take_cons_ge hx (by linarith)]
      rw [show a + b - x = a - x + b by ring]
      simp only [value_cons]
      rw [ih h.tail (by linarith), add_assoc]

theorem depth_nonneg (h : Stocked L) : 0 ≤ depth L := by
  induction L with
  | nil => exact le_rfl
  | cons l L ih =>
    rw [depth_cons]
    exact add_nonneg h.head.le (ih h.tail)

theorem value_one (h : Stocked L) (hq : 0 ≤ q) :
    value (fun _ => 1) (take q L) = min q (depth L) := by
  induction L generalizing q with
  | nil => simp [hq]
  | cons l L ih =>
    obtain ⟨p, x⟩ := l
    have hx : 0 < x := h.head
    have := depth_nonneg h.tail
    by_cases hqx : q < x
    · have hmin : min q (depth ((p, x) :: L)) = q := by
        refine min_eq_left ?_
        rw [depth_cons]
        show q ≤ x + depth L
        linarith
      rw [hmin]
      rcases hq.eq_or_lt with rfl | hq
      · rw [take_of_nonpos le_rfl, value_nil]
      · rw [take_cons_lt hq hqx]
        simp
    · have hqx := not_lt.mp hqx
      rw [take_cons_ge hx hqx, value_cons, ih h.tail (by linarith), depth_cons, one_mul,
        ← min_add_add_left, add_sub_cancel]

/-- What is left is what was there less what was taken. -/
theorem depth_leave (h : Stocked L) (hq : 0 ≤ q) : depth (leave q L) = depth L - min q (depth L) := by
  induction L generalizing q with
  | nil => simp [hq]
  | cons l L ih =>
    obtain ⟨p, x⟩ := l
    have hx : 0 < x := h.head
    have := depth_nonneg h.tail
    by_cases hqx : q < x
    · rw [leave_cons_lt hqx, depth_cons, depth_cons, min_eq_left]
      · ring
      · show q ≤ x + depth L
        linarith
    · have hqx := not_lt.mp hqx
      rw [leave_cons_ge hqx, ih h.tail (by linarith), depth_cons]
      show _ = x + depth L - min q (x + depth L)
      have : min q (x + depth L) = x + min (q - x) (depth L) := by
        rw [← min_add_add_left, add_sub_cancel]
      rw [this]
      ring

/-! ## The last level reached -/

theorem last_add (h : Stocked L) (ha : 0 ≤ a) (hb : 0 ≤ b) :
    lastPrice (take (a + b) L) =
      (lastPrice (take b (leave a L))).or (lastPrice (take a L)) := by
  induction L generalizing a with
  | nil => rfl
  | cons l L ih =>
    obtain ⟨p, x⟩ := l
    have hx : 0 < x := h.head
    rcases ha.eq_or_lt with rfl | hpos
    · rw [zero_add, leave_zero h, take_of_nonpos le_rfl]
      exact (Option.or_none).symm
    · rcases hb.eq_or_lt with rfl | hb
      · rw [add_zero, take_of_nonpos le_rfl (leave a _)]
        rfl
      · by_cases hax : a < x
        · rw [leave_cons_lt hax, take_cons_lt hpos hax]
          by_cases hbx : b < x - a
          · rw [take_cons_lt hb hbx, take_cons_lt (by linarith) (by linarith)]
            rfl
          · have hbx := not_lt.mp hbx
            rw [take_cons_ge (by linarith) hbx, take_cons_ge hx (by linarith)]
            rw [show a + b - x = b - (x - a) by ring]
            simp only [lastPrice_cons, Option.or_assoc]
            rfl
        · have hax := not_lt.mp hax
          rw [leave_cons_ge hax, take_cons_ge hx hax, take_cons_ge hx (by linarith)]
          rw [show a + b - x = a - x + b by ring]
          simp only [lastPrice_cons]
          rw [ih h.tail (by linarith), Option.or_assoc]

/-- A later part reaches the same last level or a deeper one. -/
theorem last_deeper {r : K → K → Prop} (hr : L.Pairwise fun l m => r l.1 m.1) (h : Stocked L)
    (ha : 0 ≤ a) {w w' : K} (hw : lastPrice (take a L) = some w)
    (hw' : lastPrice (take b (leave a L)) = some w') : w' = w ∨ r w w' := by
  induction L generalizing a with
  | nil => cases hw
  | cons l L ih =>
    obtain ⟨p, x⟩ := l
    have hx : 0 < x := h.head
    obtain ⟨hhead, htail⟩ := List.pairwise_cons.mp hr
    obtain ⟨t, ht, rfl⟩ := lastPrice_mem hw'
    obtain ⟨m, hm, hmt⟩ := price_of_take ht
    by_cases hax : a < x
    · have hpos : 0 < a := by
        refine ha.lt_of_ne fun h0 => ?_
        rw [← h0, take_of_nonpos le_rfl] at hw
        cases hw
      rw [take_cons_lt hpos hax] at hw
      obtain rfl : p = w := by simpa [lastPrice] using hw
      rw [leave_cons_lt hax] at hm
      rw [← hmt]
      rcases List.mem_cons.mp hm with rfl | hm
      · exact .inl rfl
      · exact .inr (hhead m hm)
    · have hax := not_lt.mp hax
      rw [take_cons_ge hx hax, lastPrice_cons] at hw
      rw [leave_cons_ge hax] at hm hw'
      cases hlast : lastPrice (take (a - x) L) with
      | some v =>
        rw [hlast] at hw
        obtain rfl : v = w := by simpa using hw
        exact ih htail h.tail (by linarith) hlast hw'
      | none =>
        rw [hlast] at hw
        obtain rfl : p = w := by simpa using hw
        obtain ⟨n, hn, hnm⟩ := price_of_leave hm
        rw [← hmt, ← hnm]
        exact .inr (hhead n hn)

end Lib
end PerpCarry
