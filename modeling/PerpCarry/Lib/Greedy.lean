import Mathlib.Order.Bounds.Basic
import PerpCarry.Lib.Ladder

/-!
# Lib.Greedy

What greedy consumption of a ladder is best at.

`Within T L`: the fills `T` take at no level of `L` more than it holds. `f` weighs a price, and the
levels of `L` stand in the order of their weights.

* `take_within`, `leave_within`: what an order takes, and what it leaves.
* `Within.value_le`: greedy consumption costs no more than any other fills of that size.
* `Within.leave`: a ladder that holds more at every price still does after a smaller order.
* `length_take_least`: it touches no more levels than it needs.
* `average_mono`: a larger order trades at no better an average.
* `Within.average_le`: nor does one that takes from a ladder that holds less at every price.
-/

namespace PerpCarry
namespace Lib

variable {K : Type*} [CommRing K] {f : K → K} {T L M : List (K × K)} {p x q a b c : K}

theorem depth_eq_value (T : List (K × K)) : depth T = value (fun _ => 1) T := by
  simp [depth, value]

theorem value_const (c : K) (T : List (K × K)) : value (fun _ => c) T = c * depth T := by
  induction T with
  | nil => simp
  | cons t T ih =>
    simp only [value_cons, depth_cons, ih]
    ring

theorem value_neg (T : List (K × K)) : value (fun p => -f p) T = -value f T := by
  induction T with
  | nil => simp
  | cons t T ih =>
    simp only [value_cons, ih]
    ring

variable [LinearOrder K]

/-! ## Fills of a ladder -/

inductive Within : List (K × K) → List (K × K) → Prop
  | nil : Within [] []
  | skip {T L : List (K × K)} (l : K × K) : Within T L → Within T (l :: L)
  | part {T L : List (K × K)} (p : K) {x y : K} : 0 ≤ x → x ≤ y → Within T L →
      Within ((p, x) :: T) ((p, y) :: L)

theorem within_nil (L : List (K × K)) : Within [] L := by
  induction L with
  | nil => exact .nil
  | cons l L ih => exact .skip l ih

theorem Within.mem (h : Within T L) {t : K × K} (ht : t ∈ T) :
    0 ≤ t.2 ∧ ∃ l ∈ L, l.1 = t.1 ∧ t.2 ≤ l.2 := by
  induction h with
  | nil => cases ht
  | skip l _ ih =>
    obtain ⟨h0, m, hm, hrest⟩ := ih ht
    exact ⟨h0, m, List.mem_cons_of_mem _ hm, hrest⟩
  | part p h0 hle _ ih =>
    rcases List.mem_cons.mp ht with rfl | ht
    · exact ⟨h0, _, List.mem_cons_self, rfl, hle⟩
    · obtain ⟨h0, m, hm, hrest⟩ := ih ht
      exact ⟨h0, m, List.mem_cons_of_mem _ hm, hrest⟩

theorem Within.trans (hTM : Within T M) (hML : Within M L) : Within T L := by
  induction hML generalizing T with
  | nil => exact hTM
  | skip l _ ih => exact .skip l (ih hTM)
  | part p h0 hle _ ih =>
    cases hTM with
    | skip _ hTM => exact .skip _ (ih hTM)
    | part _ h0' hle' hTM => exact .part p h0' (hle'.trans hle) (ih hTM)

/-- Fills at prices of a ladder that stands in an order are fills of that ladder. -/
theorem Within.of_mem {r : K → K → Prop} (hr : Std.Irrefl r)
    (hL : L.Pairwise fun l m => r l.1 m.1) (hT : T.Pairwise fun l m => r l.1 m.1)
    (hmem : ∀ t ∈ T, 0 ≤ t.2 ∧ ∃ l ∈ L, l.1 = t.1 ∧ t.2 ≤ l.2) (hasym : ∀ a b, r a b → ¬ r b a) :
    Within T L := by
  induction L generalizing T with
  | nil =>
    cases T with
    | nil => exact .nil
    | cons t T =>
      obtain ⟨_, _, hl, _⟩ := hmem t List.mem_cons_self
      cases hl
  | cons l L ih =>
    obtain ⟨hhead, htail⟩ := List.pairwise_cons.mp hL
    cases T with
    | nil => exact within_nil _
    | cons t T =>
      obtain ⟨hthead, httail⟩ := List.pairwise_cons.mp hT
      obtain ⟨h0, m, hm, hp, hle⟩ := hmem t List.mem_cons_self
      -- the later fills stand behind `t`, so none of them is at the price of `l`
      have hbehind : ∀ u ∈ T, 0 ≤ u.2 ∧ ∃ m ∈ L, m.1 = u.1 ∧ u.2 ≤ m.2 := by
        intro u hu
        obtain ⟨hu0, n, hn, hnp, hnle⟩ := hmem u (List.mem_cons_of_mem _ hu)
        rcases List.mem_cons.mp hn with rfl | hn
        · have htu := hthead u hu
          rw [← hnp, ← hp] at htu
          rcases List.mem_cons.mp hm with rfl | hm
          · exact absurd htu (hr.irrefl _)
          · exact absurd htu (hasym _ _ (hhead m hm))
        · exact ⟨hu0, n, hn, hnp, hnle⟩
      rcases List.mem_cons.mp hm with rfl | hm
      · obtain ⟨p, x⟩ := t
        obtain ⟨p', y⟩ := m
        obtain rfl : p' = p := hp
        exact .part p' h0 hle (ih htail httail hbehind)
      · refine .skip l (ih htail hT ?_)
        intro u hu
        rcases List.mem_cons.mp hu with rfl | hu
        · exact ⟨h0, m, hm, hp, hle⟩
        · exact hbehind u hu

theorem take_within (h : Stocked L) (q : K) : Within (take q L) L := by
  induction L generalizing q with
  | nil => exact .nil
  | cons l L ih =>
    obtain ⟨p, x⟩ := l
    simp only [take]
    split
    · rename_i hq
      exact .part p (le_min hq.le h.head.le) (min_le_right q x) (ih h.tail _)
    · exact within_nil _

/-- A first level that holds the whole order. -/
theorem value_take_lt (hq : 0 ≤ q) (hqx : q < x) : value f (take q ((p, x) :: L)) = f p * q := by
  rcases hq.eq_or_lt with rfl | hq
  · rw [take_of_nonpos le_rfl, value_nil, mul_zero]
  · rw [take_cons_lt hq hqx, value_cons, value_nil, add_zero]

/-- The last level touched is the last of so many levels of the ladder. -/
theorem lastPrice_take (h : Stocked L) (q : K) :
    lastPrice (take q L) = lastPrice (L.take (take q L).length) := by
  induction L generalizing q with
  | nil => rfl
  | cons l L ih =>
    obtain ⟨p, x⟩ := l
    simp only [take]
    split
    · rw [List.length_cons, List.take_succ_cons, lastPrice_cons, lastPrice_cons, ih h.tail]
    · rfl

/-! ## What is held at a price -/

def held (p : K) (L : List (K × K)) : K := value (fun r => if r = p then 1 else 0) L

theorem held_eq_zero (h : ∀ l ∈ L, l.1 ≠ p) : held p L = 0 := by
  induction L with
  | nil => rfl
  | cons l L ih =>
    have := ih fun m hm => h m (List.mem_cons_of_mem _ hm)
    unfold held at this ⊢
    rw [value_cons, if_neg (h l List.mem_cons_self), this]
    ring

theorem held_of_mem (h : L.Pairwise fun l m => l.1 ≠ m.1) (hmem : (p, x) ∈ L) : held p L = x := by
  induction L with
  | nil => cases hmem
  | cons l L ih =>
    obtain ⟨hhead, htail⟩ := List.pairwise_cons.mp h
    rcases List.mem_cons.mp hmem with rfl | hmem
    · have := held_eq_zero (p := p) (L := L) fun m hm => (hhead m hm).symm
      unfold held at this ⊢
      rw [value_cons, if_pos rfl, this]
      ring
    · have := ih htail hmem
      unfold held at this ⊢
      rw [value_cons, if_neg (hhead _ hmem), this]
      ring

variable [IsStrictOrderedRing K]

theorem value_mono {g : K → K} (h : ∀ t ∈ T, 0 ≤ t.2 ∧ g t.1 ≤ f t.1) : value g T ≤ value f T := by
  induction T with
  | nil => exact le_rfl
  | cons t T ih =>
    obtain ⟨h0, hle⟩ := h t List.mem_cons_self
    simp only [value_cons]
    exact add_le_add (mul_le_mul_of_nonneg_right hle h0)
      (ih fun u hu => h u (List.mem_cons_of_mem _ hu))

theorem leave_within (h : Stocked L) (hq : 0 ≤ q) : Within (leave q L) L := by
  induction L generalizing q with
  | nil => exact .nil
  | cons l L ih =>
    obtain ⟨p, x⟩ := l
    by_cases hqx : q < x
    · rw [leave_cons_lt hqx]
      refine .part p (by linarith) (by linarith) ?_
      have hrefl := ih h.tail le_rfl
      rwa [leave_zero h.tail] at hrefl
    · rw [leave_cons_ge (not_lt.mp hqx)]
      exact .skip _ (ih h.tail (by linarith))

theorem Within.depth_le (h : Within T L) (hL : Stocked L) : depth T ≤ depth L := by
  induction h with
  | nil => exact le_rfl
  | skip l _ ih =>
    rw [depth_cons]
    have := ih hL.tail
    have := hL.head
    linarith
  | part p h0 hle _ ih =>
    rw [depth_cons, depth_cons]
    exact add_le_add hle (ih hL.tail)

theorem Within.depth_nonneg (h : Within T L) : 0 ≤ depth T := by
  induction h with
  | nil => exact le_rfl
  | skip l _ ih => exact ih
  | part p h0 hle _ ih =>
    rw [depth_cons]
    exact add_nonneg h0 ih

theorem depth_take (h : Stocked L) (hq : 0 ≤ q) : depth (take q L) = min q (depth L) := by
  rw [depth_eq_value, value_one h hq]

/-- An order larger than the depth takes the whole ladder. -/
theorem take_min (h : Stocked L) (hq : 0 ≤ q) : take (min q (depth L)) L = take q L := by
  induction L generalizing q with
  | nil => rfl
  | cons l L ih =>
    obtain ⟨p, x⟩ := l
    have hx : 0 < x := h.head
    have hD : depth ((p, x) :: L) = x + depth L := depth_cons _ _
    have := depth_nonneg h.tail
    rcases le_or_gt q (depth ((p, x) :: L)) with hle | hlt
    · rw [min_eq_left hle]
    · have hqx : x ≤ q := by linarith
      have hmin : min (q - x) (depth L) = depth L := min_eq_right (by linarith)
      rw [min_eq_right hlt.le, hD, take_cons_ge hx (by linarith), take_cons_ge hx hqx,
        add_sub_cancel_left, ← ih h.tail (sub_nonneg.mpr hqx), hmin]

theorem value_take_leave (h : Stocked L) (hq : 0 ≤ q) :
    value f (take q L) + value f (leave q L) = value f L := by
  induction L generalizing q with
  | nil => simp
  | cons l L ih =>
    obtain ⟨p, x⟩ := l
    by_cases hqx : q < x
    · rw [value_take_lt hq hqx, leave_cons_lt hqx, value_cons, value_cons]
      ring
    · have hqx := not_lt.mp hqx
      have := ih h.tail (sub_nonneg.mpr hqx)
      rw [take_cons_ge h.head hqx, leave_cons_ge hqx, value_cons, value_cons, add_assoc, this]

/-- Fills at a cost above that of the cheapest price throughout. -/
theorem value_strict (h : ∀ t ∈ T, 0 ≤ t.2 ∧ c ≤ f t.1) {t : K × K} (ht : t ∈ T) (hpos : 0 < t.2)
    (hlt : c < f t.1) : c * depth T < value f T := by
  induction T with
  | nil => cases ht
  | cons u T ih =>
    obtain ⟨h0, hle⟩ := h u List.mem_cons_self
    have hrest := fun v hv => h v (List.mem_cons_of_mem _ hv)
    rw [depth_cons, value_cons, mul_add]
    rcases List.mem_cons.mp ht with rfl | ht
    · have hfirst := mul_lt_mul_of_pos_right hlt hpos
      have hlater : c * depth T ≤ value f T := by
        rw [← value_const]
        exact value_mono hrest
      linarith
    · have hfirst := mul_le_mul_of_nonneg_right hle h0
      have := ih hrest ht
      linarith

theorem held_take_leave (h : Stocked L) (hq : 0 ≤ q) (p : K) :
    held p (take q L) + held p (leave q L) = held p L :=
  value_take_leave h hq

theorem Within.held_le (h : Within T L) (hL : Stocked L) (p : K) : held p T ≤ held p L := by
  unfold held
  induction h with
  | nil => exact le_rfl
  | @skip T L l _ ih =>
    rw [value_cons]
    have := ih hL.tail
    have hl : 0 ≤ (if l.1 = p then 1 else 0) * l.2 := by
      split
      · simpa using hL.head.le
      · simp
    linarith
  | part p' h0 hle _ ih =>
    rw [value_cons, value_cons]
    refine add_le_add ?_ (ih hL.tail)
    split
    · simpa using hle
    · simp

theorem held_nonneg (h : ∀ t ∈ T, 0 ≤ t.2) (p : K) : 0 ≤ held p T := by
  have := value_mono (f := fun r => if r = p then 1 else 0) (g := fun _ => 0) (T := T) fun t ht =>
    ⟨h t ht, by split <;> simp⟩
  rwa [value_const, zero_mul] at this

/-! ## Averages -/

/-- Some weight lies between those of what an order takes and of what it leaves. -/
theorem pivot (h : Stocked L) (hf : L.Pairwise fun l m => f l.1 ≤ f m.1) (hq : 0 < q) :
    ∃ c, (∀ t ∈ take q L, f t.1 ≤ c) ∧ ∀ l ∈ leave q L, c ≤ f l.1 := by
  induction L generalizing q with
  | nil => exact ⟨0, nofun, nofun⟩
  | cons l L ih =>
    obtain ⟨p, x⟩ := l
    have hx : 0 < x := h.head
    obtain ⟨hhead, htail⟩ := List.pairwise_cons.mp hf
    by_cases hqx : q < x
    · refine ⟨f p, ?_, ?_⟩
      · simp [take_cons_lt hq hqx]
      · rw [leave_cons_lt hqx]
        intro m hm
        rcases List.mem_cons.mp hm with rfl | hm
        · exact le_rfl
        · exact hhead m hm
    · have hqx := not_lt.mp hqx
      rw [leave_cons_ge hqx, take_cons_ge hx hqx]
      rcases hqx.eq_or_lt with rfl | hlt
      · rw [sub_self, take_of_nonpos le_rfl, leave_zero h.tail]
        exact ⟨f p, by simp, hhead⟩
      · have hmore : 0 < q - x := sub_pos.mpr hlt
        obtain ⟨c, hle, hge⟩ := ih h.tail htail hmore
        cases L with
        | nil => exact ⟨f p, by simp, nofun⟩
        | cons m L =>
          refine ⟨c, ?_, hge⟩
          intro u hu
          rcases List.mem_cons.mp hu with rfl | hu
          · have hm : (m.1, min (q - x) m.2) ∈ take (q - x) (m :: L) := by simp [take, hmore]
            exact (hhead m List.mem_cons_self).trans (hle (m.1, min (q - x) m.2) hm)
          · exact hle u hu

/-- What an order pays on average is at most what a larger one does. -/
theorem average_mono (h : Stocked L) (hf : L.Pairwise fun l m => f l.1 ≤ f m.1) {q Q : K}
    (hq : 0 < q) (hqQ : q ≤ Q) :
    value f (take q L) * depth (take Q L) ≤ value f (take Q L) * depth (take q L) := by
  obtain ⟨d, hd, rfl⟩ : ∃ d, 0 ≤ d ∧ Q = q + d := ⟨Q - q, by linarith, by ring⟩
  obtain ⟨c, hle, hge⟩ := pivot h hf hq
  have hleft := leave_stocked h q
  rw [depth_eq_value (take (q + d) L), value_add f h hq.le hd, value_add _ h hq.le hd,
    ← depth_eq_value, ← depth_eq_value]
  have hfirst : value f (take q L) ≤ c * depth (take q L) := by
    rw [← value_const]
    exact value_mono fun t ht => ⟨((take_within h q).mem ht).1, hle t ht⟩
  have hlater : c * depth (take d (leave q L)) ≤ value f (take d (leave q L)) := by
    rw [← value_const]
    refine value_mono fun t ht => ?_
    obtain ⟨h0, l, hl, hp, _⟩ := (take_within hleft d).mem ht
    exact ⟨h0, hp ▸ hge l hl⟩
  have hF := (take_within h q).depth_nonneg
  have hG := (take_within hleft d).depth_nonneg
  have := mul_le_mul_of_nonneg_right hfirst hG
  have := mul_le_mul_of_nonneg_right hlater hF
  linarith [mul_comm (depth (take q L)) (depth (take d (leave q L)))]

/-! ## The cheapest fills -/

/-- The later part of an order costs at least the lowest weight of the ladder. -/
theorem value_later (h : Stocked L) (ha : 0 ≤ a) (hb : 0 ≤ b) (hdepth : a + b ≤ depth L)
    (hc : ∀ l ∈ L, c ≤ f l.1) : value f (take a L) + c * b ≤ value f (take (a + b) L) := by
  have hleft := depth_take (leave_stocked h a) hb
  rw [depth_leave h ha, min_eq_left (by linarith : a ≤ depth L), min_eq_left (by linarith)] at hleft
  have hlow : c * depth (take b (leave a L)) ≤ value f (take b (leave a L)) := by
    rw [← value_const]
    refine value_mono fun t ht => ?_
    obtain ⟨h0, l, hl, hp, _⟩ := ((take_within (leave_stocked h a) b).trans
      (leave_within h ha)).mem ht
    exact ⟨h0, hp ▸ hc l hl⟩
  rw [hleft] at hlow
  rw [value_add f h ha hb]
  linarith

theorem Within.mul_depth_le {c : K} (h : Within T L) (hc : ∀ l ∈ L, c ≤ f l.1) :
    c * depth T ≤ value f T := by
  rw [← value_const]
  refine value_mono fun t ht => ?_
  obtain ⟨h0, l, hl, hp, _⟩ := h.mem ht
  exact ⟨h0, hp ▸ hc l hl⟩

theorem Within.value_le (h : Within T L) (hL : Stocked L)
    (hf : L.Pairwise fun l m => f l.1 ≤ f m.1) : value f (take (depth T) L) ≤ value f T := by
  induction h with
  | nil => exact le_rfl
  | @skip T L l h ih =>
    obtain ⟨p, y⟩ := l
    obtain ⟨hhead, htail⟩ := List.pairwise_cons.mp hf
    have hs := h.depth_nonneg
    have hdepth := h.depth_le hL.tail
    have hy : 0 < y := hL.head
    by_cases hsy : depth T < y
    · rw [value_take_lt hs hsy]
      exact h.mul_depth_le hhead
    · have hsy := not_lt.mp hsy
      have hlater := value_later hL.tail (sub_nonneg.mpr hsy) hy.le (by linarith) hhead
      rw [sub_add_cancel] at hlater
      rw [take_cons_ge hy hsy, value_cons]
      have := ih hL.tail htail
      linarith
  | @part T L p x y h0 hle h ih =>
    obtain ⟨hhead, htail⟩ := List.pairwise_cons.mp hf
    have hs := h.depth_nonneg
    have hdepth := h.depth_le hL.tail
    have hy : 0 < y := hL.head
    rw [depth_cons, value_cons]
    show value f (take (x + depth T) ((p, y) :: L)) ≤ f p * x + value f T
    by_cases hsy : x + depth T < y
    · rw [value_take_lt (by linarith) hsy]
      have := h.mul_depth_le hhead
      linarith
    · have hsy := not_lt.mp hsy
      have hlater := value_later hL.tail (sub_nonneg.mpr hsy) (sub_nonneg.mpr hle) (by linarith)
        hhead
      rw [show x + depth T - y + (y - x) = depth T by ring] at hlater
      rw [take_cons_ge hy hsy, value_cons]
      have := ih hL.tail htail
      show f p * y + _ ≤ _
      linarith

/-- What a smaller order pays on a deeper ladder, against the fills `T` of a larger one. -/
theorem Within.average_le (h : Within T L) (hL : Stocked L)
    (hf : L.Pairwise fun l m => f l.1 ≤ f m.1) (hq : 0 < q) (hqT : q ≤ depth T) :
    value f (take q L) * depth T ≤ value f T * q := by
  have hdepth := h.depth_le hL
  have hmono := average_mono hL hf hq hqT
  rw [depth_take hL (hq.le.trans hqT), depth_take hL hq.le, min_eq_left hdepth,
    min_eq_left (hqT.trans hdepth)] at hmono
  exact hmono.trans (mul_le_mul_of_nonneg_right (h.value_le hL hf) hq.le)

/-! ## The ladder left behind -/

theorem Within.leave (h : Within M L) (hM : Stocked M) (hL : Stocked L) {q Q : K} (hq : 0 ≤ q)
    (hqQ : q ≤ Q) : Within (leave Q M) (leave q L) := by
  induction h generalizing q Q with
  | nil => exact .nil
  | @skip M L l h ih =>
    obtain ⟨p, y⟩ := l
    by_cases hqy : q < y
    · rw [leave_cons_lt hqy]
      exact .skip _ ((leave_within hM (by linarith)).trans h)
    · have hy : 0 < y := hL.head
      rw [leave_cons_ge (not_lt.mp hqy)]
      exact ih hM hL.tail (by linarith) (by linarith)
  | @part M L p x y h0 hle h ih =>
    have hx : 0 < x := hM.head
    by_cases hQx : Q < x
    · rw [leave_cons_lt hQx, leave_cons_lt (by linarith)]
      exact .part p (by linarith) (by linarith) h
    · have hQx := not_lt.mp hQx
      rw [leave_cons_ge hQx]
      by_cases hqy : q < y
      · rw [leave_cons_lt hqy]
        exact .skip _ ((leave_within hM.tail (by linarith)).trans h)
      · rw [leave_cons_ge (not_lt.mp hqy)]
        exact ih hM.tail hL.tail (by linarith) (by linarith)

/-! ## The levels touched -/

theorem depth_take_mono (h : Stocked L) {n m : Nat} (hnm : n ≤ m) :
    depth (L.take n) ≤ depth (L.take m) := by
  induction L generalizing n m with
  | nil => simp
  | cons l L ih =>
    have hx : 0 < l.2 := h.head
    cases n with
    | zero => exact depth_nonneg fun l' hl' => h l' (List.mem_of_mem_take hl')
    | succ n =>
      cases m with
      | zero => omega
      | succ m =>
        simp only [List.take_succ_cons, depth_cons]
        exact add_le_add_right (ih h.tail (by omega)) l.2

theorem length_take_least (h : Stocked L) (hq : 0 ≤ q) :
    IsLeast {n : Nat | min q (depth L) ≤ depth (L.take n)} (take q L).length := by
  induction L generalizing q with
  | nil => exact ⟨by simp [hq], fun n _ => Nat.zero_le n⟩
  | cons l L ih =>
    obtain ⟨p, x⟩ := l
    have hx : 0 < x := h.head
    have hD := depth_nonneg h.tail
    rcases hq.eq_or_lt with rfl | hpos
    · rw [take_of_nonpos le_rfl]
      exact ⟨by simp, fun n _ => Nat.zero_le n⟩
    · have hfilled : 0 < min q (depth ((p, x) :: L)) := by
        refine lt_min hpos ?_
        rw [depth_cons]
        exact add_pos_of_pos_of_nonneg hx hD
      by_cases hqx : q < x
      · rw [take_cons_lt hpos hqx]
        constructor
        · simp only [List.length_singleton, List.take_succ_cons, List.take_zero, Set.mem_ofPred_eq,
            depth_cons, depth_nil, add_zero]
          exact (min_le_left _ _).trans hqx.le
        · intro n hn
          cases n with
          | zero =>
            simp only [List.take_zero, depth_nil, Set.mem_ofPred_eq] at hn
            exact absurd hn (not_le.mpr hfilled)
          | succ n => simp
      · have hqx := not_lt.mp hqx
        have hmin : min q (depth ((p, x) :: L)) = x + min (q - x) (depth L) := by
          rw [← min_add_add_left, add_sub_cancel, depth_cons]
        obtain ⟨hmem, hleast⟩ := ih h.tail (sub_nonneg.mpr hqx)
        rw [take_cons_ge hx hqx]
        constructor
        · show min q _ ≤ depth (List.take (_ + 1) _)
          rw [hmin, List.take_succ_cons, depth_cons]
          have : min (q - x) (depth L) ≤ depth (L.take (take (q - x) L).length) := hmem
          show x + _ ≤ x + _
          linarith
        · intro n hn
          cases n with
          | zero =>
            simp only [List.take_zero, depth_nil, Set.mem_ofPred_eq] at hn
            exact absurd hn (not_le.mpr hfilled)
          | succ n =>
            have hn : min q (depth ((p, x) :: L)) ≤ depth (((p, x) :: L).take (n + 1)) := hn
            rw [hmin, List.take_succ_cons, depth_cons] at hn
            have : (take (q - x) L).length ≤ n := by
              refine hleast ?_
              show _ ≤ _
              have hn : x + min (q - x) (depth L) ≤ x + depth (L.take n) := hn
              linarith
            simp only [List.length_cons]
            omega

end Lib
end PerpCarry
