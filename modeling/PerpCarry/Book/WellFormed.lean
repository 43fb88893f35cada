import PerpCarry.Book.OrderBook
import PerpCarry.Lib.SortedList

/-!
# Book.WellFormed

The invariant of the order book and what one `apply` does under it.

* `WellFormed`: every stored level has a finite positive price and quantity, and each side is
  strictly ordered best first. The order is what makes the binary search of `apply` valid.
* `apply_ok`: on a well-formed book an accepted call removes the level at `price`, stores
  `(price, quantity)` when the quantity is not zero, touches nothing else and re-establishes the
  invariant.
* `apply_rejected`: a rejected call leaves the book as it was.
-/

namespace PerpCarry
namespace Book

open Lib

/-- `isBetter` on the numbers that finite prices denote. -/
def Better : Side → ℚ → ℚ → Prop
  | .bid => fun a b => b < a
  | .ask => fun a b => a < b

instance (side : Side) : IsStrictTotalOrder ℚ (Better side) := by
  cases side
  · exact inferInstanceAs (IsStrictTotalOrder ℚ (· > ·))
  · exact inferInstanceAs (IsStrictTotalOrder ℚ (· < ·))

theorem isBetter_finite (side : Side) (a b : ℚ) :
    isBetter side (.finite a) (.finite b) = true ↔ Better side a b := by
  cases side <;> simp [isBetter, Better]

/-- The calls `OrderBook::apply` accepts. -/
structure Acceptable (price quantity : Double) : Prop where
  price_finite : price.isFinite = true
  price_pos : 0 < price.value
  quantity_finite : quantity.isFinite = true
  quantity_nonneg : 0 ≤ quantity.value

instance (price quantity : Double) : Decidable (Acceptable price quantity) :=
  decidable_of_iff (price.isFinite = true ∧ 0 < price.value ∧ quantity.isFinite = true ∧
      0 ≤ quantity.value)
    ⟨fun ⟨a, b, c, d⟩ => ⟨a, b, c, d⟩, fun ⟨a, b, c, d⟩ => ⟨a, b, c, d⟩⟩

theorem Acceptable.exists {price quantity : Double} (h : Acceptable price quantity) :
    ∃ p q : ℚ, price = .finite p ∧ quantity = .finite q ∧ 0 < p ∧ 0 ≤ q := by
  obtain ⟨p, rfl⟩ := Double.isFinite_iff.mp h.price_finite
  obtain ⟨q, rfl⟩ := Double.isFinite_iff.mp h.quantity_finite
  exact ⟨p, q, rfl, rfl, h.price_pos, h.quantity_nonneg⟩

theorem validate_ok_iff {price quantity : Double} :
    validate price quantity = .ok () ↔ Acceptable price quantity := by
  constructor
  · intro h
    simp only [validate] at h
    split at h
    · cases h
    · rename_i hp
      split at h
      · cases h
      · rename_i hq
        cases price with
        | finite p =>
          cases quantity with
          | finite q =>
            simp [Double.zero] at hp hq
            exact ⟨rfl, hp, rfl, hq⟩
          | infinity s => simp [Double.isFinite] at hq
          | nan => simp [Double.isFinite] at hq
        | infinity s => simp [Double.isFinite] at hp
        | nan => simp [Double.isFinite] at hp
  · intro h
    obtain ⟨p, q, rfl, rfl, hp, hq⟩ := h.exists
    simp [validate, Double.zero, not_le.mpr hp, not_lt.mpr hq]

end Book

/-- A level that may stand in a book. -/
structure Level.Valid (l : Level) : Prop where
  price_finite : l.price.isFinite = true
  price_pos : 0 < l.price.value
  quantity_finite : l.quantity.isFinite = true
  quantity_pos : 0 < l.quantity.value

theorem Level.Valid.exists {l : Level} (h : l.Valid) :
    ∃ p q : ℚ, l = ⟨.finite p, .finite q⟩ ∧ 0 < p ∧ 0 < q := by
  obtain ⟨p, hp⟩ := Double.isFinite_iff.mp h.price_finite
  obtain ⟨q, hq⟩ := Double.isFinite_iff.mp h.quantity_finite
  have := h.price_pos
  have := h.quantity_pos
  obtain ⟨price, quantity⟩ := l
  simp only at hp hq
  subst hp hq
  exact ⟨p, q, rfl, ‹_›, ‹_›⟩

namespace OrderBook

open Lib Book

/-- What a side is ordered by. -/
def priceKey (l : Level) : ℚ := l.price.value

structure WellFormed (book : OrderBook) : Prop where
  valid : ∀ side, ∀ l ∈ book.levels side, l.Valid
  sorted : ∀ side, SortedBy (Better side) priceKey (book.levels side)

theorem wellFormed_empty : WellFormed {} where
  valid := by intro side l hl; cases side <;> cases hl
  sorted := by intro side; cases side <;> exact SortedBy.nil

theorem wellFormed_clear (book : OrderBook) : book.clear.WellFormed := wellFormed_empty

variable {book : OrderBook} {side : Side} {price quantity : Double}

theorem WellFormed.price_eq_iff (h : book.WellFormed) {l : Level} (hl : l ∈ book.levels side)
    (hp : price.isFinite = true) : priceKey l = price.value ↔ l.price = price := by
  obtain ⟨p, hp⟩ := Double.isFinite_iff.mp hp
  obtain ⟨a, b, rfl, _, _⟩ := (h.valid side l hl).exists
  subst hp
  simp [priceKey]

/-- Where the search of `apply` ends, and whether it found the level. -/
theorem WellFormed.position (h : book.WellFormed) (hp : price.isFinite = true) :
    ∃ pre post, position side (book.levels side) price = pre.length ∧
      Gap (Better side) priceKey price.value pre post ∧
      ((∃ b, b.price = price ∧ book.levels side = pre ++ b :: post ∧
          found (book.levels side) pre.length price = true) ∨
        book.levels side = pre ++ post ∧ found (book.levels side) pre.length price = false) := by
  have hsearch : ∀ l ∈ book.levels side,
      isBetter side l.price price = true ↔ Better side (priceKey l) price.value := by
    intro l hl
    obtain ⟨p, rfl⟩ := Double.isFinite_iff.mp hp
    obtain ⟨a, b, rfl, _, _⟩ := (h.valid side l hl).exists
    exact isBetter_finite side a p
  obtain ⟨pre, post, hpos, hgap, hcase⟩ := (h.sorted side).find hsearch
  refine ⟨pre, post, hpos, hgap, ?_⟩
  rcases hcase with ⟨b, hb, heq⟩ | heq
  · have hmem : b ∈ book.levels side := by rw [heq]; simp
    have hprice := (h.price_eq_iff hmem hp).mp hb
    refine .inl ⟨b, hprice, heq, ?_⟩
    have := (Double.eq_iff (h.valid side b hmem).price_finite price).mpr hprice
    simpa [found, heq] using this
  · refine .inr ⟨heq, ?_⟩
    cases post with
    | nil => simp [found, heq]
    | cons c cs =>
      have hmem : c ∈ book.levels side := by rw [heq]; simp
      have hne := hgap.key_ne (y := c) (by simp)
      have : ¬ c.price.eq price = true := by
        rw [Double.eq_iff (h.valid side c hmem).price_finite, ← h.price_eq_iff hmem hp]
        exact hne
      simpa [found, heq] using this

/-- What `apply` leaves at `price`. -/
def entry (price quantity : Double) : List Level :=
  if quantity = .zero then [] else [⟨price, quantity⟩]

/-- An accepted call puts its entry into the gap of its price, in each of the four branches. -/
theorem apply_eq (h : book.WellFormed) (ha : Acceptable price quantity) :
    ∃ pre post, Gap (Better side) priceKey price.value pre post ∧
      ((∃ b, b.price = price ∧ book.levels side = pre ++ b :: post) ∨
        book.levels side = pre ++ post) ∧
      book.apply side price quantity =
        .ok () (book.setLevels side (pre ++ entry price quantity ++ post)) := by
  obtain ⟨pre, post, hpos, hgap, hcase⟩ := h.position ha.price_finite
  have hzero := Double.eq_iff ha.quantity_finite .zero
  refine ⟨pre, post, hgap, ?_, ?_⟩
  · rcases hcase with ⟨b, hb, heq, _⟩ | ⟨heq, _⟩
    · exact .inl ⟨b, hb, heq⟩
    · exact .inr heq
  · simp only [apply, validate_ok_iff.mpr ha, hpos]
    by_cases hq : quantity = .zero
    · rw [if_pos (hzero.mpr hq), entry, if_pos hq, List.append_nil]
      rcases hcase with ⟨b, _, heq, hfound⟩ | ⟨heq, hfound⟩
      · rw [if_pos hfound, heq, List.eraseIdx_append_of_length_le (Nat.le_refl _), Nat.sub_self]
        rfl
      · rw [if_neg (by rw [hfound]; simp), ← heq, setLevels_levels]
    · rw [if_neg (mt hzero.mp hq), entry, if_neg hq, List.append_assoc]
      rcases hcase with ⟨b, hb, heq, hfound⟩ | ⟨heq, hfound⟩
      · rw [if_pos hfound, heq, List.modify_eq_take_drop]
        subst hb
        simp
      · rw [if_neg (by rw [hfound]; simp), heq, insertIdx_at_append]
        rfl

/-- An accepted call at the price of a level replaces that level. -/
theorem apply_at (h : book.WellFormed) {l : Level} {front back : List Level}
    (hl : book.levels side = front ++ l :: back) (ha : Acceptable l.price quantity) :
    book.apply side l.price quantity =
      .ok () (book.setLevels side (front ++ entry l.price quantity ++ back)) := by
  obtain ⟨pre, post, hgap, hcase, happly⟩ := apply_eq h ha
  have hkey : (∃ b, priceKey b = l.price.value ∧ book.levels side = pre ++ b :: post) ∨
      book.levels side = pre ++ post := by
    refine hcase.imp_left ?_
    rintro ⟨b, hb, heq⟩
    exact ⟨b, congrArg Double.value hb, heq⟩
  obtain ⟨rfl, rfl⟩ := hgap.split hkey rfl hl
  exact happly

theorem apply_rejected (book : OrderBook) (side : Side) (h : ¬ Acceptable price quantity) :
    ∃ e, book.apply side price quantity = .error e book := by
  simp only [apply]
  cases hv : validate price quantity with
  | error e => exact ⟨e, rfl⟩
  | ok u => exact absurd (validate_ok_iff.mp hv) h

theorem apply_acceptable {book' : OrderBook}
    (h : book.apply side price quantity = .ok () book') : Acceptable price quantity := by
  by_contra hna
  obtain ⟨e, he⟩ := apply_rejected book side hna
  rw [he] at h
  cases h

theorem apply_error_inv {e : Error} {book' : OrderBook}
    (h : book.apply side price quantity = .error e book') :
    ¬ Acceptable price quantity ∧ book' = book := by
  simp only [apply] at h
  cases hv : validate price quantity with
  | error e' =>
    rw [hv] at h
    cases h
    refine ⟨fun ha => ?_, rfl⟩
    rw [validate_ok_iff.mpr ha] at hv
    cases hv
  | ok u =>
    simp only [hv] at h
    split at h <;> split at h <;> cases h

theorem apply_ok (h : book.WellFormed) (side : Side) (ha : Acceptable price quantity) :
    ∃ book', book.apply side price quantity = .ok () book' ∧ book'.WellFormed ∧
      (∀ side', side' ≠ side → book'.levels side' = book.levels side') ∧
      ∀ l, l ∈ book'.levels side ↔
        (l ∈ book.levels side ∧ l.price ≠ price) ∨ (quantity ≠ .zero ∧ l = ⟨price, quantity⟩) := by
  obtain ⟨pre, post, hgap, hcase, happly⟩ := apply_eq h ha
  have hcase' : (∃ b, priceKey b = price.value ∧ book.levels side = pre ++ b :: post) ∨
      book.levels side = pre ++ post := by
    rcases hcase with ⟨b, hb, heq⟩ | heq
    · exact .inl ⟨b, by rw [priceKey, hb], heq⟩
    · exact .inr heq
  have hmem : ∀ l, l ∈ pre ++ post ↔ l ∈ book.levels side ∧ l.price ≠ price := by
    intro l
    rw [hgap.mem_iff hcase']
    constructor
    · rintro ⟨hl, hne⟩
      exact ⟨hl, mt (h.price_eq_iff hl ha.price_finite).mpr hne⟩
    · rintro ⟨hl, hne⟩
      exact ⟨hl, mt (h.price_eq_iff hl ha.price_finite).mp hne⟩
  have hentry : ∀ l, l ∈ pre ++ entry price quantity ++ post ↔
      l ∈ pre ++ post ∨ (quantity ≠ .zero ∧ l = ⟨price, quantity⟩) := by
    intro l
    by_cases hq : quantity = .zero
    · simp [entry, hq]
    · simp only [entry, if_neg hq, List.mem_append, List.mem_singleton]
      tauto
  refine ⟨_, happly, ?_, fun side' hne => levels_setLevels_ne _ _ _ hne, ?_⟩
  · refine ⟨?_, ?_⟩
    · intro side' l hl
      by_cases hs : side' = side
      · subst hs
        rw [levels_setLevels, hentry, hmem] at hl
        rcases hl with ⟨hl, _⟩ | ⟨hq, rfl⟩
        · exact h.valid side' l hl
        · refine ⟨ha.price_finite, ha.price_pos, ha.quantity_finite, ?_⟩
          obtain ⟨_, q, _, rfl, _, hq'⟩ := ha.exists
          have : q ≠ 0 := fun hq0 => hq (by rw [hq0]; rfl)
          exact lt_of_le_of_ne hq' (Ne.symm this)
      · rw [levels_setLevels_ne _ _ _ hs] at hl
        exact h.valid side' l hl
    · intro side'
      by_cases hs : side' = side
      · subst hs
        rw [levels_setLevels]
        by_cases hq : quantity = .zero
        · simpa [entry, hq] using hgap.sorted
        · simpa [entry, hq] using hgap.sorted_insert (x := ⟨price, quantity⟩) rfl
      · rw [levels_setLevels_ne _ _ _ hs]
        exact h.sorted side'
  · intro l
    rw [levels_setLevels, hentry, hmem]

end OrderBook

end PerpCarry
