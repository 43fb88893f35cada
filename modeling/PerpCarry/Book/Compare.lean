import Mathlib.Data.List.Pairwise
import PerpCarry.Book.WellFormed

/-!
# Book.Compare

Top-N comparison of a replayed book against a reference image: `cpp/src/book_compare.cpp`.

* `compareTopN_nil_iff`: no difference is reported exactly when the two agree, level for level, down
  to `depth`.
* `mem_compareTopN`: a difference is reported exactly where the two depart from one another.
* `compareTopN_law`: one for each such rank, bids before asks, best first.
-/

namespace PerpCarry

inductive DiffKind where
  | priceMismatch
  | quantityMismatch
  | missingLevel
  | extraLevel
  deriving DecidableEq

structure LevelDiff where
  side : Side
  rank : Nat
  kind : DiffKind
  replayed : Level
  reference : Level
  deriving DecidableEq

abbrev BookDiff := List LevelDiff

def comparedRankCount (replayedLevels referenceLevels depth : Nat) : Nat :=
  min depth (max replayedLevels referenceLevels)

def noLevel : Level := ⟨.zero, .zero⟩

/-- One pass of the loop. A rank below the limit is in one of the two sides. -/
def compareRank (side : Side) (rank : Nat) : Option Level → Option Level → Option LevelDiff
  | some replayed, some reference =>
    if !replayed.price.eq reference.price then
      some ⟨side, rank, .priceMismatch, replayed, reference⟩
    else if !replayed.quantity.eq reference.quantity then
      some ⟨side, rank, .quantityMismatch, replayed, reference⟩
    else none
  | none, some reference => some ⟨side, rank, .missingLevel, noLevel, reference⟩
  | some replayed, none => some ⟨side, rank, .extraLevel, replayed, noLevel⟩
  | none, none => none

def compareSide (book : OrderBook) (side : Side) (reference : List Level) (depth : Nat) : BookDiff :=
  let replayed := book.levels side
  (List.range (comparedRankCount replayed.length reference.length depth)).filterMap fun rank =>
    compareRank side rank replayed[rank]? reference[rank]?

def compareTopN (book : OrderBook) (referenceBids referenceAsks : List Level) (depth : Nat) :
    BookDiff :=
  compareSide book .bid referenceBids depth ++ compareSide book .ask referenceAsks depth

/-! ## No difference -/

theorem compareRank_none_iff {side : Side} {rank : Nat} {replayed reference : Option Level}
    (hfinite : ∀ l, replayed = some l → l.price.isFinite = true ∧ l.quantity.isFinite = true) :
    compareRank side rank replayed reference = none ↔ replayed = reference := by
  cases replayed with
  | none => cases reference <;> simp [compareRank]
  | some l =>
    cases reference with
    | none => simp [compareRank]
    | some l' =>
      obtain ⟨hp, hq⟩ := hfinite l rfl
      obtain ⟨price, quantity⟩ := l
      obtain ⟨price', quantity'⟩ := l'
      have hprice := Double.eq_iff hp price'
      have hquantity := Double.eq_iff hq quantity'
      simp only [compareRank, Option.some.injEq, Level.mk.injEq, ← hprice, ← hquantity]
      cases price.eq price' <;> cases quantity.eq quantity' <;> simp

theorem take_eq_take_iff {α : Type} {xs ys : List α} {n : Nat} :
    xs.take n = ys.take n ↔ ∀ i < min n (max xs.length ys.length), xs[i]? = ys[i]? := by
  constructor
  · intro h i hi
    have hn : i < n := by omega
    have hget := congrArg (·[i]?) h
    simpa only [List.getElem?_take, if_pos hn] using hget
  · intro h
    refine List.ext_getElem? fun i => ?_
    simp only [List.getElem?_take]
    split
    · by_cases hi : i < max xs.length ys.length
      · exact h i (by omega)
      · rw [List.getElem?_eq_none (by omega), List.getElem?_eq_none (by omega)]
    · rfl

variable {book : OrderBook}

theorem compareSide_nil_iff (h : book.WellFormed) (side : Side) (reference : List Level)
    (depth : Nat) :
    compareSide book side reference depth = [] ↔
      (book.levels side).take depth = reference.take depth := by
  have hfinite : ∀ (rank : Nat) l, (book.levels side)[rank]? = some l →
      l.price.isFinite = true ∧ l.quantity.isFinite = true := by
    intro rank l hl
    have hvalid := h.valid side l (List.mem_of_getElem? hl)
    exact ⟨hvalid.price_finite, hvalid.quantity_finite⟩
  rw [take_eq_take_iff]
  simp only [compareSide, comparedRankCount, List.filterMap_eq_nil_iff, List.mem_range]
  constructor
  · intro hnone rank hrank
    exact (compareRank_none_iff (hfinite rank)).mp (hnone rank hrank)
  · intro heq rank hrank
    exact (compareRank_none_iff (hfinite rank)).mpr (heq rank hrank)

theorem compareTopN_nil_iff (h : book.WellFormed) (bids asks : List Level) (depth : Nat) :
    compareTopN book bids asks depth = [] ↔
      book.bids.take depth = bids.take depth ∧ book.asks.take depth = asks.take depth := by
  rw [compareTopN, List.append_eq_nil_iff, compareSide_nil_iff h, compareSide_nil_iff h]
  rfl

/-! ## The differences -/

/-- What the book and the reference hold at a rank, when they do not hold the same. -/
inductive Departs : Option Level → Option Level → DiffKind → Level → Level → Prop where
  | price {l l' : Level} : l.price ≠ l'.price → Departs (some l) (some l') .priceMismatch l l'
  | quantity {l l' : Level} : l.price = l'.price → l.quantity ≠ l'.quantity →
      Departs (some l) (some l') .quantityMismatch l l'
  | missing {l' : Level} : Departs none (some l') .missingLevel noLevel l'
  | extra {l : Level} : Departs (some l) none .extraLevel l noLevel

theorem Departs.ne {replayed reference : Option Level} {kind : DiffKind} {l l' : Level}
    (h : Departs replayed reference kind l l') : replayed ≠ reference := by
  intro heq
  cases h with
  | price hne => cases heq; exact hne rfl
  | quantity _ hne => cases heq; exact hne rfl
  | missing => cases heq
  | extra => cases heq

theorem compareRank_some_iff {side : Side} {rank : Nat} {replayed reference : Option Level}
    {d : LevelDiff}
    (hfinite : ∀ l, replayed = some l → l.price.isFinite = true ∧ l.quantity.isFinite = true) :
    compareRank side rank replayed reference = some d ↔
      d.side = side ∧ d.rank = rank ∧ Departs replayed reference d.kind d.replayed d.reference := by
  obtain ⟨side', rank', kind, l, l'⟩ := d
  cases replayed with
  | none =>
    cases reference with
    | none =>
      constructor
      · rintro ⟨⟩
      · rintro ⟨-, -, ⟨⟩⟩
    | some b =>
      constructor
      · rintro ⟨⟩
        exact ⟨rfl, rfl, .missing⟩
      · rintro ⟨rfl, rfl, ⟨⟩⟩
        rfl
  | some a =>
    cases reference with
    | none =>
      constructor
      · rintro ⟨⟩
        exact ⟨rfl, rfl, .extra⟩
      · rintro ⟨rfl, rfl, ⟨⟩⟩
        rfl
    | some b =>
      obtain ⟨hp, hq⟩ := hfinite a rfl
      have hprice := Double.eq_iff hp b.price
      have hquantity := Double.eq_iff hq b.quantity
      simp only [compareRank]
      constructor
      · intro h
        split at h
        · rename_i hne
          cases h
          exact ⟨rfl, rfl, .price fun heq => by simp [hprice.mpr heq] at hne⟩
        · rename_i heq
          split at h
          · rename_i hne
            cases h
            exact ⟨rfl, rfl, .quantity (hprice.mp (by simpa using heq))
              fun heq => by simp [hquantity.mpr heq] at hne⟩
          · cases h
      · rintro ⟨rfl, rfl, hdeparts⟩
        cases hdeparts with
        | price hne => simp [mt hprice.mp hne]
        | quantity heq hne => simp [hprice.mpr heq, mt hquantity.mp hne]

/-- Bids before asks, and by increasing rank. -/
def LevelDiff.Before (d d' : LevelDiff) : Prop :=
  (d.side = .bid ∧ d'.side = .ask) ∨ (d.side = d'.side ∧ d.rank < d'.rank)

theorem LevelDiff.Before.ne {d d' : LevelDiff} (h : d.Before d') :
    ¬ (d.side = d'.side ∧ d.rank = d'.rank) := by
  rintro ⟨hside, hrank⟩
  rcases h with ⟨hbid, hask⟩ | ⟨-, hlt⟩
  · rw [hbid, hask] at hside
    cases hside
  · omega

theorem compareSide_finite (h : book.WellFormed) (side : Side) (rank : Nat) :
    ∀ l, (book.levels side)[rank]? = some l →
      l.price.isFinite = true ∧ l.quantity.isFinite = true := by
  intro l hl
  have hvalid := h.valid side l (List.mem_of_getElem? hl)
  exact ⟨hvalid.price_finite, hvalid.quantity_finite⟩

theorem mem_compareSide (h : book.WellFormed) {side : Side} {reference : List Level} {depth : Nat}
    {d : LevelDiff} :
    d ∈ compareSide book side reference depth ↔
      d.side = side ∧ d.rank < depth ∧
        Departs (book.levels side)[d.rank]? reference[d.rank]? d.kind d.replayed d.reference := by
  simp only [compareSide, List.mem_filterMap, List.mem_range, comparedRankCount]
  constructor
  · rintro ⟨rank, hrank, hd⟩
    obtain ⟨hside, rfl, hdeparts⟩ := (compareRank_some_iff (compareSide_finite h side rank)).mp hd
    exact ⟨hside, by omega, hdeparts⟩
  · rintro ⟨hside, hdepth, hdeparts⟩
    refine ⟨d.rank, ?_, (compareRank_some_iff (compareSide_finite h side _)).mpr
      ⟨hside, rfl, hdeparts⟩⟩
    -- past both ends the two would agree
    by_contra hge
    refine hdeparts.ne ?_
    rw [List.getElem?_eq_none (by omega), List.getElem?_eq_none (by omega)]

theorem compareSide_ordered (book : OrderBook) (side : Side) (reference : List Level)
    (depth : Nat) (h : book.WellFormed) :
    (compareSide book side reference depth).Pairwise LevelDiff.Before := by
  unfold compareSide
  rw [List.pairwise_filterMap]
  refine List.pairwise_lt_range.imp ?_
  intro rank rank' hlt d hd d' hd'
  obtain ⟨hside, hrank, -⟩ := (compareRank_some_iff (compareSide_finite h side rank)).mp hd
  obtain ⟨hside', hrank', -⟩ := (compareRank_some_iff (compareSide_finite h side rank')).mp hd'
  exact .inr ⟨hside.trans hside'.symm, by rw [hrank, hrank']; exact hlt⟩

/-- The reference levels of a side, from the two lists of a call. -/
def referenceLevels (referenceBids referenceAsks : List Level) : Side → List Level
  | .bid => referenceBids
  | .ask => referenceAsks

theorem mem_compareTopN (h : book.WellFormed) {bids asks : List Level} {depth : Nat}
    {d : LevelDiff} :
    d ∈ compareTopN book bids asks depth ↔
      d.rank < depth ∧
        Departs (book.levels d.side)[d.rank]? (referenceLevels bids asks d.side)[d.rank]?
          d.kind d.replayed d.reference := by
  rw [compareTopN, List.mem_append, mem_compareSide h, mem_compareSide h]
  obtain ⟨side, rank, kind, l, l'⟩ := d
  cases side <;> simp [referenceLevels]

/-- The differences between a book and a reference down to `depth`. -/
structure DiffLaw (book : OrderBook) (bids asks : List Level) (depth : Nat) (diff : BookDiff) :
    Prop where
  empty : diff = [] ↔
    book.bids.take depth = bids.take depth ∧ book.asks.take depth = asks.take depth
  sound : ∀ d ∈ diff,
    d.rank < comparedRankCount (book.levels d.side).length
        (referenceLevels bids asks d.side).length depth ∧
      Departs (book.levels d.side)[d.rank]? (referenceLevels bids asks d.side)[d.rank]?
        d.kind d.replayed d.reference
  complete : ∀ (side : Side) (rank : Nat), rank < depth →
    (book.levels side)[rank]? ≠ (referenceLevels bids asks side)[rank]? →
      ∃! d, d ∈ diff ∧ d.side = side ∧ d.rank = rank
  ordered : diff.Pairwise LevelDiff.Before

/-- Two different levels, or a level and none, depart from one another in one way. -/
theorem Departs.exists {replayed reference : Option Level} (h : replayed ≠ reference) :
    ∃ kind l l', Departs replayed reference kind l l' := by
  cases replayed with
  | none =>
    cases reference with
    | none => exact absurd rfl h
    | some b => exact ⟨_, _, _, .missing⟩
  | some a =>
    cases reference with
    | none => exact ⟨_, _, _, .extra⟩
    | some b =>
      by_cases hprice : a.price = b.price
      · refine ⟨_, _, _, .quantity hprice ?_⟩
        intro hquantity
        obtain ⟨price, quantity⟩ := a
        simp only at hprice hquantity
        subst hprice hquantity
        exact h rfl
      · exact ⟨_, _, _, .price hprice⟩

theorem compareTopN_ordered (h : book.WellFormed) (bids asks : List Level) (depth : Nat) :
    (compareTopN book bids asks depth).Pairwise LevelDiff.Before := by
  unfold compareTopN
  rw [List.pairwise_append]
  refine ⟨compareSide_ordered _ _ _ _ h, compareSide_ordered _ _ _ _ h, ?_⟩
  intro d hd d' hd'
  exact .inl ⟨((mem_compareSide h).mp hd).1, ((mem_compareSide h).mp hd').1⟩

/-- In an ordered diff a side and a rank stand at most once. -/
theorem unique_of_ordered {diff : BookDiff} (hordered : diff.Pairwise LevelDiff.Before)
    {d d' : LevelDiff} (hd : d ∈ diff) (hd' : d' ∈ diff) (hside : d.side = d'.side)
    (hrank : d.rank = d'.rank) : d = d' := by
  by_contra hne
  have : Std.Symm fun a b : LevelDiff => ¬ (a.side = b.side ∧ a.rank = b.rank) :=
    ⟨fun a b h hkey => h ⟨hkey.1.symm, hkey.2.symm⟩⟩
  exact (hordered.imp LevelDiff.Before.ne).forall hd hd' hne ⟨hside, hrank⟩

theorem compareTopN_law (h : book.WellFormed) (bids asks : List Level) (depth : Nat) :
    DiffLaw book bids asks depth (compareTopN book bids asks depth) where
  empty := compareTopN_nil_iff h bids asks depth
  sound := by
    intro d hd
    obtain ⟨hdepth, hdeparts⟩ := (mem_compareTopN h).mp hd
    refine ⟨?_, hdeparts⟩
    unfold comparedRankCount
    by_contra hge
    refine hdeparts.ne ?_
    rw [List.getElem?_eq_none (by omega), List.getElem?_eq_none (by omega)]
  complete := by
    intro side rank hdepth hne
    obtain ⟨kind, l, l', hdeparts⟩ := Departs.exists hne
    refine ⟨⟨side, rank, kind, l, l'⟩, ⟨(mem_compareTopN h).mpr ⟨hdepth, hdeparts⟩, rfl, rfl⟩, ?_⟩
    rintro d ⟨hd, hside, hrank⟩
    exact unique_of_ordered (compareTopN_ordered h bids asks depth) hd
      ((mem_compareTopN h).mpr ⟨hdepth, hdeparts⟩) hside hrank
  ordered := compareTopN_ordered h bids asks depth

/-- A book of one bid and one ask. -/
def pairBook : OrderBook where
  bids := [⟨.finite 41, .finite 3⟩]
  asks := [⟨.finite 43, .finite 5⟩]

theorem pairBook_wellFormed : pairBook.WellFormed where
  valid := by
    intro side l hl
    cases side with
    | bid =>
      cases List.mem_singleton.mp hl
      exact ⟨rfl, by norm_num [Double.value], rfl, by norm_num [Double.value]⟩
    | ask =>
      cases List.mem_singleton.mp hl
      exact ⟨rfl, by norm_num [Double.value], rfl, by norm_num [Double.value]⟩
  sorted := by
    intro side
    cases side with
    | bid => exact List.pairwise_singleton _ _
    | ask => exact List.pairwise_singleton _ _

theorem compareTopN_law_pairBook :
    DiffLaw pairBook [] [⟨.finite 43, .finite 7⟩] 25
        (compareTopN pairBook [] [⟨.finite 43, .finite 7⟩] 25) ∧
      (compareTopN pairBook [] [⟨.finite 43, .finite 7⟩] 25).map (·.kind) =
        [.extraLevel, .quantityMismatch] :=
  ⟨compareTopN_law pairBook_wellFormed [] [⟨.finite 43, .finite 7⟩] 25, by decide +kernel⟩

end PerpCarry
