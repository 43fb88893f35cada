import PerpCarry.Book.Refinement
import PerpCarry.Book.Replayer

/-!
# Book.Lockstep

Two replayers that take the same rows while something else changes one of their books.

* `OrderBook.shown`: the map a book stands for, read off its levels.
* `apply_shown`: a row writes its price, after it has emptied the book when it opens a block.
* `levels_eq_of_shown`: books that show the same on a side have the same levels there.
* `Lockstep`: the two agree on everything `apply` looks at before it touches the book.
* `Lockstep.apply`: a row that one of them takes the other one takes.
-/

namespace PerpCarry

open Book

/-- The quantity displayed at a price, if there is a level. -/
def OrderBook.shown (book : OrderBook) : BookMap := fun side price =>
  ((book.levels side).find? fun l => l.price = price).map Level.quantity

theorem shown_refines {book : OrderBook} (h : book.WellFormed) : Refines book book.shown := by
  refine ⟨h, fun side price quantity => ?_⟩
  unfold OrderBook.shown
  constructor
  · intro hmem
    cases hfind : (book.levels side).find? fun l => l.price = price with
    | none => simpa using List.find?_eq_none.mp hfind _ hmem
    | some l =>
      have hprice : l.price = price := by simpa using List.find?_some hfind
      have hl := List.mem_of_find?_eq_some hfind
      have : l = ⟨price, quantity⟩ :=
        List.inj_on_of_nodup_map (h.nodup_prices side) hl hmem hprice
      rw [this]
      rfl
  · intro hsome
    obtain ⟨l, hfind, rfl⟩ := Option.map_eq_some_iff.mp hsome
    obtain rfl : l.price = price := by simpa using List.find?_some hfind
    exact List.mem_of_find?_eq_some hfind

theorem Refines.shown_eq {book : OrderBook} {m : BookMap} (h : Refines book m) : book.shown = m := by
  funext side price
  refine Option.ext fun quantity => ?_
  rw [← (shown_refines h.wellFormed).entries, h.entries]

/-- The levels of a side are what it shows, in their one order. -/
theorem levels_eq_of_shown {book book' : OrderBook} (h : book.WellFormed) (h' : book'.WellFormed)
    {side : Side} (hshown : book.shown side = book'.shown side) :
    book.levels side = book'.levels side := by
  have hmem : ∀ l : Level, l ∈ book.levels side ↔ l ∈ book'.levels side := by
    intro l
    rw [(shown_refines h).entries side l.price l.quantity,
      (shown_refines h').entries side l.price l.quantity, hshown]
  have hperm : (book.levels side).Perm (book'.levels side) :=
    (List.perm_ext_iff_of_nodup (h.nodup_prices side).of_map
      (h'.nodup_prices side).of_map).mpr hmem
  refine hperm.eq_of_pairwise ?_ (h.sorted side) (h'.sorted side)
  intro a b _ _ hab hba
  exact absurd (trans_of (Better side) hab hba) (irrefl_of (Better side) _)

namespace BookReplayer

variable {r r' r₁ : BookReplayer} {update : BookUpdate} {rows : List BookUpdate}

/-- The row opens a new block: a snapshot row after a diff. -/
def opens (r : BookReplayer) (update : BookUpdate) : Bool :=
  update.isSnapshot && !r.previousWasSnapshot

theorem resync_shown : (r.resync update).book.shown =
    if r.opens update = true then BookMap.empty else r.book.shown := by
  unfold resync opens
  split
  · exact (refines_clear r.book).shown_eq
  · rfl

theorem apply_shown (h : r.book.WellFormed) (ha : r.apply update = .ok () r') :
    r'.book.shown = (if r.opens update = true then BookMap.empty else r.book.shown).write
      update.side update.price update.quantity := by
  obtain ⟨_, book, hbook, rfl⟩ := apply_ok_inv ha
  have hres : Refines (r.resync update).book (r.resync update).book.shown :=
    shown_refines (resync_wellFormed h)
  rw [resync_shown] at hres
  exact (refines_write hres (OrderBook.apply_acceptable hbook) hbook).shown_eq

structure Lockstep (r r' : BookReplayer) : Prop where
  started : r.started = r'.started
  previous : r.previousWasSnapshot = r'.previousWasSnapshot
  clock : r.stats.lastTimestamp = r'.stats.lastTimestamp

theorem Lockstep.refl (r : BookReplayer) : Lockstep r r := ⟨rfl, rfl, rfl⟩

theorem Lockstep.opens_eq (h : Lockstep r r') (update : BookUpdate) :
    r.opens update = r'.opens update := by
  simp only [opens, h.previous]

/-- Changing the book of one of them leaves them in step. -/
theorem Lockstep.withBook (h : Lockstep r r') (book : OrderBook) : Lockstep { r with book } r' :=
  ⟨h.started, h.previous, h.clock⟩

theorem Lockstep.symm (h : Lockstep r r') : Lockstep r' r :=
  ⟨h.started.symm, h.previous.symm, h.clock.symm⟩

theorem Lockstep.apply (h : Lockstep r r') (hwf : r.book.WellFormed) (hwf' : r'.book.WellFormed)
    (ha : r'.apply update = .ok () r₁) : ∃ r₂, r.apply update = .ok () r₂ ∧ Lockstep r₂ r₁ := by
  obtain ⟨hadm, hacc⟩ := (apply_ok_iff hwf').mp ⟨r₁, ha⟩
  have hadm' : Admitted r update := by
    refine ⟨fun hclosed => hadm.opened ?_, fun hstarted => ?_⟩
    · rw [← h.started, hclosed]
    · rw [h.clock]
      exact hadm.forwards (by rw [← h.started, hstarted])
  obtain ⟨r₂, ha'⟩ := (apply_ok_iff hwf).mpr ⟨hadm', hacc⟩
  refine ⟨r₂, ha', ?_⟩
  obtain ⟨_, _, _, rfl⟩ := apply_ok_inv ha
  obtain ⟨_, _, _, rfl⟩ := apply_ok_inv ha'
  exact ⟨rfl, rfl, rfl⟩

end BookReplayer

end PerpCarry
