import PerpCarry.Book.WellFormed

/-!
# Book.Replayer

Snapshot and diff replay over an order book: `cpp/src/book_replayer.cpp`.

`apply` has four ways to throw. The first two come before anything is changed; the other two come
from `OrderBook::apply`, after a resync has already emptied the book and been counted.
-/

namespace PerpCarry

/-- One row of the feed. Timestamps are milliseconds; a zero quantity removes the level. -/
structure BookUpdate where
  timestamp : Int
  localTimestamp : Int
  isSnapshot : Bool
  side : Side
  price : Double
  quantity : Double
  deriving DecidableEq

def BookUpdate.snap (timestamp : Int) (side : Side) (price quantity : ℚ) : BookUpdate :=
  ⟨timestamp, timestamp, true, side, .finite price, .finite quantity⟩

def BookUpdate.diff (timestamp : Int) (side : Side) (price quantity : ℚ) : BookUpdate :=
  ⟨timestamp, timestamp, false, side, .finite price, .finite quantity⟩

@[ext]
structure Stats where
  applied : Int := 0
  resyncs : Int := 0
  snapshotRows : Int := 0
  removals : Int := 0
  crossed : Int := 0
  lastTimestamp : Int := 0
  deriving DecidableEq

structure BookReplayer where
  book : OrderBook := {}
  stats : Stats := {}
  started : Bool := false
  -- true, so that the opening block, which no diff precedes, is not a resync
  previousWasSnapshot : Bool := true
  deriving DecidableEq

namespace BookReplayer

def notOpened : Error :=
  .bookReplayError ("replay does not open with an is_snapshot block: there is no initial state to " ++
    "build on, and this feed carries no sequence number to recover from (design doc 3.2)")

def backwards (timestamp last : Int) : Error :=
  .bookReplayError ("book updates went backwards in time: " ++ toString timestamp ++ " follows " ++
    toString last ++ "; file order is the sequence and must be preserved")

/-- A snapshot row after a diff opens a fresh book image: the old state goes first. -/
def resync (r : BookReplayer) (update : BookUpdate) : BookReplayer :=
  if update.isSnapshot && !r.previousWasSnapshot then
    { r with book := r.book.clear, stats := { r.stats with resyncs := r.stats.resyncs + 1 } }
  else r

/-- The bookkeeping after the book has taken the row. -/
def record (r : BookReplayer) (update : BookUpdate) (book : OrderBook) : BookReplayer where
  book := book
  stats := { r.stats with
    applied := r.stats.applied + 1
    snapshotRows := if update.isSnapshot then r.stats.snapshotRows + 1 else r.stats.snapshotRows
    removals := if update.quantity.eq .zero then r.stats.removals + 1 else r.stats.removals
    crossed := if book.isCrossed then r.stats.crossed + 1 else r.stats.crossed
    lastTimestamp := update.timestamp }
  started := true
  previousWasSnapshot := update.isSnapshot

def apply (r : BookReplayer) (update : BookUpdate) : Call BookReplayer Unit :=
  if !r.started && !update.isSnapshot then .error notOpened r
  else if r.started && decide (update.timestamp < r.stats.lastTimestamp) then
    .error (backwards update.timestamp r.stats.lastTimestamp) r
  else
    let r := r.resync update
    match r.book.apply update.side update.price update.quantity with
    | .error e book => .error e { r with book }
    | .ok () book => .ok () (r.record update book)

/-- The rows in order, up to the first that throws. -/
def applyRows (r : BookReplayer) : List BookUpdate → Call BookReplayer Unit
  | [] => .ok () r
  | update :: batch =>
    match r.apply update with
    | .error e r' => .error e r'
    | .ok () r' => r'.applyRows batch

def applyBatch (r : BookReplayer) (batch : List BookUpdate) : Call BookReplayer Nat :=
  match r.applyRows batch with
  | .error e r' => .error e r'
  | .ok () r' => .ok batch.length r'

/-- A call of the public interface. -/
inductive ReplayCall where
  | apply (update : BookUpdate)
  | applyBatch (batch : List BookUpdate)

def ReplayCall.rows : ReplayCall → List BookUpdate
  | .apply update => [update]
  | .applyBatch batch => batch

def call (r : BookReplayer) : ReplayCall → Call BookReplayer Unit
  | .apply update => r.apply update
  | .applyBatch batch =>
    match r.applyBatch batch with
    | .error e r' => .error e r'
    | .ok _ r' => .ok () r'

/-- Calls in order, up to the first that throws. -/
def calls (r : BookReplayer) : List ReplayCall → Call BookReplayer Unit
  | [] => .ok () r
  | c :: cs =>
    match r.call c with
    | .error e r' => .error e r'
    | .ok () r' => r'.calls cs

/-! ## What one `apply` can do -/

variable {r r' : BookReplayer} {update : BookUpdate} {e : Error}

/-- `apply` reaches the book: the replay has opened and time does not go backwards. -/
structure Admitted (r : BookReplayer) (update : BookUpdate) : Prop where
  opened : r.started = false → update.isSnapshot = true
  forwards : r.started = true → r.stats.lastTimestamp ≤ update.timestamp

@[simp] theorem resync_started : (r.resync update).started = r.started := by
  simp only [resync]; split <;> rfl

theorem resync_of_not (h : ¬ (update.isSnapshot = true ∧ r.previousWasSnapshot = false)) :
    r.resync update = r := by
  simp only [resync]
  rw [if_neg]
  simpa using h

theorem resync_wellFormed (h : r.book.WellFormed) : (r.resync update).book.WellFormed := by
  simp only [resync]
  split
  · exact OrderBook.wellFormed_clear r.book
  · exact h

theorem apply_admitted (h : Admitted r update) :
    r.apply update =
      match (r.resync update).book.apply update.side update.price update.quantity with
      | .error e book => .error e { r.resync update with book }
      | .ok () book => .ok () ((r.resync update).record update book) := by
  simp only [apply]
  rw [if_neg, if_neg]
  · simpa using h.forwards
  · simpa using h.opened

theorem apply_not_admitted (h : ¬ Admitted r update) : ∃ e, r.apply update = .error e r := by
  simp only [apply]
  split
  · exact ⟨_, rfl⟩
  · rename_i hopen
    split
    · exact ⟨_, rfl⟩
    · rename_i hforw
      exact absurd ⟨by simpa using hopen, by simpa using hforw⟩ h

theorem apply_ok_inv (h : r.apply update = .ok () r') :
    Admitted r update ∧ ∃ book,
      (r.resync update).book.apply update.side update.price update.quantity = .ok () book ∧
      r' = (r.resync update).record update book := by
  by_cases hadm : Admitted r update
  · rw [apply_admitted hadm] at h
    split at h
    · cases h
    · rename_i book hbook
      cases h
      exact ⟨hadm, book, hbook, rfl⟩
  · obtain ⟨e, he⟩ := apply_not_admitted hadm
    rw [he] at h
    cases h

/-- A thrown error leaves the state as it was, or leaves what the resync made of it. -/
theorem apply_error_inv (h : r.apply update = .error e r') :
    (¬ Admitted r update ∧ r' = r) ∨
      (Admitted r update ∧ ¬ Book.Acceptable update.price update.quantity ∧
        r' = r.resync update) := by
  by_cases hadm : Admitted r update
  · rw [apply_admitted hadm] at h
    split at h
    · rename_i e' book' hbook
      obtain ⟨hna, rfl⟩ := OrderBook.apply_error_inv hbook
      cases h
      exact .inr ⟨hadm, hna, rfl⟩
    · cases h
  · obtain ⟨e', he⟩ := apply_not_admitted hadm
    rw [he] at h
    cases h
    exact .inl ⟨hadm, rfl⟩

theorem apply_wellFormed (h : r.book.WellFormed) (ha : r.apply update = .ok () r') :
    r'.book.WellFormed := by
  obtain ⟨_, book, hbook, rfl⟩ := apply_ok_inv ha
  obtain ⟨book', hok, hwf, _⟩ := OrderBook.apply_ok (resync_wellFormed h) update.side
    (OrderBook.apply_acceptable hbook)
  rw [hok] at hbook
  cases hbook
  exact hwf

theorem applyRows_cons_ok {rows : List BookUpdate} :
    r.applyRows (update :: rows) = .ok () r' ↔
      ∃ r₁, r.apply update = .ok () r₁ ∧ r₁.applyRows rows = .ok () r' := by
  rw [applyRows]
  cases r.apply update with
  | error e r₁ => simp
  | ok x r₁ => simp

theorem applyRows_wellFormed {rows : List BookUpdate} (h : r.book.WellFormed)
    (ha : r.applyRows rows = .ok () r') : r'.book.WellFormed := by
  induction rows generalizing r with
  | nil => cases ha; exact h
  | cons u us ih =>
    obtain ⟨r₁, hu, ha⟩ := applyRows_cons_ok.mp ha
    exact ih (apply_wellFormed h hu) ha

/-- Accepted rows are in order of time, and not before what came earlier. -/
theorem applyRows_forwards {rows : List BookUpdate} (ha : r.applyRows rows = .ok () r') :
    (rows.Pairwise fun u v => u.timestamp ≤ v.timestamp) ∧
      (r.started = true → ∀ u ∈ rows, r.stats.lastTimestamp ≤ u.timestamp) := by
  induction rows generalizing r with
  | nil => exact ⟨.nil, fun _ => nofun⟩
  | cons u us ih =>
    obtain ⟨r₁, hu, ha⟩ := applyRows_cons_ok.mp ha
    obtain ⟨hadm, book, _, rfl⟩ := apply_ok_inv hu
    obtain ⟨hsorted, hafter⟩ := ih ha
    have hafter : ∀ v ∈ us, u.timestamp ≤ v.timestamp := hafter rfl
    refine ⟨.cons hafter hsorted, ?_⟩
    intro hstarted v hv
    have hu := hadm.forwards hstarted
    rcases List.mem_cons.mp hv with rfl | hv
    · exact hu
    · exact hu.trans (hafter v hv)

/-- A well-formed book takes exactly the acceptable rows. -/
theorem apply_ok_iff (h : r.book.WellFormed) :
    (∃ r', r.apply update = .ok () r') ↔
      Admitted r update ∧ Book.Acceptable update.price update.quantity := by
  constructor
  · rintro ⟨r', ha⟩
    obtain ⟨hadm, book, hbook, _⟩ := apply_ok_inv ha
    exact ⟨hadm, OrderBook.apply_acceptable hbook⟩
  · rintro ⟨hadm, hacc⟩
    obtain ⟨book, hbook, _⟩ := OrderBook.apply_ok (resync_wellFormed h) update.side hacc
    rw [apply_admitted hadm, hbook]
    exact ⟨_, rfl⟩

/-- The rows are accepted when they open with a snapshot, go forwards and are acceptable. -/
theorem applyRows_ok_iff {rows : List BookUpdate} (h : r.book.WellFormed) :
    (∃ r', r.applyRows rows = .ok () r') ↔
      (r.started = false → ∀ u ∈ rows.head?, u.isSnapshot = true) ∧
        (r.started = true → ∀ u ∈ rows, r.stats.lastTimestamp ≤ u.timestamp) ∧
        (rows.Pairwise fun u v => u.timestamp ≤ v.timestamp) ∧
        ∀ u ∈ rows, Book.Acceptable u.price u.quantity := by
  induction rows generalizing r with
  | nil => simp [applyRows]
  | cons u us ih =>
    constructor
    · rintro ⟨r', ha⟩
      obtain ⟨hsorted, hafter⟩ := applyRows_forwards ha
      obtain ⟨r₁, hu, ha⟩ := applyRows_cons_ok.mp ha
      obtain ⟨hadm, hacc⟩ := (apply_ok_iff h).mp ⟨r₁, hu⟩
      obtain ⟨_, _, _, hrest⟩ := (ih (apply_wellFormed h hu)).mp ⟨r', ha⟩
      refine ⟨?_, hafter, hsorted, ?_⟩
      · rintro hclosed _ ⟨⟩
        exact hadm.opened hclosed
      · intro v hv
        rcases List.mem_cons.mp hv with rfl | hv
        · exact hacc
        · exact hrest v hv
    · rintro ⟨hopened, hforwards, hsorted, hacc⟩
      have hadm : Admitted r u := by
        refine ⟨fun hclosed => hopened hclosed u rfl, fun hstarted => ?_⟩
        exact hforwards hstarted u (List.mem_cons_self ..)
      obtain ⟨r₁, hu⟩ := (apply_ok_iff h).mpr ⟨hadm, hacc u (List.mem_cons_self ..)⟩
      obtain ⟨_, book, _, hr₁⟩ := apply_ok_inv hu
      have hnext : ∃ r', r₁.applyRows us = .ok () r' := by
        refine (ih (apply_wellFormed h hu)).mpr ⟨?_, ?_, (List.pairwise_cons.mp hsorted).2, ?_⟩
        · rw [hr₁]
          nofun
        · rw [hr₁]
          intro _
          exact (List.pairwise_cons.mp hsorted).1
        · intro v hv
          exact hacc v (List.mem_cons_of_mem _ hv)
      obtain ⟨r', hrest⟩ := hnext
      exact ⟨r', applyRows_cons_ok.mpr ⟨r₁, hu, hrest⟩⟩

/-! ## Calls and rows -/

theorem applyRows_append (rows rows' : List BookUpdate) :
    r.applyRows (rows ++ rows') =
      match r.applyRows rows with
      | .error e r' => .error e r'
      | .ok () r' => r'.applyRows rows' := by
  induction rows generalizing r with
  | nil => rfl
  | cons u us ih =>
    simp only [List.cons_append, applyRows]
    cases hu : r.apply u with
    | error e r' => rfl
    | ok x r' => exact ih

/-- How a stream is cut into calls does not matter. -/
theorem calls_eq_applyRows (cs : List ReplayCall) :
    r.calls cs = r.applyRows (cs.flatMap ReplayCall.rows) := by
  induction cs generalizing r with
  | nil => rfl
  | cons c cs ih =>
    rw [List.flatMap_cons, applyRows_append]
    cases c with
    | apply u =>
      simp only [calls, call, ReplayCall.rows, applyRows]
      cases hu : r.apply u with
      | error e r' => rfl
      | ok x r' => exact ih
    | applyBatch batch =>
      simp only [calls, call, ReplayCall.rows, applyBatch]
      cases hb : r.applyRows batch with
      | error e r' => rfl
      | ok x r' => exact ih

end BookReplayer

end PerpCarry
