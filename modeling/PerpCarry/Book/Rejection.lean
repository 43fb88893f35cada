import PerpCarry.Book.Replayer

/-!
# Book.Rejection

What a thrown error leaves behind in the replayer.

`OrderBook::apply` checks before it changes anything. `BookReplayer::apply` checks the opening and
the timestamp first as well, but it resets the book and counts the resync before the book has taken
the row. So a bad price or quantity on the row that opens a resync block loses the old book and
counts a resync that did not happen (`apply_throw_unchanged_iff`). Every other rejected row leaves
the state as it was, and a caller that goes on after such rows has the state of the accepted rows
(`runCatching_accepted`).
-/

namespace PerpCarry
namespace BookReplayer

/-- A caller that catches every exception and goes on. -/
def runCatching (r : BookReplayer) (rows : List BookUpdate) : BookReplayer :=
  rows.foldl (fun r u => (r.apply u).state) r

/-- The rows of such a run that were accepted. -/
def acceptedRows (r : BookReplayer) : List BookUpdate → List BookUpdate
  | [] => []
  | u :: us =>
    match r.apply u with
    | .ok () r' => u :: r'.acceptedRows us
    | .error _ r' => r'.acceptedRows us

/-- The row opens a resync block: a snapshot row after a diff, in time order. -/
def OpensResync (r : BookReplayer) (update : BookUpdate) : Prop :=
  update.isSnapshot = true ∧ r.previousWasSnapshot = false ∧
    r.stats.lastTimestamp ≤ update.timestamp

instance (r : BookReplayer) (update : BookUpdate) : Decidable (OpensResync r update) := by
  unfold OpensResync; infer_instance

variable {r r' : BookReplayer} {update : BookUpdate} {e : Error}

theorem resync_ne (h : update.isSnapshot = true ∧ r.previousWasSnapshot = false) :
    r.resync update ≠ r := by
  intro heq
  have := congrArg (·.stats.resyncs) heq
  simp [resync, h.1, h.2] at this

/-- A diff before the current row means that the replay has started. -/
def FlagsAgree (r : BookReplayer) : Prop := r.previousWasSnapshot = false → r.started = true

theorem apply_flagsAgree (h : FlagsAgree r) (u : BookUpdate) : FlagsAgree (r.apply u).state := by
  cases ha : r.apply u with
  | ok x r' =>
    obtain ⟨_, book, _, rfl⟩ := apply_ok_inv ha
    exact fun _ => rfl
  | error e r' =>
    rcases apply_error_inv ha with ⟨_, rfl⟩ | ⟨_, _, rfl⟩
    · exact h
    · have hprev : (r.resync u).previousWasSnapshot = r.previousWasSnapshot := by
        simp only [resync]; split <;> rfl
      intro hp
      rw [Call.state_error, hprev] at hp
      rw [Call.state_error, resync_started]
      exact h hp

theorem runCatching_flagsAgree (rows : List BookUpdate) (h : FlagsAgree r) :
    FlagsAgree (r.runCatching rows) := by
  induction rows generalizing r with
  | nil => exact h
  | cons u us ih => exact ih (apply_flagsAgree h u)

/-- One rejected row. -/
theorem apply_error_unchanged_iff (hf : FlagsAgree r) (h : r.apply update = .error e r') :
    r' = r ↔ ¬ OpensResync r update := by
  rcases apply_error_inv h with ⟨hadm, rfl⟩ | ⟨hadm, _, rfl⟩
  · refine ⟨fun _ hopen => hadm ⟨fun _ => hopen.1, fun _ => hopen.2.2⟩, fun _ => rfl⟩
  · constructor
    · exact fun heq hopen => resync_ne ⟨hopen.1, hopen.2.1⟩ heq
    · intro hno
      refine resync_of_not fun ⟨hs, hp⟩ => hno ⟨hs, hp, hadm.forwards (hf hp)⟩

/-- No rejected row of the run opens a resync block. -/
def HarmlessRejections (r : BookReplayer) : List BookUpdate → Prop
  | [] => True
  | u :: us =>
    ((r.apply u).thrown ≠ none → ¬ OpensResync r u) ∧ HarmlessRejections (r.apply u).state us

theorem runCatching_accepted {rows : List BookUpdate} (hf : FlagsAgree r)
    (h : HarmlessRejections r rows) :
    r.applyRows (r.acceptedRows rows) = .ok () (r.runCatching rows) := by
  induction rows generalizing r with
  | nil => rfl
  | cons u us ih =>
    obtain ⟨hu, hus⟩ := h
    have hf' := apply_flagsAgree hf u
    simp only [acceptedRows, runCatching, List.foldl_cons] at ih ⊢
    cases ha : r.apply u with
    | ok x r' =>
      rw [ha] at hus hf'
      simp only [applyRows, ha]
      exact ih hf' hus
    | error e r' =>
      rw [ha] at hu hus hf'
      have : r' = r := (apply_error_unchanged_iff hf ha).mpr (hu (by simp))
      subst this
      exact ih hf' hus

/-- A rejected row leaves the replayer as it was exactly when it does not open a resync block, and
a run whose rejected rows are all of that kind ends in the state of its accepted rows. -/
theorem apply_throw_unchanged_iff (history : List BookUpdate) :
    let r := ({} : BookReplayer).runCatching history
    (∀ update, (r.apply update).thrown ≠ none →
      ((r.apply update).state = r ↔ ¬ OpensResync r update)) ∧
    (HarmlessRejections {} history →
      ({} : BookReplayer).applyRows (acceptedRows {} history) = .ok () r) := by
  intro r
  have hinit : FlagsAgree {} := by intro h; cases h
  refine ⟨fun update ht => ?_, runCatching_accepted hinit⟩
  cases ha : r.apply update with
  | ok x r' => rw [ha] at ht; simp at ht
  | error e r' => exact apply_error_unchanged_iff (runCatching_flagsAgree history hinit) ha

def openedDay : List BookUpdate := [.snap 1000 .bid 99 5, .snap 1000 .ask 101 7, .diff 1001 .bid 98 1]

/-- A diff at a price of zero is rejected, and the replayer is as it was. -/
theorem apply_throw_unchanged_diff :
    ((({} : BookReplayer).runCatching openedDay).apply (.diff 1002 .bid 0 1)).state =
        ({} : BookReplayer).runCatching openedDay ∧
      ({} : BookReplayer).applyRows (acceptedRows {} openedDay) =
        .ok () (({} : BookReplayer).runCatching openedDay) :=
  ⟨((apply_throw_unchanged_iff openedDay).1 (.diff 1002 .bid 0 1) (by decide)).mpr (by decide),
    (apply_throw_unchanged_iff openedDay).2 (by simp only [HarmlessRejections, openedDay]; decide)⟩

/-- A snapshot row at a price of zero after a diff is rejected, but the book is gone and a resync
has been counted. -/
theorem apply_throw_loses_book :
    let r := ({} : BookReplayer).runCatching openedDay
    let after := (r.apply (.snap 1002 .ask 0 4)).state
    (r.apply (.snap 1002 .ask 0 4)).thrown ≠ none ∧ after.book = {} ∧ r.book ≠ {} ∧
      after.stats.resyncs = 1 ∧ r.stats.resyncs = 0 := by decide

end BookReplayer
end PerpCarry
