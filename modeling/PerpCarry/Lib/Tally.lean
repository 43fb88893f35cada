import Mathlib.Data.List.Nodup
import PerpCarry.Lib.EventRun

/-!
# Lib.Tally

A dictionary of running totals: each element of a list is added to the total of its key, which
starts from zero when the key is seen for the first time.

* `bump_ok`: what one element does.
* `tally_ok`: the keys are those of the elements, and the total of a key is that of its elements in
  their order.
* `tally_blocks`: the totals of blocks of one key each.
-/

namespace PerpCarry
namespace Lib
namespace Tally

variable {α β κ ε : Type} [DecidableEq κ] (key : α → κ) (zero : β) (step : β → α → Except ε β)

/-- `item = totals.setdefault(key(x), zero)`, and the addition to it. -/
def bump (x : α) : List (κ × β) → Except ε (List (κ × β))
  | [] => (step zero x).map fun b => [(key x, b)]
  | (k, b) :: rest =>
    if k = key x then (step b x).map fun b => (k, b) :: rest
    else (bump x rest).map fun rest => (k, b) :: rest

/-- The loop over the elements. -/
def tally (xs : List α) : Except ε (List (κ × β)) :=
  run (fun totals x => bump key zero step x totals) [] xs

/-- The totals of some elements. -/
structure Tallied (xs : List α) (totals : List (κ × β)) : Prop where
  nodup : (totals.map (·.1)).Nodup
  keys : ∀ k, k ∈ totals.map (·.1) ↔ k ∈ xs.map key
  total : ∀ entry ∈ totals, run step zero (xs.filter fun x => key x = entry.1) = .ok entry.2

variable {key zero step} {x : α} {xs : List α} {totals totals' : List (κ × β)}

theorem bump_ok (h : bump key zero step x totals = .ok totals') :
    (key x ∉ totals.map (·.1) ∧ ∃ b, step zero x = .ok b ∧ totals' = totals ++ [(key x, b)]) ∨
      ∃ front b back b', totals = front ++ (key x, b) :: back ∧ step b x = .ok b' ∧
        totals' = front ++ (key x, b') :: back := by
  induction totals generalizing totals' with
  | nil =>
    obtain ⟨b, hb, rfl⟩ := map_ok.mp h
    exact .inl ⟨List.not_mem_nil, b, hb, rfl⟩
  | cons entry rest ih =>
    obtain ⟨k, b⟩ := entry
    unfold bump at h
    split at h
    · rename_i hkey
      obtain ⟨b', hb', rfl⟩ := map_ok.mp h
      exact .inr ⟨[], b, rest, b', by rw [hkey]; rfl, hb', by rw [hkey]; rfl⟩
    · rename_i hkey
      obtain ⟨rest', hrest', rfl⟩ := map_ok.mp h
      obtain ⟨hnew, b', hb', rfl⟩ | ⟨front, b', back, b'', rfl, hb', rfl⟩ := ih hrest'
      · refine .inl ⟨?_, b', hb', rfl⟩
        rw [List.map_cons, List.mem_cons, not_or]
        exact ⟨Ne.symm hkey, hnew⟩
      · exact .inr ⟨(k, b) :: front, b', back, b'', rfl, hb', rfl⟩

theorem Tallied.nil : Tallied key zero step [] [] :=
  ⟨List.nodup_nil, fun _ => Iff.rfl, List.forall_mem_nil _⟩

theorem Tallied.bump (h : Tallied key zero step xs totals)
    (hx : bump key zero step x totals = .ok totals') :
    Tallied key zero step (xs ++ [x]) totals' := by
  have hother : ∀ k, key x ≠ k → (xs ++ [x]).filter (fun y => key y = k) =
      xs.filter fun y => key y = k := by
    intro k hk
    rw [List.filter_append]
    simp [hk]
  have hsame : (xs ++ [x]).filter (fun y => key y = key x) =
      (xs.filter fun y => key y = key x) ++ [x] := by
    rw [List.filter_append]
    simp
  rcases bump_ok hx with ⟨hnew, b, hb, rfl⟩ | ⟨front, b, back, b', rfl, hb, rfl⟩
  · have hnone : xs.filter (fun y => key y = key x) = [] := by
      rw [List.filter_eq_nil_iff]
      intro y hy hkey
      exact hnew ((h.keys _).mpr (List.mem_map.mpr ⟨y, hy, of_decide_eq_true hkey⟩))
    refine ⟨?_, fun k => ?_, fun entry hentry => ?_⟩
    · rw [List.map_append]
      exact List.Nodup.append h.nodup (List.nodup_singleton _)
        (List.disjoint_singleton.mpr hnew)
    · simp only [List.map_append, List.mem_append, h.keys, List.map_cons, List.map_nil]
    · rcases List.mem_append.mp hentry with hentry | hentry
      · have hne : key x ≠ entry.1 := fun heq => hnew (heq ▸ List.mem_map_of_mem hentry)
        rw [hother _ hne]
        exact h.total entry hentry
      · rw [List.mem_singleton.mp hentry, hsame, hnone, List.nil_append]
        exact run_cons_ok.mpr ⟨b, hb, rfl⟩
  · have hkeys : (front ++ (key x, b') :: back).map (·.1) =
        (front ++ (key x, b) :: back).map (·.1) := by simp
    have hmem : key x ∈ xs.map key := (h.keys _).mp (by simp)
    refine ⟨hkeys ▸ h.nodup, fun k => ?_, fun entry hentry => ?_⟩
    · rw [hkeys, h.keys, List.map_append, List.mem_append, List.map_singleton, List.mem_singleton]
      constructor
      · exact .inl
      · rintro (hk | rfl)
        · exact hk
        · exact hmem
    · have hnodup := h.nodup
      rw [List.map_append, List.map_cons, List.nodup_middle, List.nodup_cons, ← List.map_append]
        at hnodup
      have hcases : entry = (key x, b') ∨ entry ∈ front ++ back := by
        simp only [List.mem_append, List.mem_cons] at hentry ⊢
        tauto
      rcases hcases with rfl | hentry
      · rw [hsame, run_append, h.total (key x, b) (by simp)]
        exact run_cons_ok.mpr ⟨b', hb, rfl⟩
      · have hmem' : entry.1 ∈ (front ++ back).map (·.1) := List.mem_map_of_mem hentry
        have hne : key x ≠ entry.1 := fun heq => hnodup.1 (heq ▸ hmem')
        rw [hother _ hne]
        refine h.total entry ?_
        simp only [List.mem_append, List.mem_cons] at hentry ⊢
        tauto

theorem tally_ok (h : tally key zero step xs = .ok totals) : Tallied key zero step xs totals := by
  have hrun := run_history (Tallied key zero step)
    (fun past totals x totals' htallied hx => htallied.bump hx) [] Tallied.nil h
  rwa [List.nil_append] at hrun

theorem bump_new {b : β} (hnew : key x ∉ totals.map (·.1)) (hb : step zero x = .ok b) :
    bump key zero step x totals = .ok (totals ++ [(key x, b)]) := by
  induction totals with
  | nil => exact map_ok.mpr ⟨b, hb, rfl⟩
  | cons entry rest ih =>
    rw [List.map_cons, List.mem_cons, not_or] at hnew
    unfold bump
    rw [if_neg (Ne.symm hnew.1), ih hnew.2]
    rfl

theorem bump_last {b b' : β} (hnew : key x ∉ totals.map (·.1)) (hb : step b x = .ok b') :
    bump key zero step x (totals ++ [(key x, b)]) = .ok (totals ++ [(key x, b')]) := by
  induction totals with
  | nil =>
    rw [List.nil_append, bump, if_pos rfl, hb]
    rfl
  | cons entry rest ih =>
    rw [List.map_cons, List.mem_cons, not_or] at hnew
    rw [List.cons_append, bump, if_neg (Ne.symm hnew.1), ih hnew.2]
    rfl

/-- Elements of the last key. -/
theorem run_last {k : κ} {b b' : β} (hnew : k ∉ totals.map (·.1)) (hkey : ∀ x ∈ xs, key x = k)
    (hrun : run step b xs = .ok b') :
    run (fun totals x => bump key zero step x totals) (totals ++ [(k, b)]) xs =
      .ok (totals ++ [(k, b')]) := by
  induction xs generalizing b with
  | nil =>
    cases hrun
    rfl
  | cons x xs ih =>
    obtain ⟨hx, hxs⟩ := List.forall_mem_cons.mp hkey
    obtain ⟨next, hnext, hrest⟩ := run_cons_ok.mp hrun
    subst hx
    exact run_cons_ok.mpr ⟨_, bump_last hnew hnext, ih hxs hrest⟩

/-- Elements that come in blocks of one key each: their totals, in the order of the blocks. -/
theorem tally_blocks {blocks : List (κ × List α)} {entries : List (κ × β)}
    (hnodup : (blocks.map (·.1)).Nodup)
    (hblocks : ∀ block ∈ blocks, block.2 ≠ [] ∧ ∀ x ∈ block.2, key x = block.1)
    (htotals : List.Forall₂ (fun block entry =>
      entry.1 = block.1 ∧ run step zero block.2 = .ok entry.2) blocks entries) :
    tally key zero step (blocks.flatMap (·.2)) = .ok entries := by
  suffices hfrom : ∀ totals : List (κ × β), (∀ block ∈ blocks, block.1 ∉ totals.map (·.1)) →
      run (fun totals x => bump key zero step x totals) totals (blocks.flatMap (·.2)) =
        .ok (totals ++ entries) from
    hfrom [] fun _ _ => List.not_mem_nil
  induction htotals with
  | nil =>
    intro totals _
    rw [List.append_nil]
    rfl
  | @cons block entry blocks entries htotal _ ih =>
    intro totals hnew
    rw [List.map_cons, List.nodup_cons] at hnodup
    obtain ⟨⟨hne, hkey⟩, hrestBlocks⟩ := List.forall_mem_cons.mp hblocks
    obtain ⟨hfirst, hlater⟩ := List.forall_mem_cons.mp hnew
    obtain ⟨_, rows⟩ := block
    obtain ⟨k, total⟩ := entry
    obtain ⟨rfl, hrun⟩ := htotal
    -- the first element opens the entry, the others are added to it
    have hblock : run (fun totals x => bump key zero step x totals) totals rows =
        .ok (totals ++ [(k, total)]) := by
      cases rows with
      | nil => exact absurd rfl hne
      | cons x rows =>
        obtain ⟨hx, hrows⟩ := List.forall_mem_cons.mp hkey
        obtain ⟨next, hnext, hrest⟩ := run_cons_ok.mp hrun
        dsimp only at hx hfirst
        subst hx
        exact run_cons_ok.mpr ⟨_, bump_new hfirst hnext, run_last hfirst hrows hrest⟩
    have hrest := ih hnodup.2 hrestBlocks (totals ++ [(k, total)]) fun other hother => by
      rw [List.map_append, List.mem_append, not_or]
      refine ⟨hlater other hother, fun hsame => hnodup.1 ?_⟩
      rw [List.map_singleton, List.mem_singleton] at hsame
      exact hsame ▸ List.mem_map_of_mem hother
    rw [List.flatMap_cons, run_append, hblock]
    rw [List.append_assoc] at hrest
    exact hrest

end Tally
end Lib
end PerpCarry
