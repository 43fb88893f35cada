import PerpCarry.Lib.Frame

/-!
# Lib.Blocks

Slots in order, cut into blocks, and a list of some of the slots.

* `torn_iff`: asking the blocks that miss a slot to miss all of theirs.
* `mem_absent`: then the blocks that miss a slot are those that have none at all.
* `lacking_nil`: nothing is lacking where no block is absent.
-/

namespace PerpCarry
namespace Lib

variable {τ κ : Type} [LinearOrder κ]

/-- The slots of a block. -/
def slotsOf (block : τ → κ) (slots : List τ) (k : κ) : List τ := slots.filter fun t => block t = k

theorem mem_slotsOf {block : τ → κ} {slots : List τ} {t : τ} {k : κ} :
    t ∈ slotsOf block slots k ↔ t ∈ slots ∧ block t = k := by
  simp [slotsOf]

variable [LinearOrder τ]

/-- Two strictly increasing lists of the same elements. -/
theorem eq_of_increasing {xs ys : List τ} (hxs : xs.Pairwise (· < ·)) (hys : ys.Pairwise (· < ·))
    (h : ∀ x, x ∈ xs ↔ x ∈ ys) : xs = ys := by
  have hperm : xs.Perm ys :=
    (List.perm_ext_iff_of_nodup (hxs.imp ne_of_lt) (hys.imp ne_of_lt)).mpr h
  refine hperm.eq_of_pairwise ?_ (hxs.imp le_of_lt) (hys.imp le_of_lt)
  intro a b _ _ hab hba
  exact le_antisymm hab hba

/-- `sorted(set(xs))` is the list itself, when it is strictly increasing and only then. -/
theorem eq_unique_iff {xs : List τ} : xs = unique xs ↔ xs.Pairwise (· < ·) := by
  constructor
  · intro h
    rw [h]
    exact unique_increasing xs
  · intro h
    exact eq_of_increasing h (unique_increasing xs) fun x => mem_unique.symm

variable (block : τ → κ) (slots times : List τ)

/-- The slots that the list lacks. -/
def lacking : List τ := slots.filter (· ∉ times)

/-- The blocks that lack a slot, in order. -/
def absent : List κ := unique ((lacking slots times).map block)

/-- A block with one slot in the list has all its slots in it. -/
def Untorn : Prop := ∀ t ∈ times, ∀ s ∈ slots, block s = block t → s ∈ times

variable {block slots times}

theorem mem_lacking {t : τ} : t ∈ lacking slots times ↔ t ∈ slots ∧ t ∉ times := by
  simp [lacking]

/-- The test is made on the blocks that lack a slot. -/
theorem torn_iff (hsub : ∀ t ∈ times, t ∈ slots) :
    (∃ k ∈ absent block slots times, ¬ ∀ t ∈ slotsOf block slots k, t ∈ lacking slots times) ↔
      ¬ Untorn block slots times := by
  constructor
  · rintro ⟨k, hk, hall⟩ huntorn
    refine hall ?_
    intro t ht
    obtain ⟨hslot, rfl⟩ := mem_slotsOf.mp ht
    obtain ⟨s, hs, hblock⟩ := List.mem_map.mp (mem_unique.mp hk)
    obtain ⟨hsslot, hsnot⟩ := mem_lacking.mp hs
    exact mem_lacking.mpr ⟨hslot, fun htimes => hsnot (huntorn t htimes s hsslot hblock)⟩
  · intro htorn
    unfold Untorn at htorn
    push Not at htorn
    obtain ⟨t, ht, s, hs, hblock, hnot⟩ := htorn
    refine ⟨block t, ?_, ?_⟩
    · exact mem_unique.mpr (List.mem_map.mpr ⟨s, mem_lacking.mpr ⟨hs, hnot⟩, hblock⟩)
    · intro hall
      exact (mem_lacking.mp (hall t (mem_slotsOf.mpr ⟨hsub t ht, rfl⟩))).2 ht

theorem mem_absent (h : Untorn block slots times) {k : κ} :
    k ∈ absent block slots times ↔ (∃ s ∈ slots, block s = k) ∧ ∀ t ∈ times, block t ≠ k := by
  unfold absent
  rw [mem_unique, List.mem_map]
  constructor
  · rintro ⟨s, hs, rfl⟩
    obtain ⟨hslot, hnot⟩ := mem_lacking.mp hs
    exact ⟨⟨s, hslot, rfl⟩, fun t ht hblock => hnot (h t ht s hslot hblock.symm)⟩
  · rintro ⟨⟨s, hslot, rfl⟩, hnone⟩
    exact ⟨s, mem_lacking.mpr ⟨hslot, fun hs => hnone s hs rfl⟩, rfl⟩

theorem lacking_nil : lacking slots times = [] ↔ absent block slots times = [] := by
  constructor
  · intro h
    unfold absent
    rw [h]
    rfl
  · intro h
    refine List.eq_nil_iff_forall_not_mem.mpr fun t ht => ?_
    have hmem : block t ∈ absent block slots times := mem_unique.mpr (List.mem_map_of_mem ht)
    rw [h] at hmem
    cases hmem

end Lib
end PerpCarry
