import Mathlib.Data.List.Sort
import Mathlib.Order.Defs.Unbundled
import PerpCarry.Lib.PartitionPoint

/-!
# Lib.SortedList

Lists kept strictly ordered by a key, as a finite map from keys to elements.

`r` is a strict total order on keys. `SortedBy r key xs` says that `xs` is strictly ordered, so a
key occurs at most once. A binary search for the key `k` finds the place of `k`: the list is
`pre ++ post` or `pre ++ b :: post` with `b` the entry of `k`, and every other key is on its side of
`k` (`Gap`, `SortedBy.find`). Putting an entry of `k` into that place or leaving it empty keeps the
order, and the entries of the other keys are the same (`Gap.sorted_insert`, `Gap.mem_iff`).
-/

namespace PerpCarry
namespace Lib

theorem insertIdx_at_append {α : Type*} (pre post : List α) (x : α) :
    (pre ++ post).insertIdx pre.length x = pre ++ x :: post := by
  induction pre with
  | nil => rfl
  | cons a pre ih => simp [List.insertIdx_succ_cons, ih]

section Sorted

variable {α κ : Type*} {r : κ → κ → Prop} {key : α → κ}

def SortedBy (r : κ → κ → Prop) (key : α → κ) (xs : List α) : Prop :=
  xs.Pairwise fun a b => r (key a) (key b)

theorem SortedBy.nil : SortedBy r key [] := List.Pairwise.nil

/-- `pre ++ post` is sorted and has room for the key `k` between `pre` and `post`. -/
structure Gap (r : κ → κ → Prop) (key : α → κ) (k : κ) (pre post : List α) : Prop where
  sorted : SortedBy r key (pre ++ post)
  before : ∀ a ∈ pre, r (key a) k
  after : ∀ b ∈ post, r k (key b)

variable {k : κ} {p : α → Bool} {xs pre post : List α}

theorem Gap.sorted_insert (h : Gap r key k pre post) {x : α} (hx : key x = k) :
    SortedBy r key (pre ++ x :: post) := by
  subst hx
  obtain ⟨hpre, hpost, hcross⟩ := List.pairwise_append.mp h.sorted
  refine List.pairwise_append.mpr ⟨hpre, List.pairwise_cons.mpr ⟨h.after, hpost⟩, ?_⟩
  intro a ha b hb
  rcases List.mem_cons.mp hb with rfl | hb
  · exact h.before a ha
  · exact hcross a ha b hb

variable [IsStrictTotalOrder κ r]

theorem Gap.key_ne (h : Gap r key k pre post) {y : α} (hy : y ∈ pre ++ post) : key y ≠ k := by
  rintro rfl
  rcases List.mem_append.mp hy with hy | hy
  · exact irrefl_of r _ (h.before y hy)
  · exact irrefl_of r _ (h.after y hy)

/-- The gap of `k` stands around its only entry. -/
theorem Gap.split (h : Gap r key k pre post)
    (hxs : (∃ b, key b = k ∧ xs = pre ++ b :: post) ∨ xs = pre ++ post) {x : α} (hx : key x = k)
    {front back : List α} (hsplit : xs = front ++ x :: back) : pre = front ∧ post = back := by
  rcases hxs with ⟨b, _, rfl⟩ | rfl
  · have hbefore : x ∉ pre := fun hmem => h.key_ne (List.mem_append_left _ hmem) hx
    have hafter : x ∉ post := fun hmem => h.key_ne (List.mem_append_right _ hmem) hx
    obtain ⟨hpre, _, hpost⟩ := (List.append_cons_inj_of_notMem hbefore hafter).mp hsplit
    exact ⟨hpre, hpost⟩
  · exact absurd hx (h.key_ne (by rw [hsplit]; simp))

/-- The test a binary search for `k` makes partitions a sorted list. -/
theorem SortedBy.partitioned (h : SortedBy r key xs)
    (hp : ∀ x ∈ xs, p x = true ↔ r (key x) k) : Partitioned p xs := by
  refine List.Pairwise.imp_of_mem ?_ h
  intro a b ha hb hab hpb
  exact (hp a ha).mpr (trans_of r hab ((hp b hb).mp hpb))

/-- A binary search for `k` ends at the gap of `k`, with the entry of `k`, if any, right there. -/
theorem SortedBy.find (h : SortedBy r key xs) (hp : ∀ x ∈ xs, p x = true ↔ r (key x) k) :
    ∃ pre post, lowerBound p xs = pre.length ∧ Gap r key k pre post ∧
      ((∃ b, key b = k ∧ xs = pre ++ b :: post) ∨ xs = pre ++ post) := by
  have hpart := h.partitioned hp
  have happ := List.takeWhile_append_dropWhile (p := p) (l := xs)
  have hbefore : ∀ a ∈ xs.takeWhile p, r (key a) k := fun a ha =>
    (hp a ((List.takeWhile_prefix p).subset ha)).mp (List.mem_takeWhile_imp ha)
  have hnot : ∀ b ∈ xs.dropWhile p, ¬ r (key b) k := by
    intro b hb hr
    rw [← hp b ((List.dropWhile_suffix p).subset hb), partitioned_dropWhile hpart b hb] at hr
    cases hr
  rw [← happ] at h
  obtain ⟨hpre, hpost, hcross⟩ := List.pairwise_append.mp h
  cases hd : xs.dropWhile p with
  | nil =>
    rw [hd] at happ
    refine ⟨xs.takeWhile p, [], lowerBound_eq hpart, ⟨?_, hbefore, by simp⟩, .inr happ.symm⟩
    simpa [SortedBy] using hpre
  | cons b post =>
    rw [hd] at happ hnot hpost h
    obtain ⟨hb, hpost'⟩ := List.pairwise_cons.mp hpost
    rcases trichotomous_of r (key b) k with hlt | heq | hgt
    · exact absurd hlt (hnot b List.mem_cons_self)
    · refine ⟨xs.takeWhile p, post, lowerBound_eq hpart, ⟨?_, hbefore, ?_⟩, .inl ⟨b, heq, happ.symm⟩⟩
      · exact h.sublist (List.Sublist.append_left (List.sublist_cons_self b post) _)
      · rwa [← heq]
    · refine ⟨xs.takeWhile p, b :: post, lowerBound_eq hpart, ⟨h, hbefore, ?_⟩, .inr happ.symm⟩
      intro c hc
      rcases List.mem_cons.mp hc with rfl | hc
      · exact hgt
      · exact trans_of r hgt (hb c hc)

/-- The entries outside the gap of `k` are the entries of the other keys. -/
theorem Gap.mem_iff (h : Gap r key k pre post)
    (hxs : (∃ b, key b = k ∧ xs = pre ++ b :: post) ∨ xs = pre ++ post) {y : α} :
    y ∈ pre ++ post ↔ y ∈ xs ∧ key y ≠ k := by
  constructor
  · intro hy
    refine ⟨?_, h.key_ne hy⟩
    rcases hxs with ⟨b, _, rfl⟩ | rfl
    · rcases List.mem_append.mp hy with hy | hy
      · exact List.mem_append_left _ hy
      · exact List.mem_append_right _ (List.mem_cons_of_mem _ hy)
    · exact hy
  · rintro ⟨hy, hne⟩
    rcases hxs with ⟨b, hb, rfl⟩ | rfl
    · rcases List.mem_append.mp hy with hy | hy
      · exact List.mem_append_left _ hy
      · rcases List.mem_cons.mp hy with rfl | hy
        · exact absurd hb hne
        · exact List.mem_append_right _ hy
    · exact hy

end Sorted

end Lib
end PerpCarry
