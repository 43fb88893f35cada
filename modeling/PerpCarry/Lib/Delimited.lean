import Mathlib.Data.List.Basic

/-!
# Lib.Delimited

Parts that a delimiter ends.

* `delimited_inj`: what stands before the first delimiter, and what after it.
* `terminated_injective`: the parts, each ended by the delimiter, are found again.
-/

namespace PerpCarry
namespace Lib

variable {α : Type} {delimiter : α}

theorem delimited_inj {part part' rest rest' : List α} (h : delimiter ∉ part)
    (h' : delimiter ∉ part')
    (heq : part ++ delimiter :: rest = part' ++ delimiter :: rest') :
    part = part' ∧ rest = rest' := by
  induction part generalizing part' with
  | nil =>
    cases part' with
    | nil =>
      simp only [List.nil_append, List.cons.injEq, true_and] at heq
      exact ⟨rfl, heq⟩
    | cons b part' =>
      simp only [List.nil_append, List.cons_append, List.cons.injEq] at heq
      exact absurd (by simp [heq.1]) h'
  | cons a part ih =>
    cases part' with
    | nil =>
      simp only [List.nil_append, List.cons_append, List.cons.injEq] at heq
      exact absurd (by simp [heq.1]) h
    | cons b part' =>
      simp only [List.cons_append, List.cons.injEq] at heq
      simp only [List.mem_cons, not_or] at h h'
      obtain ⟨hpart, hrest⟩ := ih h.2 h'.2 heq.2
      exact ⟨by rw [heq.1, hpart], hrest⟩

/-- The parts, each with the delimiter behind it. -/
def terminated (delimiter : α) (parts : List (List α)) : List α :=
  parts.flatMap fun part => part ++ [delimiter]

@[simp] theorem terminated_nil : terminated delimiter [] = [] := rfl

@[simp] theorem terminated_cons (part : List α) (parts : List (List α)) :
    terminated delimiter (part :: parts) = part ++ delimiter :: terminated delimiter parts := by
  simp [terminated]

@[simp] theorem terminated_append (parts parts' : List (List α)) :
    terminated delimiter (parts ++ parts') =
      terminated delimiter parts ++ terminated delimiter parts' :=
  List.flatMap_append

theorem terminated_injective {parts parts' : List (List α)}
    (h : ∀ part ∈ parts, delimiter ∉ part) (h' : ∀ part ∈ parts', delimiter ∉ part)
    (heq : terminated delimiter parts = terminated delimiter parts') : parts = parts' := by
  induction parts generalizing parts' with
  | nil =>
    cases parts' with
    | nil => rfl
    | cons part' parts' => simp at heq
  | cons part parts ih =>
    cases parts' with
    | nil => simp at heq
    | cons part' parts' =>
      obtain ⟨hpart, hparts⟩ := List.forall_mem_cons.mp h
      obtain ⟨hpart', hparts'⟩ := List.forall_mem_cons.mp h'
      rw [terminated_cons, terminated_cons] at heq
      obtain ⟨hsame, hrest⟩ := delimited_inj hpart hpart' heq
      rw [hsame, ih hparts hparts' hrest]

end Lib
end PerpCarry
