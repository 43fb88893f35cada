import Mathlib.Data.List.Basic

/-!
# Lib.Emitter

A process that looks at each event, may give something out, and only then takes the event in.

* `emit_position`: what is given out at an event carries the event's position.
* `emit_sound`: it was found in a state that has taken in exactly the events before.
* `emit_causal`: if looking at an event sees no more than `view` of it, then what is given out up to
  an event depends on the events before it and on the view of this one (`SameUpTo`).
-/

namespace PerpCarry
namespace Lib

/-- What looking at an event leads to. -/
inductive Look (ε β σ : Type) where
  | stop
  | fail (e : ε)
  | go (out : Option β) (s : σ)

section Emitter

variable {σ α β ε : Type} (look : σ → α → Look ε β σ) (absorb : σ → α → Except ε σ)

/-- Everything given out, with the position of its event, and how the process ended. -/
def emit : σ → Nat → List α → List (Nat × β) × Except ε Unit
  | _, _, [] => ([], .ok ())
  | s, i, a :: as =>
    match look s a with
    | .stop => ([], .ok ())
    | .fail e => ([], .error e)
    | .go out s' =>
      let rest := match absorb s' a with
        | .ok t => emit t (i + 1) as
        | .error e => ([], .error e)
      (out.toList.map (i, ·) ++ rest.1, rest.2)

/-- What comes after the first event has been looked at. -/
def emitRest (s : σ) (i : Nat) (a : α) (as : List α) : List (Nat × β) × Except ε Unit :=
  match absorb s a with
  | .ok t => emit look absorb t (i + 1) as
  | .error e => ([], .error e)

variable {look absorb} {s s' : σ} {i : Nat} {a : α} {as : List α} {out : Option β}

theorem emit_go (h : look s a = .go out s') :
    (emit look absorb s i (a :: as)).1 =
      out.toList.map (i, ·) ++ (emitRest look absorb s' i a as).1 := by
  simp only [emit, h, emitRest]

theorem emit_halted (h : ∀ out s', look s a ≠ .go out s') :
    (emit look absorb s i (a :: as)).1 = [] := by
  unfold emit
  split
  · rfl
  · rfl
  · rename_i hgo
    exact absurd hgo (h _ _)

theorem go_or_halted (look : σ → α → Look ε β σ) (s : σ) (a : α) :
    (∃ out s', look s a = .go out s') ∨ ∀ out s', look s a ≠ .go out s' := by
  cases look s a with
  | stop => exact .inr fun _ _ h => nomatch h
  | fail e => exact .inr fun _ _ h => nomatch h
  | go out s' => exact .inl ⟨out, s', rfl⟩

theorem emit_position : ∀ y ∈ (emit look absorb s i as).1, i ≤ y.1 := by
  induction as generalizing s i with
  | nil => simp [emit]
  | cons a as ih =>
    intro y hy
    rcases go_or_halted look s a with ⟨out, s', hlook⟩ | hhalted
    · rw [emit_go hlook] at hy
      rcases List.mem_append.mp hy with hout | hrest
      · obtain ⟨b, _, rfl⟩ := List.mem_map.mp hout
        exact Nat.le_refl _
      · unfold emitRest at hrest
        split at hrest
        · exact Nat.le_of_succ_le (ih y hrest)
        · cases hrest
    · rw [emit_halted hhalted] at hy
      cases hy

theorem emitRest_position : ∀ y ∈ (emitRest look absorb s i a as).1, i < y.1 := by
  intro y hy
  unfold emitRest at hy
  split at hy
  · exact emit_position y hy
  · cases hy

/-- What is given out at an event was found by looking at it in a state that has taken in the events
before it, and no other. -/
theorem emit_sound (Holds : List α → σ → Prop)
    (hlook : ∀ past s a out s', Holds past s → look s a = .go out s' → Holds past s')
    (habsorb : ∀ past s a s', Holds past s → absorb s a = .ok s' → Holds (past ++ [a]) s')
    (past : List α) (h : Holds past s) :
    ∀ y ∈ (emit look absorb s past.length as).1, ∃ a t t', (past ++ as)[y.1]? = some a ∧
      Holds ((past ++ as).take y.1) t ∧ look t a = .go (some y.2) t' := by
  induction as generalizing s past with
  | nil => simp [emit]
  | cons a as ih =>
    intro y hy
    rcases go_or_halted look s a with ⟨out, s', hgo⟩ | hhalted
    · rw [emit_go hgo] at hy
      rcases List.mem_append.mp hy with hout | hrest
      · obtain ⟨b, hb, rfl⟩ := List.mem_map.mp hout
        rw [Option.mem_toList] at hb
        cases hb
        exact ⟨a, s, s', by simp, by simpa using h, hgo⟩
      · unfold emitRest at hrest
        split at hrest
        · rename_i t habs
          have hpast : (past ++ [a]).length = past.length + 1 := by simp
          rw [← hpast] at hrest
          have hnext := ih (past ++ [a]) (habsorb past s' a t (hlook past s a out s' h hgo) habs) y
            hrest
          rwa [List.append_assoc, List.singleton_append] at hnext
        · cases hrest
    · rw [emit_halted hhalted] at hy
      cases hy

/-- Nothing given out up to position `n` tells the two lists apart. -/
structure SameUpTo (n : Nat) (ys zs : List (Nat × β)) : Prop where
  shared : ∃ shared later later', ys = shared ++ later ∧ zs = shared ++ later' ∧
    (∀ y ∈ shared, y.1 ≤ n) ∧ (∀ y ∈ later, n < y.1) ∧ ∀ z ∈ later', n < z.1

theorem SameUpTo.append {n : Nat} {front ys zs : List (Nat × β)} (h : SameUpTo n ys zs)
    (hfront : ∀ y ∈ front, y.1 ≤ n) : SameUpTo n (front ++ ys) (front ++ zs) := by
  obtain ⟨shared, later, later', rfl, rfl, hshared, hlater, hlater'⟩ := h.shared
  refine ⟨front ++ shared, later, later', by simp, by simp, ?_, hlater, hlater'⟩
  intro y hy
  rcases List.mem_append.mp hy with hy | hy
  · exact hfront y hy
  · exact hshared y hy

theorem SameUpTo.refl_nil (n : Nat) : SameUpTo n ([] : List (Nat × β)) [] :=
  ⟨[], [], [], rfl, rfl, by simp, by simp, by simp⟩

theorem emit_causal {κ : Type} {view : α → κ}
    (hview : ∀ s x y, view x = view y → look s x = look s y) (past : List α) {x y : α}
    {xs ys : List α} (h : view x = view y) :
    SameUpTo (i + past.length) (emit look absorb s i (past ++ x :: xs)).1
      (emit look absorb s i (past ++ y :: ys)).1 := by
  induction past generalizing s i with
  | nil =>
    have hsame := hview s x y h
    simp only [List.nil_append, List.length_nil, Nat.add_zero]
    rcases go_or_halted look s x with ⟨out, s', hlook⟩ | hhalted
    · rw [emit_go hlook, emit_go (hsame ▸ hlook)]
      refine ⟨_, _, _, rfl, rfl, ?_, emitRest_position, emitRest_position⟩
      intro z hz
      obtain ⟨b, _, rfl⟩ := List.mem_map.mp hz
      exact Nat.le_refl _
    · rw [emit_halted hhalted, emit_halted (hsame ▸ hhalted)]
      exact .refl_nil i
  | cons a past ih =>
    simp only [List.cons_append]
    rcases go_or_halted look s a with ⟨out, s', hlook⟩ | hhalted
    · rw [emit_go hlook, emit_go hlook]
      have hout : ∀ z ∈ out.toList.map (i, ·), z.1 ≤ i + (a :: past).length := by
        intro z hz
        obtain ⟨b, _, rfl⟩ := List.mem_map.mp hz
        exact Nat.le_add_right _ _
      refine SameUpTo.append ?_ hout
      unfold emitRest
      cases absorb s' a with
      | ok t =>
        have hlength : i + (a :: past).length = i + 1 + past.length := by
          rw [List.length_cons]
          omega
        rw [hlength]
        exact ih
      | error e => exact .refl_nil _
    · rw [emit_halted hhalted, emit_halted hhalted]
      exact .refl_nil _

/-- The same of two lists that agree before position `n`. -/
theorem emit_causal_at {κ : Type} {view : α → κ}
    (hview : ∀ s x y, view x = view y → look s x = look s y) {as bs : List α} {n : Nat} {x y : α}
    (hpast : as.take n = bs.take n) (hx : as[n]? = some x) (hy : bs[n]? = some y)
    (h : view x = view y) :
    SameUpTo n (emit look absorb s 0 as).1 (emit look absorb s 0 bs).1 := by
  obtain ⟨hn, rfl⟩ := List.getElem?_eq_some_iff.mp hx
  obtain ⟨hn', rfl⟩ := List.getElem?_eq_some_iff.mp hy
  have has : as.take n ++ as[n] :: as.drop (n + 1) = as := by simp
  have hbs : as.take n ++ bs[n] :: bs.drop (n + 1) = bs := by simp [hpast]
  have hcausal : SameUpTo (0 + (as.take n).length)
      (emit look absorb s 0 (as.take n ++ as[n] :: as.drop (n + 1))).1
      (emit look absorb s 0 (as.take n ++ bs[n] :: bs.drop (n + 1))).1 := emit_causal hview _ h
  rwa [has, hbs, Nat.zero_add, List.length_take, Nat.min_eq_left (Nat.le_of_lt hn)] at hcausal

end Emitter

end Lib
end PerpCarry
