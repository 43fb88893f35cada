import Mathlib.Data.List.Basic
import Mathlib.Data.List.Chain
import Mathlib.Data.List.Forall2

/-!
# Lib.EventRun

A state folded over a list of events by a step that can refuse an event.

* `mapM_of_ok`, `ok_of_mapM`, `mapM_ok_iff`: a list on which a fallible function succeeds.
* `run_append`: a run over two lists is the run over the first, then over the second.
* `run_map`: a map of states that every step commutes with commutes with the run.
* `run_history`: a property of the events so far and the state, true at the start and kept by every
  accepted step, is true at the end of every accepted run.
* `run_progress`: if it also makes every step accepted, then every run is.
* `run_pair`: the same for two runs over the same events.
* `run_accepts`: which lists are accepted, when a step looks back at one event only.
-/

namespace PerpCarry
namespace Lib

variable {σ α ε : Type}

theorem map_ok {α β : Type} {x : Except ε α} {f : α → β} {b : β} :
    x.map f = .ok b ↔ ∃ a, x = .ok a ∧ f a = b := by
  cases x with
  | error e => simp [Except.map]
  | ok a => simp [Except.map]

theorem map_error {α β : Type} {x : Except ε α} {f : α → β} {e : ε} :
    x.map f = .error e ↔ x = .error e := by
  cases x with
  | error e' => simp [Except.map]
  | ok a => simp [Except.map]

theorem mapError_ok {ε' : Type} {f : ε → ε'} {x : Except ε α} {a : α} :
    x.mapError f = .ok a ↔ x = .ok a := by
  cases x with
  | error e => simp [Except.mapError]
  | ok b => simp [Except.mapError]

/-- `if bad: raise e`. -/
def refuse (bad : Prop) [Decidable bad] (e : ε) : Except ε Unit :=
  if bad then .error e else .ok ()

@[simp] theorem refuse_ok {bad : Prop} [Decidable bad] {e : ε} {x : Unit} :
    refuse bad e = .ok x ↔ ¬ bad := by
  unfold refuse
  split
  · simp [*]
  · simp [*]

/-- A list on which a fallible function succeeds. -/
theorem mapM_of_ok {α β : Type} {f : α → Except ε β} {g : α → β} {xs : List α}
    (h : ∀ x ∈ xs, f x = .ok (g x)) : xs.mapM f = .ok (xs.map g) := by
  induction xs with
  | nil => rfl
  | cons x xs ih =>
    obtain ⟨hx, hxs⟩ := List.forall_mem_cons.mp h
    rw [List.mapM_cons, hx, ih hxs]
    rfl

theorem ok_of_mapM {α β : Type} {f : α → Except ε β} {xs : List α} {ys : List β}
    (h : xs.mapM f = .ok ys) : ∀ x ∈ xs, ∃ y, f x = .ok y := by
  induction xs generalizing ys with
  | nil => exact nofun
  | cons x xs ih =>
    rw [List.mapM_cons] at h
    cases hx : f x with
    | error e => rw [hx] at h; cases h
    | ok y =>
      cases hxs : xs.mapM f with
      | error e => rw [hx, hxs] at h; cases h
      | ok zs => exact List.forall_mem_cons.mpr ⟨⟨y, hx⟩, ih hxs⟩

theorem exists_of_forall₂_left {α β : Type} {r : α → β → Prop} {xs : List α} {ys : List β}
    (h : List.Forall₂ r xs ys) {x : α} (hx : x ∈ xs) : ∃ y ∈ ys, r x y := by
  obtain ⟨i, hi, rfl⟩ := List.getElem_of_mem hx
  exact ⟨_, List.getElem_mem (h.length_eq ▸ hi), h.get hi (h.length_eq ▸ hi)⟩

theorem exists_of_forall₂_right {α β : Type} {r : α → β → Prop} {xs : List α} {ys : List β}
    (h : List.Forall₂ r xs ys) {y : β} (hy : y ∈ ys) : ∃ x ∈ xs, r x y := by
  obtain ⟨i, hi, rfl⟩ := List.getElem_of_mem hy
  exact ⟨_, List.getElem_mem (h.length_eq ▸ hi), h.get (h.length_eq ▸ hi) hi⟩

theorem mapM_ok_iff {α β : Type} {f : α → Except ε β} {xs : List α} {ys : List β} :
    xs.mapM f = .ok ys ↔ List.Forall₂ (fun x y => f x = .ok y) xs ys := by
  induction xs generalizing ys with
  | nil => simp [pure, Except.pure, eq_comm]
  | cons x xs ih =>
    rw [List.mapM_cons, List.forall₂_cons_left_iff]
    cases hx : f x with
    | error e => simp [bind, Except.bind]
    | ok y =>
      cases hxs : xs.mapM f with
      | error e => simp [bind, Except.bind, ← ih, hxs]
      | ok zs => simp [bind, Except.bind, pure, Except.pure, ← ih, hxs, eq_comm]

/-- The state after all the events, or the refusal of the first one refused. -/
def run (step : σ → α → Except ε σ) (s : σ) : List α → Except ε σ
  | [] => .ok s
  | e :: es =>
    match step s e with
    | .ok s' => run step s' es
    | .error err => .error err

variable {step : σ → α → Except ε σ} {s s' : σ} {es : List α}

@[simp] theorem run_nil : run step s [] = .ok s := rfl

theorem run_cons_ok {e : α} :
    run step s (e :: es) = .ok s' ↔ ∃ t, step s e = .ok t ∧ run step t es = .ok s' := by
  cases h : step s e <;> simp [run, h]

theorem run_append {front back : List α} :
    run step s (front ++ back) = (run step s front).bind fun t => run step t back := by
  induction front generalizing s with
  | nil => rfl
  | cons e es ih =>
    simp only [List.cons_append, run]
    cases step s e with
    | ok t => exact ih
    | error err => rfl

theorem run_map {f : σ → σ} (hf : ∀ e ∈ es, ∀ s, step (f s) e = (step s e).map f) (s : σ) :
    run step (f s) es = (run step s es).map f := by
  induction es generalizing s with
  | nil => rfl
  | cons e es ih =>
    simp only [run, hf e (by simp) s]
    cases step s e with
    | ok t => exact ih (fun e he => hf e (by simp [he])) t
    | error err => rfl

theorem run_history (Holds : List α → σ → Prop)
    (keep : ∀ past s e s', Holds past s → step s e = .ok s' → Holds (past ++ [e]) s')
    (past : List α) (h : Holds past s) (hrun : run step s es = .ok s') : Holds (past ++ es) s' := by
  induction es generalizing s past with
  | nil =>
    obtain rfl : s = s' := by simpa using hrun
    simpa using h
  | cons e es ih =>
    obtain ⟨t, hstep, hrest⟩ := run_cons_ok.mp hrun
    have := ih (past ++ [e]) (keep past s e t h hstep) hrest
    rwa [List.append_assoc] at this

theorem run_progress (Holds : List α → σ → Prop)
    (keep : ∀ e ∈ es, ∀ past s, Holds past s →
      ∃ s', step s e = .ok s' ∧ Holds (past ++ [e]) s')
    (past : List α) (h : Holds past s) : ∃ s', run step s es = .ok s' ∧ Holds (past ++ es) s' := by
  induction es generalizing s past with
  | nil => exact ⟨s, rfl, by simpa using h⟩
  | cons e es ih =>
    obtain ⟨t, hstep, ht⟩ := keep e (by simp) past s h
    obtain ⟨s', hrun, hs'⟩ := ih (fun e he => keep e (by simp [he])) (past ++ [e]) ht
    exact ⟨s', run_cons_ok.mpr ⟨t, hstep, hrun⟩, by simpa using hs'⟩

theorem run_list_map {β : Type} (f : β → α) (es : List β) (s : σ) :
    run step s (es.map f) = run (fun s e => step s (f e)) s es := by
  induction es generalizing s with
  | nil => rfl
  | cons e es ih =>
    simp only [List.map_cons, run]
    cases step s (f e) with
    | ok t => exact ih t
    | error err => rfl

theorem run_pair {τ : Type} {step' : τ → α → Except ε τ} {t : τ} (Holds : List α → σ → τ → Prop)
    (keep : ∀ e ∈ es, ∀ past s t, Holds past s t →
      ∃ s' t', step s e = .ok s' ∧ step' t e = .ok t' ∧ Holds (past ++ [e]) s' t')
    (past : List α) (h : Holds past s t) :
    ∃ s' t', run step s es = .ok s' ∧ run step' t es = .ok t' ∧ Holds (past ++ es) s' t' := by
  induction es generalizing s t past with
  | nil => exact ⟨s, t, rfl, rfl, by simpa using h⟩
  | cons e es ih =>
    obtain ⟨s₁, t₁, hs, ht, h₁⟩ := keep e (by simp) past s t h
    obtain ⟨s', t', hrun, hrun', h'⟩ := ih (fun e he => keep e (by simp [he])) (past ++ [e]) h₁
    exact ⟨s', t', run_cons_ok.mpr ⟨s₁, hs, hrun⟩, run_cons_ok.mpr ⟨t₁, ht, hrun'⟩, by simpa using h'⟩

/-- A run raises what one of its steps raises. -/
theorem run_error {err : ε} (h : run step s es = .error err) :
    ∃ t, ∃ e ∈ es, step t e = .error err := by
  induction es generalizing s with
  | nil => cases h
  | cons e es ih =>
    unfold run at h
    split at h
    · obtain ⟨t, e', hmem, herr⟩ := ih h
      exact ⟨t, e', List.mem_cons_of_mem _ hmem, herr⟩
    · rename_i herr
      cases h
      exact ⟨s, e, List.mem_cons_self, herr⟩

/-- A step that looks at its event and at the key of the event before it accepts a list if and only
if it would accept each event and each pair of neighbours. -/
theorem run_accepts {β : Type} (view : σ → Option β) (key : α → β) {P : α → Prop}
    {r : β → α → Prop} (hstep : ∀ s e, (∃ s', step s e = .ok s') ↔ P e ∧ ∀ b ∈ view s, r b e)
    (hview : ∀ s e s', step s e = .ok s' → view s' = some (key e)) :
    (∃ s', run step s es = .ok s') ↔ (∀ e ∈ es, P e) ∧ (∀ b ∈ view s, ∀ e ∈ es.head?, r b e) ∧
      es.IsChain fun a e => r (key a) e := by
  induction es generalizing s with
  | nil => simp
  | cons e es ih =>
    constructor
    · rintro ⟨s', hrun⟩
      obtain ⟨t, ht, hrest⟩ := run_cons_ok.mp hrun
      obtain ⟨hP, hr⟩ := (hstep s e).mp ⟨t, ht⟩
      obtain ⟨hall, hnext, hchain⟩ := ih.mp ⟨s', hrest⟩
      refine ⟨List.forall_mem_cons.mpr ⟨hP, hall⟩, ?_, List.isChain_cons.mpr ⟨?_, hchain⟩⟩
      · rintro b hb _ ⟨⟩
        exact hr b hb
      · exact fun next hmem => hnext (key e) (hview s e t ht) next hmem
    · rintro ⟨hall, hfirst, hchain⟩
      obtain ⟨hP, hall⟩ := List.forall_mem_cons.mp hall
      obtain ⟨hnext, hchain⟩ := List.isChain_cons.mp hchain
      obtain ⟨t, ht⟩ := (hstep s e).mpr ⟨hP, fun b hb => hfirst b hb e rfl⟩
      have hrest : ∃ s', run step t es = .ok s' := by
        refine ih.mpr ⟨hall, fun b hb next hmem => ?_, hchain⟩
        rw [hview s e t ht] at hb
        cases hb
        exact hnext next hmem
      obtain ⟨s', hs'⟩ := hrest
      exact ⟨s', run_cons_ok.mpr ⟨t, ht, hs'⟩⟩

end Lib
end PerpCarry
