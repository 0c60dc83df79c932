import Mathlib.Tactic.Basic

/-!
# Runs of a transition system

A system is a step relation labelled with events. A `Run` is a list of
events taken one after the other; the labels stay visible, so a property of
a run can be stated about the list. An invariant is proved per step, once,
and `Run.invariant` carries it to every state reached. Where a system keeps
an invariant only while some condition on its steps is met, the condition
goes into the step relation with `Guarded`.
-/

namespace TailscaleRust.Lib

section Run

variable {σ α : Type}

/-- The events in the list, taken in order, lead from one state to another. -/
inductive Run (step : σ → α → σ → Prop) : σ → List α → σ → Prop
  | nil {s : σ} : Run step s [] s
  | cons {s t u : σ} {a : α} {as : List α} :
      step s a t → Run step t as u → Run step s (a :: as) u

/-- The step relation restricted to the steps that meet a condition on the
state they start from. -/
def Guarded (ok : σ → α → Prop) (step : σ → α → σ → Prop) : σ → α → σ → Prop :=
  fun s a t => ok s a ∧ step s a t

variable {step : σ → α → σ → Prop}

theorem Run.invariant {P : σ → Prop} {s t : σ} {as : List α}
    (h : Run step s as t) (hs : P s)
    (hstep : ∀ {s a t}, P s → step s a t → P t) : P t := by
  induction h with
  | nil => exact hs
  | cons h1 _ ih => exact ih (hstep hs h1)

/-- An invariant that also speaks of the events so far. -/
theorem Run.history {P : List α → σ → Prop} {s t : σ} {as : List α}
    (h : Run step s as t) (hs : P [] s)
    (hstep : ∀ {as s a t}, P as s → step s a t → P (as ++ [a]) t) : P as t := by
  have hgen : ∀ past, P past s → P (past ++ as) t := by
    clear hs
    induction h with
    | nil =>
        intro past hs
        rwa [List.append_nil]
    | @cons _ _ _ a as h1 _ ih =>
        intro past hs
        have ht := ih (past ++ [a]) (hstep hs h1)
        rwa [List.append_assoc] at ht
  exact hgen [] hs

/-- One more step. -/
theorem Run.snoc {s t u : σ} {as : List α} {a : α} (h : Run step s as t) (hstep : step t a u) :
    Run step s (as ++ [a]) u := by
  induction h with
  | nil => exact .cons hstep .nil
  | cons h1 _ ih => exact .cons h1 (ih hstep)

theorem Run.append {s t u : σ} {as bs : List α} (h : Run step s as t) (h' : Run step t bs u) :
    Run step s (as ++ bs) u := by
  induction h with
  | nil => exact h'
  | cons h1 _ ih => exact .cons h1 (ih h')

/-- Where every event can be taken, every list of events can. -/
theorem exists_run (hstep : ∀ s a, ∃ t, step s a t) (s : σ) (as : List α) :
    ∃ t, Run step s as t := by
  induction as generalizing s with
  | nil => exact ⟨s, .nil⟩
  | cons a as ih =>
      obtain ⟨t, ht⟩ := hstep s a
      obtain ⟨u, hu⟩ := ih t
      exact ⟨u, .cons ht hu⟩

/-- A run is one of every system that has its steps. -/
theorem Run.mono {step' : σ → α → σ → Prop} {s t : σ} {as : List α} (h : Run step s as t)
    (hsub : ∀ {s a t}, step s a t → step' s a t) : Run step' s as t := by
  induction h with
  | nil => exact .nil
  | cons h1 _ ih => exact .cons (hsub h1) ih

/-- A run that meets a condition is a run. -/
theorem Run.unguarded {ok : σ → α → Prop} {s t : σ} {as : List α}
    (h : Run (Guarded ok step) s as t) : Run step s as t := h.mono And.right

/-- The step relation restricted to the steps that lead to a state with a
property: its runs are those that have the property throughout. -/
def Keeping (P : σ → Prop) (step : σ → α → σ → Prop) : σ → α → σ → Prop :=
  fun s a t => P t ∧ step s a t

/-- A condition that, in states with an invariant, is met exactly by the
steps that keep a property is met exactly by the runs that have the property
throughout. -/
theorem run_guarded_iff_keeping {ok : σ → α → Prop} {I P : σ → Prop}
    (hinv : ∀ {s a t}, I s → step s a t → I t)
    (hstep : ∀ {s a t}, I s → P s → step s a t → (ok s a ↔ P t)) {s t : σ} {as : List α}
    (hI : I s) (hs : P s) :
    Run (Guarded ok step) s as t ↔ Run (Keeping P step) s as t := by
  refine ⟨?_, ?_⟩
  · intro h
    induction h with
    | nil => exact .nil
    | cons h1 _ ih =>
        have ht := (hstep hI hs h1.2).mp h1.1
        exact .cons ⟨ht, h1.2⟩ (ih (hinv hI h1.2) ht)
  · intro h
    induction h with
    | nil => exact .nil
    | cons h1 _ ih =>
        exact .cons ⟨(hstep hI hs h1.2).mpr h1.1, h1.2⟩ (ih (hinv hI h1.2) h1.1)

/-- The last state of such a run has the property. -/
theorem Run.keeps {P : σ → Prop} {s t : σ} {as : List α} (h : Run (Keeping P step) s as t)
    (hs : P s) : P t :=
  h.invariant hs fun _ hstep => hstep.1

/-! ## Runs that can be evaluated

For a step function with a decidable condition, one evaluation yields both
the last state and the run that leads to it. -/

/-- Take the steps while the check passes and the step is possible. -/
def evalRun (ok : σ → α → Bool) (step : σ → α → Option σ) : σ → List α → Option σ
  | s, [] => some s
  | s, a :: as => if ok s a then (step s a).bind fun t => evalRun ok step t as else none

theorem run_of_evalRun {ok : σ → α → Bool} {good : σ → α → Prop} {step : σ → α → Option σ}
    (hok : ∀ s a, ok s a = true → good s a) {s t : σ} {as : List α}
    (h : evalRun ok step s as = some t) :
    Run (Guarded good fun s a t => step s a = some t) s as t := by
  induction as generalizing s with
  | nil =>
      cases h
      exact .nil
  | cons a as ih =>
      rw [evalRun] at h
      split at h
      · next hgood =>
          obtain ⟨u, hstep, hrest⟩ := Option.bind_eq_some_iff.mp h
          exact .cons ⟨hok s a hgood, hstep⟩ (ih hrest)
      · cases h

/-- The same, with a check of the last state. -/
theorem exists_run_of_evalRun {ok : σ → α → Bool} {step : σ → α → Option σ} {check : σ → Bool}
    {s : σ} {as : List α} (h : (evalRun ok step s as).any check = true) :
    ∃ t, Run (Guarded (fun s a => ok s a = true) fun s a t => step s a = some t) s as t ∧
      check t = true := by
  obtain ⟨t, ht, hcheck⟩ := (Option.any_eq_true ..).mp h
  exact ⟨t, run_of_evalRun (fun _ _ h => h) ht, hcheck⟩

end Run

end TailscaleRust.Lib
