import Mathlib.Data.List.DropRight
import TailscaleRust.Lib.Run

/-!
# Failures in a row

Things are tried again and again, and each has a counter: a failure raises it,
a success clears it, and what has failed `cap` times in a row is given up. So
along a run a counter is the number of failures at the end of the results of
its own tries, and these never go on behind `cap` failures.
-/

namespace TailscaleRust.Lib.Strikes

/-- The failures at the end of some results. -/
def inARow (results : List Bool) : Nat := (results.rtakeWhile fun ok => !ok).length

theorem inARow_concat (results : List Bool) (ok : Bool) :
    inARow (results ++ [ok]) = if ok then 0 else inARow results + 1 := by
  rw [inARow, List.rtakeWhile_concat]
  cases ok with
  | false => exact List.length_append
  | true => rfl

/-- No try follows `cap` failures in a row. -/
def GivesUp (cap : Nat) (results : List Bool) : Prop :=
  ∀ before ok rest, results = before ++ ok :: rest → inARow before < cap

theorem givesUp_nil (cap : Nat) : GivesUp cap [] := by
  intro before ok rest h
  exact absurd h.symm (List.append_ne_nil_of_right_ne_nil _ (List.cons_ne_nil ok rest))

theorem GivesUp.concat {cap : Nat} {results : List Bool} (h : GivesUp cap results)
    (hlt : inARow results < cap) (ok : Bool) : GivesUp cap (results ++ [ok]) := by
  intro before ok' rest heq
  rcases List.eq_nil_or_concat rest with rfl | ⟨rest, last, rfl⟩
  · obtain ⟨rfl, -⟩ := List.append_inj' heq rfl
    exact hlt
  · rw [List.concat_eq_append, ← List.cons_append, ← List.append_assoc] at heq
    obtain ⟨hbefore, -⟩ := List.append_inj' heq rfl
    exact h before ok' rest hbefore

section Tries

variable {α : Type}

/-- One try: only of what is not given up, and it changes its own counter. -/
structure Tries (cap : Nat) (count : α → Nat) (t : α × Bool) (count' : α → Nat) : Prop where
  below : count t.1 < cap
  own : count' t.1 = if t.2 then 0 else count t.1 + 1
  other : ∀ k, k ≠ t.1 → count' k = count k

/-- What is given up stays so. -/
theorem givenUp_run {cap : Nat} {tries : List (α × Bool)} {count count' : α → Nat} {k : α}
    (h : Run (Tries cap) count tries count') (hk : cap ≤ count k) : count' k = count k := by
  refine h.invariant (P := fun c => c k = count k) rfl ?_
  intro c t c' heq hstep
  rw [← heq]
  refine hstep.other k fun hsame => ?_
  have hopen := hstep.below
  rw [← hsame, heq] at hopen
  omega

variable [DecidableEq α]

/-- The results of one thing among those of all. -/
def resultsOf (tries : List (α × Bool)) (k : α) : List Bool :=
  (tries.filter fun t => t.1 = k).map Prod.snd

theorem resultsOf_concat (tries : List (α × Bool)) (t : α × Bool) (k : α) :
    resultsOf (tries ++ [t]) k =
      if t.1 = k then resultsOf tries k ++ [t.2] else resultsOf tries k := by
  simp only [resultsOf, List.filter_append, List.filter_cons, List.filter_nil, decide_eq_true_eq]
  split
  · rw [List.map_append]
    rfl
  · rw [List.append_nil]

/-- What the counters of a run are. -/
structure Counts (cap : Nat) (tries : List (α × Bool)) (count : α → Nat) : Prop where
  counter : ∀ k, count k = inARow (resultsOf tries k)
  givesUp : ∀ k, GivesUp cap (resultsOf tries k)

theorem counts_step {cap : Nat} {tries : List (α × Bool)} {count count' : α → Nat} {t : α × Bool}
    (h : Counts cap tries count) (hstep : Tries cap count t count') :
    Counts cap (tries ++ [t]) count' := by
  refine ⟨fun k => ?_, fun k => ?_⟩
  · rw [resultsOf_concat]
    by_cases hk : t.1 = k
    · subst hk
      rw [if_pos rfl, inARow_concat, hstep.own, h.counter]
    · rw [if_neg hk, hstep.other k (Ne.symm hk), h.counter]
  · rw [resultsOf_concat]
    by_cases hk : t.1 = k
    · subst hk
      rw [if_pos rfl]
      exact (h.givesUp t.1).concat (h.counter t.1 ▸ hstep.below) t.2
    · rw [if_neg hk]
      exact h.givesUp k

theorem counts_run {cap : Nat} {tries : List (α × Bool)} {count : α → Nat}
    (h : Run (Tries cap) (fun _ => 0) tries count) : Counts cap tries count :=
  h.history ⟨fun _ => rfl, fun _ => givesUp_nil cap⟩ counts_step

end Tries

end TailscaleRust.Lib.Strikes
