import Mathlib.Tactic.Basic

/-!
# Two machines joined by queues

Two deterministic machines send each other messages over two queues that
neither lose nor reorder. Which of them takes its next message first is left
open, but it does not matter: the two steps commute, and where any two steps
from a state commute, one way to the end decides all of them. They have the
same end and the same number of steps.

So an exchange is followed along one convenient schedule, where each machine
in turn reads everything that is there for it, and the result holds of every
schedule.
-/

namespace TailscaleRust.Lib

/-! ## One end for all -/

section Diamond

variable {σ : Type}

/-- So many steps of a relation. -/
inductive StepsN (R : σ → σ → Prop) : Nat → σ → σ → Prop
  | refl {a : σ} : StepsN R 0 a a
  | head {a b c : σ} {n : Nat} : R a b → StepsN R n b c → StepsN R (n + 1) a c

variable {R : σ → σ → Prop}

theorem StepsN.trans {a b c : σ} {n m : Nat} (h : StepsN R n a b) (h' : StepsN R m b c) :
    StepsN R (n + m) a c := by
  induction h with
  | refl => rwa [Nat.zero_add]
  | @head _ _ _ n hab _ ih =>
      rw [Nat.add_right_comm]
      exact .head hab (ih h')

/-- Two different steps from a state can be joined by one more each. -/
def Diamond (R : σ → σ → Prop) : Prop :=
  ∀ a b c, R a b → R a c → b = c ∨ ∃ d, R b d ∧ R c d

/-- Any step taken is a step towards the end. -/
theorem StepsN.descend (hR : Diamond R) {a b d : σ} {n : Nat} (h : StepsN R n a d)
    (hend : ∀ x, ¬R d x) (hab : R a b) : ∃ m, n = m + 1 ∧ StepsN R m b d := by
  induction h generalizing b with
  | refl => exact absurd hab (hend b)
  | @head a c d n hac hcd ih =>
      rcases hR a b c hab hac with rfl | ⟨x, hbx, hcx⟩
      · exact ⟨n, rfl, hcd⟩
      · obtain ⟨m, rfl, hxd⟩ := ih hend hcx
        exact ⟨m + 1, rfl, .head hbx hxd⟩

/-- Every way from the start is a part of a way to the end, and no longer. -/
theorem StepsN.reaches (hR : Diamond R) {a b d : σ} {n k : Nat} (hb : StepsN R k a b)
    (h : StepsN R n a d) (hend : ∀ x, ¬R d x) : ∃ m, n = k + m ∧ StepsN R m b d := by
  induction hb generalizing n with
  | refl => exact ⟨n, (Nat.zero_add n).symm, h⟩
  | @head a c b k hac _ ih =>
      obtain ⟨m, rfl, hcd⟩ := h.descend hR hend hac
      obtain ⟨j, rfl, hbd⟩ := ih hcd
      exact ⟨j, by omega, hbd⟩

end Diamond

/-! ## The machines -/

section Duplex

variable {A B M N : Type}

/-- The two machines, and what is on its way to each. -/
structure Duplex (A B M N : Type) where
  a : A
  b : B
  toB : List M
  toA : List N

variable (stepA : A → N → List M × A) (stepB : B → M → List N × B)

/-- One of the machines takes its next message. -/
inductive Deliver : Duplex A B M N → Duplex A B M N → Prop
  | toA {a : A} {b : B} {ms : List M} {n : N} {ns : List N} :
      Deliver ⟨a, b, ms, n :: ns⟩ ⟨(stepA a n).2, b, ms ++ (stepA a n).1, ns⟩
  | toB {a : A} {b : B} {m : M} {ms : List M} {ns : List N} :
      Deliver ⟨a, b, m :: ms, ns⟩ ⟨a, (stepB b m).2, ms, ns ++ (stepB b m).1⟩

theorem deliver_diamond : Diamond (Deliver stepA stepB) := by
  intro s t u ht hu
  cases ht with
  | toA =>
      cases hu with
      | toA => exact .inl rfl
      | toB => exact .inr ⟨_, .toB, .toA⟩
  | toB =>
      cases hu with
      | toA => exact .inr ⟨_, .toA, .toB⟩
      | toB => exact .inl rfl

/-- Nothing is on its way. -/
theorem deliver_quiet {a : A} {b : B} (s : Duplex A B M N) :
    ¬Deliver stepA stepB ⟨a, b, [], []⟩ s := fun h => by cases h

/-! ## One schedule -/

/-- A machine reads a list of messages; its answers and its last state. -/
def feed (step : A → N → List M × A) (a : A) : List N → List M × A
  | [] => ([], a)
  | n :: ns =>
      let (out, a) := step a n
      let (out', a) := feed step a ns
      (out ++ out', a)

theorem feed_append (step : A → N → List M × A) (a : A) (ns ns' : List N) :
    feed step a (ns ++ ns') =
      ((feed step a ns).1 ++ (feed step (feed step a ns).2 ns').1,
        (feed step (feed step a ns).2 ns').2) := by
  induction ns generalizing a with
  | nil => rfl
  | cons n ns ih => simp only [List.cons_append, feed, ih, List.append_assoc]

/-- Messages that leave a machine as it is and get no answer. -/
theorem feed_silent {step : A → N → List M × A} {a : A} {ns : List N}
    (h : ∀ n ∈ ns, step a n = ([], a)) : feed step a ns = ([], a) := by
  induction ns with
  | nil => rfl
  | cons n ns ih =>
      rw [feed, h n List.mem_cons_self]
      simp only [ih fun m hm => h m (List.mem_cons_of_mem n hm), List.nil_append]

theorem deliver_feedA (a : A) (b : B) (ms : List M) (ns : List N) :
    StepsN (Deliver stepA stepB) ns.length ⟨a, b, ms, ns⟩
      ⟨(feed stepA a ns).2, b, ms ++ (feed stepA a ns).1, []⟩ := by
  induction ns generalizing a ms with
  | nil =>
      rw [feed, List.append_nil]
      exact .refl
  | cons n ns ih =>
      have hrest := ih (stepA a n).2 (ms ++ (stepA a n).1)
      rw [List.append_assoc] at hrest
      exact .head .toA hrest

theorem deliver_feedB (a : A) (b : B) (ms : List M) (ns : List N) :
    StepsN (Deliver stepA stepB) ms.length ⟨a, b, ms, ns⟩
      ⟨a, (feed stepB b ms).2, [], ns ++ (feed stepB b ms).1⟩ := by
  induction ms generalizing b ns with
  | nil =>
      rw [feed, List.append_nil]
      exact .refl
  | cons m ms ih =>
      have hrest := ih (stepB b m).2 (ns ++ (stepB b m).1)
      rw [List.append_assoc] at hrest
      exact .head .toB hrest

/-- A round: the second machine reads what is there, and then the first
reads the answers. -/
theorem deliver_round {a a' : A} {b b' : B} {ms ms' : List M} {ns : List N}
    (hB : feed stepB b ms = (ns, b')) (hA : feed stepA a ns = (ms', a')) :
    ∃ n, StepsN (Deliver stepA stepB) n ⟨a, b, ms, []⟩ ⟨a', b', ms', []⟩ := by
  have h1 := deliver_feedB stepA stepB a b ms []
  have h2 := deliver_feedA stepA stepB a b' [] ns
  rw [hB] at h1
  rw [hA] at h2
  exact ⟨_, h1.trans h2⟩

/-- Every schedule comes to rest, in this state and after this many steps at
most. -/
def Settles (s t : Duplex A B M N) : Prop :=
  ∃ n, StepsN (Deliver stepA stepB) n s t ∧ (∀ x, ¬Deliver stepA stepB t x) ∧
    ∀ k u, StepsN (Deliver stepA stepB) k s u →
      k ≤ n ∧ ((∀ x, ¬Deliver stepA stepB u x) → u = t)

/-- One schedule that comes to rest decides. -/
theorem settles_of_steps {s : Duplex A B M N} {a : A} {b : B} {n : Nat}
    (h : StepsN (Deliver stepA stepB) n s ⟨a, b, [], []⟩) :
    Settles stepA stepB s ⟨a, b, [], []⟩ := by
  have hend := deliver_quiet (a := a) (b := b) stepA stepB
  refine ⟨n, h, hend, fun k u hu => ?_⟩
  obtain ⟨m, rfl, hrest⟩ := hu.reaches (deliver_diamond stepA stepB) h hend
  refine ⟨Nat.le_add_right k m, fun hstuck => ?_⟩
  cases hrest with
  | refl => rfl
  | head hstep _ => exact absurd hstep (hstuck _)

end Duplex

end TailscaleRust.Lib
