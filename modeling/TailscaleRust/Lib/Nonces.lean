import Mathlib.Data.List.Nodup
import TailscaleRust.Lib.Run

/-!
# Numbered messages under keys

A sender has slots, each with a key and the number of the next message under
it. It can send through a slot, which uses the key with the number and moves
the number on, install a new key in a slot, which starts at zero, and lose
slots. Over any run from no slots, if no key is installed twice, the numbers
used under each key are 0, 1, 2, … in the order of sending: none is used twice
and none is left out.

A message carries some data, which plays no part in the argument.
-/

namespace TailscaleRust.Lib.Nonces

section Senders

variable {S K X : Type}

/-- The key and the next number of every slot. -/
abbrev Senders (S K : Type) := S → Option (K × Nat)

inductive Move (S K X : Type) where
  | use (slot : S) (key : K) (number : Nat) (data : X)
  | install (slot : S) (key : K)
  | lose

/-- Any slots can be lost at once. -/
inductive Moves : Senders S K → Move S K X → Senders S K → Prop
  | use {f g : Senders S K} {s : S} {k : K} {n : Nat} {x : X} (hf : f s = some (k, n))
      (hs : g s = some (k, n + 1)) (hother : ∀ s', s' ≠ s → g s' = f s') :
      Moves f (.use s k n x) g
  | install {f g : Senders S K} {s : S} {k : K} (hs : g s = some (k, 0))
      (hother : ∀ s', s' ≠ s → g s' = f s') : Moves f (.install s k) g
  | lose {f g : Senders S K} (h : ∀ s, g s = f s ∨ g s = none) : Moves f .lose g

structure Use (K X : Type) where
  key : K
  number : Nat
  data : X

def Move.used? : Move S K X → Option (Use K X)
  | .use _ k n x => some ⟨k, n, x⟩
  | .install .. => none
  | .lose => none

def Move.installed? : Move S K X → Option K
  | .use .. => none
  | .install _ k => some k
  | .lose => none

def uses (ms : List (Move S K X)) : List (Use K X) := ms.filterMap Move.used?

def installs (ms : List (Move S K X)) : List K := ms.filterMap Move.installed?

theorem uses_append (ms ms' : List (Move S K X)) : uses (ms ++ ms') = uses ms ++ uses ms' :=
  List.filterMap_append

theorem installs_append (ms ms' : List (Move S K X)) :
    installs (ms ++ ms') = installs ms ++ installs ms' :=
  List.filterMap_append

variable [DecidableEq K]

/-- The numbers used under a key, in order. -/
def numbers (k : K) (us : List (Use K X)) : List Nat :=
  (us.filter fun u => u.key = k).map Use.number

theorem numbers_append (k : K) (us us' : List (Use K X)) :
    numbers k (us ++ us') = numbers k us ++ numbers k us' := by
  rw [numbers, List.filter_append, List.map_append, numbers, numbers]

theorem numbers_singleton (k : K) (u : Use K X) :
    numbers k [u] = if u.key = k then [u.number] else [] := by
  by_cases h : u.key = k <;> simp [numbers, h]

/-- The numbers of a run so far, and where its slots stand. -/
structure Numbered (ms : List (Move S K X)) (f : Senders S K) : Prop where
  counted : ∀ k, numbers k (uses ms) = List.range (numbers k (uses ms)).length
  next : ∀ {s k n}, f s = some (k, n) → n = (numbers k (uses ms)).length
  known : ∀ {s k n}, f s = some (k, n) → k ∈ installs ms
  used : ∀ u ∈ uses ms, u.key ∈ installs ms
  single : ∀ {s s' k n n'}, f s = some (k, n) → f s' = some (k, n') → s = s'

/-- A key that was never installed was never used. -/
theorem Numbered.unused {ms : List (Move S K X)} {f : Senders S K} (h : Numbered ms f) {k : K}
    (hk : k ∉ installs ms) : numbers k (uses ms) = [] := by
  rw [numbers, List.map_eq_nil_iff, List.filter_eq_nil_iff]
  intro u hu hkey
  exact hk (of_decide_eq_true hkey ▸ h.used u hu)

theorem numbered_use {ms : List (Move S K X)} {f g : Senders S K} (h : Numbered ms f) {s : S}
    {k : K} {n : Nat} {x : X} (hf : f s = some (k, n)) (hs : g s = some (k, n + 1))
    (hother : ∀ s', s' ≠ s → g s' = f s') : Numbered (ms ++ [.use s k n x]) g := by
  have huses : uses (ms ++ [Move.use s k n x]) = uses ms ++ [⟨k, n, x⟩] := uses_append ms _
  have hinst : installs (ms ++ [Move.use s k n x]) = installs ms := by
    rw [installs_append]
    exact List.append_nil _
  -- the number is the count so far under this key
  have hnumbers : ∀ k', numbers k' (uses (ms ++ [Move.use s k n x])) =
      numbers k' (uses ms) ++ if k = k' then [n] else [] := by
    intro k'
    rw [huses, numbers_append, numbers_singleton]
  have hback : ∀ {s' k' n'}, g s' = some (k', n') → ∃ m, f s' = some (k', m) := by
    intro s' k' n' hg
    by_cases hss : s' = s
    · subst hss
      rw [hs] at hg
      cases hg
      exact ⟨n, hf⟩
    · exact ⟨n', hother s' hss ▸ hg⟩
  refine ⟨?_, ?_, ?_, ?_, ?_⟩
  · intro k'
    rw [hnumbers]
    split
    · next hk =>
        subst hk
        rw [List.length_append, List.length_singleton, List.range_succ, ← h.counted k,
          ← h.next hf]
    · rw [List.append_nil]
      exact h.counted k'
  · intro s' k' n' hg
    rw [hnumbers]
    by_cases hss : s' = s
    · subst hss
      rw [hs] at hg
      cases hg
      rw [if_pos rfl, List.length_append, List.length_singleton, ← h.next hf]
    · have hfs : f s' = some (k', n') := hother s' hss ▸ hg
      have hkk : k ≠ k' := by
        rintro rfl
        exact hss (h.single hfs hf)
      rw [if_neg hkk, List.append_nil]
      exact h.next hfs
  · intro s' k' n' hg
    obtain ⟨m, hm⟩ := hback hg
    rw [hinst]
    exact h.known hm
  · intro u hu
    rw [hinst]
    rw [huses] at hu
    rcases List.mem_append.mp hu with hu | hu
    · exact h.used u hu
    · rw [List.mem_singleton.mp hu]
      exact h.known hf
  · intro s₁ s₂ k' n₁ n₂ h1 h2
    obtain ⟨m₁, hm₁⟩ := hback h1
    obtain ⟨m₂, hm₂⟩ := hback h2
    exact h.single hm₁ hm₂

theorem numbered_install {ms : List (Move S K X)} {f g : Senders S K} (h : Numbered ms f) {s : S}
    {k : K} (hnew : k ∉ installs ms) (hs : g s = some (k, 0))
    (hother : ∀ s', s' ≠ s → g s' = f s') : Numbered (ms ++ [.install s k]) g := by
  have huses : uses (ms ++ [Move.install s k]) = uses ms := by
    rw [uses_append]
    exact List.append_nil _
  have hinst : installs (ms ++ [Move.install (X := X) s k]) = installs ms ++ [k] :=
    installs_append ms _
  have hslots : ∀ {s' k' n'}, g s' = some (k', n') →
      (s' = s ∧ k' = k ∧ n' = 0) ∨ (s' ≠ s ∧ k' ≠ k ∧ f s' = some (k', n')) := by
    intro s' k' n' hg
    by_cases hss : s' = s
    · subst hss
      rw [hs] at hg
      cases hg
      exact .inl ⟨rfl, rfl, rfl⟩
    · have hfs : f s' = some (k', n') := hother s' hss ▸ hg
      refine .inr ⟨hss, ?_, hfs⟩
      rintro rfl
      exact hnew (h.known hfs)
  refine ⟨?_, ?_, ?_, ?_, ?_⟩
  · rw [huses]
    exact h.counted
  · intro s' k' n' hg
    rw [huses]
    rcases hslots hg with ⟨-, rfl, rfl⟩ | ⟨-, -, hfs⟩
    · rw [h.unused hnew, List.length_nil]
    · exact h.next hfs
  · intro s' k' n' hg
    rw [hinst, List.mem_append]
    rcases hslots hg with ⟨-, rfl, -⟩ | ⟨-, -, hfs⟩
    · exact .inr (List.mem_singleton.mpr rfl)
    · exact .inl (h.known hfs)
  · rw [huses, hinst]
    intro u hu
    exact List.mem_append_left _ (h.used u hu)
  · intro s₁ s₂ k' n₁ n₂ h1 h2
    rcases hslots h1 with ⟨rfl, rfl, -⟩ | ⟨-, hk, hf1⟩
    · rcases hslots h2 with ⟨rfl, -, -⟩ | ⟨-, hk, -⟩
      · rfl
      · exact absurd rfl hk
    · rcases hslots h2 with ⟨-, rfl, -⟩ | ⟨-, -, hf2⟩
      · exact absurd rfl hk
      · exact h.single hf1 hf2

theorem numbered_lose {ms : List (Move S K X)} {f g : Senders S K} (h : Numbered ms f)
    (hlose : ∀ s, g s = f s ∨ g s = none) : Numbered (ms ++ [.lose]) g := by
  have huses : uses (ms ++ [Move.lose]) = uses ms := by
    rw [uses_append]
    exact List.append_nil _
  have hinst : installs (ms ++ [Move.lose]) = installs ms := by
    rw [installs_append]
    exact List.append_nil _
  have hback : ∀ {s k n}, g s = some (k, n) → f s = some (k, n) := by
    intro s k n hg
    rcases hlose s with hsame | hnone
    · rw [← hsame, hg]
    · rw [hnone] at hg
      cases hg
  refine ⟨?_, ?_, ?_, ?_, ?_⟩
  · rw [huses]
    exact h.counted
  · intro s k n hg
    rw [huses]
    exact h.next (hback hg)
  · intro s k n hg
    rw [hinst]
    exact h.known (hback hg)
  · rw [huses, hinst]
    exact h.used
  · intro s s' k n n' h1 h2
    exact h.single (hback h1) (hback h2)

/-- A run from no slots that installs no key twice. -/
theorem numbered_run {ms : List (Move S K X)} {f : Senders S K}
    (h : Run Moves (fun _ => none) ms f) (hkeys : (installs ms).Nodup) : Numbered ms f := by
  refine h.history (P := fun ms f => (installs ms).Nodup → Numbered ms f) ?_ ?_ hkeys
  · intro _
    refine ⟨fun _ => rfl, ?_, ?_, fun u hu => absurd hu List.not_mem_nil, ?_⟩ <;>
      · intros
        contradiction
  · intro ms f m g ih hstep hnodup
    rw [installs_append] at hnodup
    have hbefore := ih hnodup.of_append_left
    cases hstep with
    | use hf hs hother => exact numbered_use hbefore hf hs hother
    | install hs hother =>
        have hnew := (List.nodup_append.mp hnodup).2.2
        exact numbered_install hbefore
          (fun hmem => hnew _ hmem _ (List.mem_singleton.mpr rfl) rfl) hs hother
    | lose hlose => exact numbered_lose hbefore hlose

/-! ## What follows for single uses -/

/-- Numbers that differ under each key make pairs that differ. -/
theorem nodup_of_numbers {us : List (Use K X)} (h : ∀ k, (numbers k us).Nodup) :
    (us.map fun u => (u.key, u.number)).Nodup := by
  induction us with
  | nil => exact List.nodup_nil
  | cons u us ih =>
      have hsplit : ∀ k, numbers k (u :: us) = numbers k [u] ++ numbers k us := fun k =>
        numbers_append k [u] us
      rw [List.map_cons, List.nodup_cons]
      refine ⟨?_, ih fun k => ?_⟩
      · intro hmem
        obtain ⟨v, hv, heq⟩ := List.mem_map.mp hmem
        obtain ⟨hkey, hnumber⟩ := Prod.mk.inj heq
        have hnodup := h u.key
        rw [hsplit, numbers_singleton, if_pos rfl, List.singleton_append,
          List.nodup_cons] at hnodup
        refine hnodup.1 (List.mem_map.mpr ⟨v, List.mem_filter.mpr ⟨hv, ?_⟩, hnumber⟩)
        exact decide_eq_true hkey
      · have hnodup := h k
        rw [hsplit] at hnodup
        exact hnodup.of_append_right

theorem Numbered.nodup {ms : List (Move S K X)} {f : Senders S K} (h : Numbered ms f) :
    ((uses ms).map fun u => (u.key, u.number)).Nodup := by
  apply nodup_of_numbers
  intro k
  rw [h.counted k]
  exact List.nodup_range

/-- A number is less than the number of messages. -/
theorem Numbered.number_lt {ms : List (Move S K X)} {f : Senders S K} (h : Numbered ms f)
    {u : Use K X} (hu : u ∈ uses ms) : u.number < (uses ms).length := by
  have hmem : u.number ∈ numbers u.key (uses ms) :=
    List.mem_map.mpr ⟨u, List.mem_filter.mpr ⟨hu, decide_eq_true rfl⟩, rfl⟩
  rw [h.counted u.key, List.mem_range] at hmem
  have hle : (numbers u.key (uses ms)).length ≤ (uses ms).length := by
    rw [numbers, List.length_map]
    exact List.length_filter_le _ _
  omega

end Senders

end TailscaleRust.Lib.Nonces
