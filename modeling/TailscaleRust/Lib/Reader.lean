import TailscaleRust.Lib.Bytes

/-!
# Buffered readers

A source hands out its bytes in pieces of its own choosing. A reader on top
of it wants so many bytes at a time: it pulls until its buffer is long
enough, takes what was asked for and keeps the rest for the next call.

What such a reader returns does not depend on the pieces. `Holds` says which
bytes are still to come, counting both the buffer and the source; `take_eq`
says that reading `n` of them returns the first `n` and leaves the others.
Readers stack: a source may itself be a decoder that pulls from a reader
below, and then `Delivers` of the upper source is proved from `Holds` of the
lower one.
-/

namespace TailscaleRust.Lib

/-- Something that can be pulled from until it fails. Every pull makes
progress, so that a loop of pulls ends. -/
structure Source (σ ε : Type) where
  pull : σ → Except ε (Bytes × σ)
  size : σ → Nat
  pull_lt : ∀ {s b s'}, pull s = .ok (b, s') → size s' < size s

namespace Source

variable {σ ε : Type} (S : Source σ ε)

/-- Pull until `n` bytes are buffered. A failure reports how many were. -/
def fill (n : Nat) (buf : Bytes) (s : σ) : Except (ε × Nat) (Bytes × σ) :=
  if buf.length < n then
    match _h : S.pull s with
    | .error e => .error (e, buf.length)
    | .ok (b, s') => fill n (buf ++ b) s'
  else .ok (buf, s)
termination_by S.size s
decreasing_by exact S.pull_lt (by assumption)

/-- Read `n` bytes; the second component is the buffer left over. -/
def take (n : Nat) (buf : Bytes) (s : σ) : Except (ε × Nat) (Bytes × Bytes × σ) :=
  match S.fill n buf s with
  | .error e => .error e
  | .ok (buf, s) => .ok (buf.take n, buf.drop n, s)

variable {S}

theorem fill_of_le {n : Nat} {buf : Bytes} {s : σ} (h : n ≤ buf.length) :
    S.fill n buf s = .ok (buf, s) := by
  rw [fill, if_neg (by omega)]

theorem fill_of_pull {n : Nat} {buf b : Bytes} {s s' : σ} (h : buf.length < n)
    (hp : S.pull s = .ok (b, s')) : S.fill n buf s = S.fill n (buf ++ b) s' := by
  rw [fill, if_pos h]
  split
  · next e he =>
      rw [hp] at he
      cases he
  · next b' t he =>
      rw [hp] at he
      cases he
      rfl

/-! ## What is still to come -/

/-- Pulling `s` to its end hands out exactly `q`. -/
inductive Delivers (S : Source σ ε) : σ → Bytes → Prop
  | done {s : σ} {e : ε} : S.pull s = .error e → Delivers S s []
  | pull {s s' : σ} {b q : Bytes} :
      S.pull s = .ok (b, s') → Delivers S s' q → Delivers S s (b ++ q)

/-- The buffer and the source together still hold exactly `q`. -/
def Holds (S : Source σ ε) (buf : Bytes) (s : σ) (q : Bytes) : Prop :=
  ∃ rest, S.Delivers s rest ∧ q = buf ++ rest

theorem fill_eq {n : Nat} {buf rest : Bytes} {s : σ} (h : S.Delivers s rest)
    (hn : n ≤ (buf ++ rest).length) :
    ∃ buf' s', S.fill n buf s = .ok (buf', s') ∧ n ≤ buf'.length ∧
      S.Holds buf' s' (buf ++ rest) := by
  induction h generalizing buf with
  | @done s e he =>
      rw [List.append_nil] at hn ⊢
      exact ⟨buf, s, fill_of_le hn, hn, [], .done he, (List.append_nil buf).symm⟩
  | @pull s s' b q hp hq ih =>
      by_cases hlen : buf.length < n
      · rw [fill_of_pull hlen hp, ← List.append_assoc]
        exact ih (by rwa [List.append_assoc])
      · exact ⟨buf, s, fill_of_le (by omega), by omega, b ++ q, .pull hp hq, rfl⟩

/-- Reading `n` bytes returns the first `n` still to come. -/
theorem take_eq {n : Nat} {buf q : Bytes} {s : σ} (h : S.Holds buf s q)
    (hn : n ≤ q.length) :
    ∃ buf' s', S.take n buf s = .ok (q.take n, buf', s') ∧ S.Holds buf' s' (q.drop n) := by
  obtain ⟨rest, hrest, rfl⟩ := h
  obtain ⟨buf', s', hfill, hlen, rest', hrest', heq⟩ := fill_eq hrest hn
  refine ⟨buf'.drop n, s', ?_, rest', hrest', ?_⟩
  · rw [take, hfill, heq, List.take_append_of_le_length hlen]
  · rw [heq, List.drop_append_of_le_length hlen]

/-- The form used to walk a known stream: what is asked for comes first. -/
theorem take_append {a q buf : Bytes} {s : σ} (h : S.Holds buf s (a ++ q)) :
    ∃ buf' s', S.take a.length buf s = .ok (a, buf', s') ∧ S.Holds buf' s' q := by
  obtain ⟨buf', s', htake, hrest⟩ := take_eq (n := a.length) h (by simp)
  rw [List.take_left] at htake
  rw [List.drop_left] at hrest
  exact ⟨buf', s', htake, hrest⟩

/-- Asking for more than is still to come fails. -/
theorem take_error {n : Nat} {buf q : Bytes} {s : σ} (h : S.Holds buf s q)
    (hn : q.length < n) : ∃ e, S.take n buf s = .error e := by
  obtain ⟨rest, hrest, rfl⟩ := h
  suffices hfill : ∃ e, S.fill n buf s = .error e by
    obtain ⟨e, he⟩ := hfill
    exact ⟨e, by rw [take, he]⟩
  induction hrest generalizing buf with
  | @done s e he =>
      rw [List.append_nil] at hn
      refine ⟨(e, buf.length), ?_⟩
      rw [fill, if_pos hn]
      split
      · next e' he' =>
          rw [he] at he'
          cases he'
          rfl
      · next he' =>
          rw [he] at he'
          cases he'
  | @pull s s' b q hp _ ih =>
      rw [fill_of_pull (by rw [List.length_append] at hn; omega) hp]
      exact ih (by rwa [List.append_assoc])

/-- Bytes put back in front of the buffer come first again. -/
theorem Holds.pushBack {a buf q : Bytes} {s : σ} (h : S.Holds buf s q) :
    S.Holds (a ++ buf) s (a ++ q) := by
  obtain ⟨rest, hrest, rfl⟩ := h
  exact ⟨rest, hrest, (List.append_assoc a buf rest).symm⟩

/-- Nothing still to come leaves nothing in the buffer. -/
theorem Holds.buffer_nil {buf : Bytes} {s : σ} (h : S.Holds buf s []) : buf = [] := by
  obtain ⟨rest, -, heq⟩ := h
  exact (List.append_eq_nil_iff.mp heq.symm).1

/-! ## Bytes are conserved

For a source whose size counts the bytes it still has, a read moves bytes
from the source to the buffer and out, and makes none. -/

/-- A pull hands out bytes the source had. -/
def Conserves (S : Source σ ε) : Prop :=
  ∀ {s b s'}, S.pull s = .ok (b, s') → b.length + S.size s' ≤ S.size s

theorem fill_conserves (hS : S.Conserves) {n : Nat} {buf buf' : Bytes} {s s' : σ}
    (h : S.fill n buf s = .ok (buf', s')) :
    buf'.length + S.size s' ≤ buf.length + S.size s ∧ n ≤ buf'.length := by
  induction hk : S.size s using Nat.strongRecOn generalizing s buf with
  | ind k ih =>
    by_cases hlen : buf.length < n
    · cases hp : S.pull s with
      | error e =>
          rw [fill, if_pos hlen] at h
          split at h
          · cases h
          · next he =>
              rw [hp] at he
              cases he
      | ok r =>
          obtain ⟨b, t⟩ := r
          rw [fill_of_pull hlen hp] at h
          have hlt := S.pull_lt hp
          have hc := hS hp
          have := ih (S.size t) (by omega) h rfl
          rw [List.length_append] at this
          omega
    · rw [fill_of_le (by omega)] at h
      cases h
      omega

theorem take_conserves (hS : S.Conserves) {n : Nat} {buf out buf' : Bytes} {s s' : σ}
    (h : S.take n buf s = .ok (out, buf', s')) :
    n + buf'.length + S.size s' ≤ buf.length + S.size s ∧ out.length = n := by
  rw [take] at h
  split at h
  · cases h
  · next b t hf =>
      cases h
      have := fill_conserves hS hf
      rw [List.length_drop, List.length_take]
      omega

/-! ## Reading leaves the rest of the state alone -/

section Keeps

variable {α : Type} {f : σ → α} (hf : ∀ {s b s'}, S.pull s = .ok (b, s') → f s' = f s)

include hf

theorem fill_keeps {n : Nat} {buf buf' : Bytes} {s s' : σ}
    (h : S.fill n buf s = .ok (buf', s')) : f s' = f s := by
  induction hk : S.size s using Nat.strongRecOn generalizing s buf with
  | ind k ih =>
    by_cases hlen : buf.length < n
    · cases hp : S.pull s with
      | error e =>
          rw [fill, if_pos hlen] at h
          split at h
          · cases h
          · next he =>
              rw [hp] at he
              cases he
      | ok r =>
          obtain ⟨b, t⟩ := r
          rw [fill_of_pull hlen hp] at h
          have hlt := S.pull_lt hp
          rw [ih (S.size t) (by omega) h rfl, hf hp]
    · rw [fill_of_le (by omega)] at h
      cases h
      rfl

theorem take_keeps {n : Nat} {buf out buf' : Bytes} {s s' : σ}
    (h : S.take n buf s = .ok (out, buf', s')) : f s' = f s := by
  rw [take] at h
  split at h
  · cases h
  · next hfill =>
      cases h
      exact fill_keeps hf hfill

end Keeps

/-! ## Progress -/

/-- A read that returns something takes it from the buffer, or pulls. -/
theorem fill_progress {n : Nat} {buf buf' : Bytes} {s s' : σ}
    (h : S.fill n buf s = .ok (buf', s')) :
    (buf' = buf ∧ s' = s ∧ n ≤ buf.length) ∨ S.size s' < S.size s := by
  induction hk : S.size s using Nat.strongRecOn generalizing s buf with
  | ind k ih =>
    by_cases hlen : buf.length < n
    · cases hp : S.pull s with
      | error e =>
          rw [fill, if_pos hlen] at h
          split at h
          · cases h
          · next he =>
              rw [hp] at he
              cases he
      | ok r =>
          obtain ⟨b, t⟩ := r
          rw [fill_of_pull hlen hp] at h
          have hlt := S.pull_lt hp
          rcases ih (S.size t) (by omega) h rfl with ⟨-, rfl, -⟩ | hless
          · exact .inr (by omega)
          · exact .inr (by omega)
    · rw [fill_of_le (by omega)] at h
      cases h
      exact .inl ⟨rfl, rfl, by omega⟩

theorem take_progress {n : Nat} {buf out buf' : Bytes} {s s' : σ}
    (h : S.take n buf s = .ok (out, buf', s')) :
    (s' = s ∧ buf'.length + n = buf.length) ∨ S.size s' < S.size s := by
  rw [take] at h
  split at h
  · cases h
  · next b t hf =>
      cases h
      rcases fill_progress hf with ⟨rfl, rfl, hle⟩ | hlt
      · refine .inl ⟨rfl, ?_⟩
        rw [List.length_drop]
        omega
      · exact .inr hlt

/-! ## What a reader does not look at -/

/-- A change of state that pulling neither sees nor undoes. -/
def Ignores (S : Source σ ε) (g : σ → σ) : Prop :=
  ∀ s, S.pull (g s) = (S.pull s).map fun r => (r.1, g r.2)

theorem fill_ignores {g : σ → σ} (hg : S.Ignores g) (n : Nat) (buf : Bytes) (s : σ) :
    S.fill n buf (g s) = (S.fill n buf s).map fun r => (r.1, g r.2) := by
  induction hk : S.size s using Nat.strongRecOn generalizing s buf with
  | ind k ih =>
    by_cases hlen : buf.length < n
    · have hpull := hg s
      cases hp : S.pull s with
      | error e =>
          rw [hp] at hpull
          rw [fill, fill, if_pos hlen, if_pos hlen]
          split
          · next e' he =>
              rw [hpull] at he
              cases he
              split
              · next e'' he'' =>
                  rw [hp] at he''
                  cases he''
                  rfl
              · next he'' =>
                  rw [hp] at he''
                  cases he''
          · next he =>
              rw [hpull] at he
              cases he
      | ok r =>
          obtain ⟨b, t⟩ := r
          rw [hp] at hpull
          have hlt := S.pull_lt hp
          rw [fill_of_pull hlen hp, fill_of_pull hlen hpull]
          exact ih (S.size t) (by omega) _ t rfl
    · rw [fill_of_le (by omega), fill_of_le (by omega)]
      rfl

theorem take_ignores {g : σ → σ} (hg : S.Ignores g) (n : Nat) (buf : Bytes) (s : σ) :
    S.take n buf (g s) = (S.take n buf s).map fun r => (r.1, r.2.1, g r.2.2) := by
  rw [take, take, fill_ignores hg]
  cases S.fill n buf s with
  | error e => rfl
  | ok r => rfl

theorem Delivers.ignores {g : σ → σ} (hg : S.Ignores g) {s : σ} {q : Bytes}
    (h : S.Delivers s q) : S.Delivers (g s) q := by
  induction h with
  | @done s e he =>
      refine .done (e := e) ?_
      rw [hg, he]
      rfl
  | @pull s s' b q hp _ ih =>
      refine .pull ?_ ih
      rw [hg, hp]
      rfl

end Source

end TailscaleRust.Lib
