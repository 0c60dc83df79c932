import TailscaleRust.Lib.Bytes

/-!
# A connection that moves bytes at its own pace

The other side of a non-blocking connection decides how much a call moves.
Here it does so by a schedule: in each turn it first answers so many calls
with "try again", and then one call moves bytes, as many as there are and
fit, but no more than the turn allows, or fails. There is no last turn.
Every behaviour of such a connection is one of these schedules, except to
answer "try again" for ever.

`Live` says that no turn fails. What a call on a live connection can do is
said once for reads and once for writes, by what has been taken out of the
incoming bytes (`Took`) and added to the outgoing ones (`Sent`); both
compose, so that a loop of calls is followed by adding up its pieces. `Gave`
and `Accepted` say the same of a connection that may fail.
-/

namespace TailscaleRust.Lib

/-- What the connection waits for when it asks to be tried again. -/
inductive Want where
  | read
  | write
  deriving DecidableEq

/-- What the call at the end of a turn does: move up to `k + 1` bytes, or fail
with a code. -/
inductive Outcome where
  | moves (k : Nat)
  | fails (code : Int)
  deriving DecidableEq

structure Turn where
  wants : List Want
  outcome : Outcome
  deriving DecidableEq

/-- What a call returns, with what it moved if it moved anything. -/
inductive Ret (α : Type) where
  | moved (a : α)
  | zero
  | want (w : Want)
  | failed (code : Int)

/-- What a read put into the buffer. -/
def Ret.data : Ret Bytes → Bytes
  | .moved b => b
  | _ => []

/-- How much of its buffer a write got rid of. -/
def Ret.count : Ret Nat → Nat
  | .moved n => n
  | _ => 0

/-- `rx` is what is still to arrive before the other side closes, and `tx`
what has been accepted from us. -/
structure Wire where
  rx : Bytes
  tx : Bytes
  turns : Nat → Turn

namespace Wire

/-- The requests to try again that come before the next byte moves. -/
def wants (w : Wire) : List Want := (w.turns 0).wants

/-- The schedule after one of them. -/
def dropWant (turns : Nat → Turn) (rest : List Want) : Nat → Turn
  | 0 => { turns 0 with wants := rest }
  | i + 1 => turns (i + 1)

/-- One call. It is told to try again, or does `act` with the number of bytes
the turn allows. -/
def call {α : Type} (w : Wire) (act : Nat → Wire → Ret α × Wire) : Ret α × Wire :=
  match w.wants with
  | x :: rest => (.want x, { w with turns := dropWant w.turns rest })
  | [] =>
      let w' := { w with turns := fun i => w.turns (i + 1) }
      match (w.turns 0).outcome with
      | .fails code => (.failed code, w')
      | .moves k => act (k + 1) w'

/-- Take at most `n` bytes into a buffer of `cap`; there are none at the end. -/
def readUpTo (cap n : Nat) (w : Wire) : Ret Bytes × Wire :=
  let data := w.rx.take (min n cap)
  if data = [] then (.zero, w) else (.moved data, { w with rx := w.rx.drop data.length })

/-- Accept at most `n` bytes from the front of a buffer. -/
def writeUpTo (buf : Bytes) (n : Nat) (w : Wire) : Ret Nat × Wire :=
  let m := min n buf.length
  if m = 0 then (.zero, w) else (.moved m, { w with tx := w.tx ++ buf.take m })

/-- One read into a buffer of `cap` bytes. -/
def read (w : Wire) (cap : Nat) : Ret Bytes × Wire := w.call (readUpTo cap)

/-- One write from a buffer; it returns how many bytes were accepted. -/
def write (w : Wire) (buf : Bytes) : Ret Nat × Wire := w.call (writeUpTo buf)

/-! ## Loops of calls end

A call that is to be tried again leaves fewer such requests, and one that
moves bytes moves at least one. -/

section Calls

variable {α : Type} {act : Nat → Wire → Ret α × Wire} {w w' : Wire}

theorem call_want_lt (hact : ∀ n v x v', act n v ≠ (.want x, v')) {x : Want}
    (h : w.call act = (.want x, w')) : w'.wants.length < w.wants.length := by
  rw [call] at h
  split at h
  · next rest hw =>
      cases h
      rw [hw]
      exact Nat.lt_succ_self rest.length
  · simp only [] at h
    split at h
    · cases h
    · exact absurd h (hact _ _ _ _)

theorem call_moved {P : α → Prop} (hact : ∀ n v a v', act n v = (.moved a, v') → P a) {a : α}
    (h : w.call act = (.moved a, w')) : P a := by
  rw [call] at h
  split at h
  · cases h
  · simp only [] at h
    split at h
    · cases h
    · exact hact _ _ _ _ h

end Calls

theorem read_want_lt {w w' : Wire} {cap : Nat} {x : Want} (h : w.read cap = (.want x, w')) :
    w'.wants.length < w.wants.length := by
  refine call_want_lt (fun n v y v' hact => ?_) h
  rw [readUpTo] at hact
  split at hact <;> cases hact

theorem read_moved_pos {w w' : Wire} {cap : Nat} {b : Bytes} (h : w.read cap = (.moved b, w')) :
    b ≠ [] := by
  refine call_moved (P := (· ≠ [])) (fun n v a v' hact => ?_) h
  rw [readUpTo] at hact
  split at hact
  · cases hact
  · next hne =>
      cases hact
      exact hne

theorem write_want_lt {w w' : Wire} {buf : Bytes} {x : Want} (h : w.write buf = (.want x, w')) :
    w'.wants.length < w.wants.length := by
  refine call_want_lt (fun n v y v' hact => ?_) h
  rw [writeUpTo] at hact
  split at hact <;> cases hact

theorem write_moved_pos {w w' : Wire} {buf : Bytes} {n : Nat}
    (h : w.write buf = (.moved n, w')) : 0 < n := by
  refine call_moved (P := (0 < ·)) (fun m v a v' hact => ?_) h
  rw [writeUpTo] at hact
  split at hact
  · cases hact
  · next hne =>
      cases hact
      exact Nat.pos_of_ne_zero hne

/-! ## Live connections -/

/-- No turn fails. -/
def Live (w : Wire) : Prop := ∀ i, ∃ k, (w.turns i).outcome = .moves k

/-- The bytes `b` have been read between the two states, and nothing else has
happened. -/
structure Took (w : Wire) (b : Bytes) (w' : Wire) : Prop where
  rx : w.rx = b ++ w'.rx
  tx : w'.tx = w.tx
  live : w'.Live

/-- The bytes `b` have been written between the two states. -/
structure Sent (w : Wire) (b : Bytes) (w' : Wire) : Prop where
  rx : w'.rx = w.rx
  tx : w'.tx = w.tx ++ b
  live : w'.Live

theorem Took.trans {w w₁ w₂ : Wire} {a b : Bytes} (h : w.Took a w₁) (h' : w₁.Took b w₂) :
    w.Took (a ++ b) w₂ := by
  refine ⟨?_, ?_, h'.live⟩
  · rw [h.rx, h'.rx, List.append_assoc]
  · rw [h'.tx, h.tx]

theorem Sent.trans {w w₁ w₂ : Wire} {a b : Bytes} (h : w.Sent a w₁) (h' : w₁.Sent b w₂) :
    w.Sent (a ++ b) w₂ := by
  refine ⟨?_, ?_, h'.live⟩
  · rw [h'.rx, h.rx]
  · rw [h'.tx, h.tx, List.append_assoc]

/-- What has been read is the front of what was known to come. -/
theorem Took.front {w w' : Wire} {b a rest : Bytes} (h : w.Took b w') (hrx : w.rx = a ++ rest)
    (hle : b.length ≤ a.length) : ∃ a', a = b ++ a' ∧ w'.rx = a' ++ rest := by
  have hsplit : b ++ w'.rx = a ++ rest := by rw [← h.rx, hrx]
  have hfront : b <+: a :=
    List.prefix_of_prefix_length_le ⟨w'.rx, hsplit⟩ (List.prefix_append a rest) hle
  obtain ⟨a', rfl⟩ := hfront
  rw [List.append_assoc] at hsplit
  exact ⟨a', rfl, List.append_cancel_left hsplit⟩

/-- On a live connection a call is to be tried again, or `act` takes place. -/
theorem call_live {α : Type} {w : Wire} (h : w.Live) (act : Nat → Wire → Ret α × Wire) :
    (∃ x w', w.call act = (.want x, w') ∧ w'.rx = w.rx ∧ w'.tx = w.tx ∧ w'.Live) ∨
    ∃ n w', w.call act = act (n + 1) w' ∧ w'.rx = w.rx ∧ w'.tx = w.tx ∧ w'.Live := by
  rw [call]
  cases hw : w.wants with
  | cons x rest =>
      refine .inl ⟨x, _, rfl, rfl, rfl, fun i => ?_⟩
      cases i with
      | zero => exact h 0
      | succ i => exact h (i + 1)
  | nil =>
      obtain ⟨k, hk⟩ := h 0
      simp only [hk]
      exact .inr ⟨k, _, rfl, rfl, rfl, fun i => h (i + 1)⟩

/-- A read is to be tried again, finds the end, or takes some of what is next. -/
theorem read_live {w : Wire} (h : w.Live) {cap : Nat} (hcap : 0 < cap) :
    (∃ x w', w.read cap = (.want x, w') ∧ w.Took [] w') ∨
    (∃ w', w.read cap = (.zero, w') ∧ w.rx = []) ∨
    ∃ b w', w.read cap = (.moved b, w') ∧ b.length ≤ cap ∧ w.Took b w' := by
  rw [read]
  rcases call_live h (readUpTo cap) with ⟨x, w', hcall, hrx, htx, hlive⟩ |
    ⟨n, w', hcall, hrx, htx, hlive⟩
  · exact .inl ⟨x, w', hcall, hrx.symm, htx, hlive⟩
  · rw [hcall, readUpTo]
    split
    · next hnone =>
        refine .inr (.inl ⟨_, rfl, ?_⟩)
        rcases List.take_eq_nil_iff.mp hnone with h0 | hend
        · omega
        · rw [← hrx, hend]
    · refine .inr (.inr ⟨_, _, rfl, ?_, ?_, htx, hlive⟩)
      · rw [List.length_take]
        omega
      · -- all that was asked for, or all there is
        rw [← hrx]
        rcases Nat.le_total (min (n + 1) cap) w'.rx.length with hle | hle
        · rw [List.length_take_of_le hle, List.take_append_drop]
        · rw [List.take_of_length_le hle, List.drop_length, List.append_nil]

/-- A write is to be tried again, or takes some of the front of the buffer. -/
theorem write_live {w : Wire} (h : w.Live) {buf : Bytes} (hbuf : buf ≠ []) :
    (∃ x w', w.write buf = (.want x, w') ∧ w.Sent [] w') ∨
    ∃ n w', w.write buf = (.moved n, w') ∧ n ≤ buf.length ∧ w.Sent (buf.take n) w' := by
  have hpos : 0 < buf.length := List.length_pos_iff.mpr hbuf
  rw [write]
  rcases call_live h (writeUpTo buf) with ⟨x, w', hcall, hrx, htx, hlive⟩ |
    ⟨n, w', hcall, hrx, htx, hlive⟩
  · exact .inl ⟨x, w', hcall, hrx, by rw [htx, List.append_nil], hlive⟩
  · rw [hcall, writeUpTo]
    rw [if_neg (by omega)]
    exact .inr ⟨_, _, rfl, by omega, hrx, by rw [htx], hlive⟩

/-! ## Any schedule

On a connection that may fail a loop of calls can end early, and what it has
moved until then still adds up. -/

/-- The bytes `b` have been read between the two states. -/
structure Gave (w : Wire) (b : Bytes) (w' : Wire) : Prop where
  rx : w.rx = b ++ w'.rx
  tx : w'.tx = w.tx

/-- The bytes `b` have been written between the two states. -/
structure Accepted (w : Wire) (b : Bytes) (w' : Wire) : Prop where
  rx : w'.rx = w.rx
  tx : w'.tx = w.tx ++ b

theorem Gave.trans {w w₁ w₂ : Wire} {a b : Bytes} (h : w.Gave a w₁) (h' : w₁.Gave b w₂) :
    w.Gave (a ++ b) w₂ := by
  refine ⟨?_, ?_⟩
  · rw [h.rx, h'.rx, List.append_assoc]
  · rw [h'.tx, h.tx]

theorem Accepted.refl (w : Wire) : w.Accepted [] w := ⟨rfl, (List.append_nil w.tx).symm⟩

theorem Accepted.trans {w w₁ w₂ : Wire} {a b : Bytes} (h : w.Accepted a w₁)
    (h' : w₁.Accepted b w₂) : w.Accepted (a ++ b) w₂ := by
  refine ⟨?_, ?_⟩
  · rw [h'.rx, h.rx]
  · rw [h'.tx, h.tx, List.append_assoc]

/-- A call that is to be tried again or fails changes the schedule only. -/
theorem call_cases {α : Type} {act : Nat → Wire → Ret α × Wire} {w w' : Wire} {r : Ret α}
    (h : w.call act = (r, w')) :
    (((∃ x, r = .want x) ∨ ∃ code, r = .failed code) ∧ w'.rx = w.rx ∧ w'.tx = w.tx) ∨
    ∃ n v, v.rx = w.rx ∧ v.tx = w.tx ∧ act (n + 1) v = (r, w') := by
  rw [call] at h
  split at h
  · next x rest hw =>
      cases h
      exact .inl ⟨.inl ⟨x, rfl⟩, rfl, rfl⟩
  · simp only [] at h
    split at h
    · next code hcode =>
        cases h
        exact .inl ⟨.inr ⟨code, rfl⟩, rfl, rfl⟩
    · next k hk => exact .inr ⟨k, { w with turns := fun i => w.turns (i + 1) }, rfl, rfl, h⟩

theorem read_gave {w w' : Wire} {cap : Nat} {r : Ret Bytes} (h : w.read cap = (r, w')) :
    w.Gave r.data w' ∧ r.data.length ≤ cap := by
  rcases call_cases h with ⟨hr, hrx, htx⟩ | ⟨n, v, hrx, htx, hact⟩
  · have hnone : r.data = [] := by
      rcases hr with ⟨x, rfl⟩ | ⟨code, rfl⟩ <;> rfl
    rw [hnone]
    exact ⟨⟨hrx.symm, htx⟩, Nat.zero_le cap⟩
  · rw [readUpTo] at hact
    split at hact
    · cases hact
      exact ⟨⟨hrx.symm, htx⟩, Nat.zero_le cap⟩
    · cases hact
      refine ⟨⟨?_, htx⟩, ?_⟩
      · rw [← hrx]
        show v.rx = v.rx.take _ ++ v.rx.drop (v.rx.take _).length
        rcases Nat.le_total (min (n + 1) cap) v.rx.length with hle | hle
        · rw [List.length_take_of_le hle, List.take_append_drop]
        · rw [List.take_of_length_le hle, List.drop_length, List.append_nil]
      · show (v.rx.take _).length ≤ cap
        rw [List.length_take]
        omega

theorem write_accepted {w w' : Wire} {buf : Bytes} {r : Ret Nat} (h : w.write buf = (r, w')) :
    w.Accepted (buf.take r.count) w' ∧ r.count ≤ buf.length := by
  rcases call_cases h with ⟨hr, hrx, htx⟩ | ⟨n, v, hrx, htx, hact⟩
  · have hnone : r.count = 0 := by
      rcases hr with ⟨x, rfl⟩ | ⟨code, rfl⟩ <;> rfl
    rw [hnone, List.take_zero]
    exact ⟨⟨hrx, htx.trans (List.append_nil w.tx).symm⟩, Nat.zero_le _⟩
  · rw [writeUpTo] at hact
    split at hact
    · cases hact
      exact ⟨⟨hrx, htx.trans (List.append_nil w.tx).symm⟩, Nat.zero_le _⟩
    · cases hact
      exact ⟨⟨hrx, by rw [htx]; rfl⟩, Nat.min_le_right _ _⟩

end Wire

end TailscaleRust.Lib
