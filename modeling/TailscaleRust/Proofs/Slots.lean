import TailscaleRust.Proofs.Pacing

/-!
# A handshake does not keep its slot

A handshake that is never answered is sent five times and then given up, so
its slot is free again after a bounded number of passes of the loop, whatever
arrives in between. The bound needs nothing of the state: `passesLeft` is read
off the slot and the count of the next pass, it is twenty-one at most, and
every pass that leaves the slot taken makes it smaller by one. A datagram
leaves a taken slot as it is or empties it, and the counts may wrap.
-/

namespace TailscaleRust.Proofs.Slots

open TailscaleRust.Lib TailscaleRust.Core TailscaleRust.Core.Wg
open TailscaleRust.Firmware TailscaleRust.Firmware.Dataplane

/-- The passes a slot outlives at most: those before it times out, and four
for each retry it has left. -/
def passesLeft (tick : UInt32) (p : Pending) : Nat :=
  (if pendingTimeoutTicks < tick - p.sentTick then 1 else 5 - (tick - p.sentTick).toNat)
    + 4 * (4 - p.retries.toNat)

theorem passesLeft_le (tick : UInt32) (p : Pending) : passesLeft tick p ≤ 21 := by
  rw [passesLeft]
  split
  · omega
  · omega

theorem passesLeft_pos (tick : UInt32) (p : Pending) : 0 < passesLeft tick p := by
  rw [passesLeft]
  split
  · omega
  · next hyoung =>
      have hthree : (tick - p.sentTick).toNat ≤ 3 := UInt32.le_iff_toNat_le.mp
        (UInt32.not_lt.mp hyoung)
      omega

theorem toNat_next {x : UInt32} (h : x.toNat ≤ 3) : (x + 1).toNat = x.toNat + 1 := by
  have hunit : (1 : UInt32).toNat = 1 := rfl
  rw [UInt32.toNat_add, hunit]
  exact Nat.mod_eq_of_lt (by omega)

/-- A slot that has not timed out is one pass closer to it. -/
theorem passesLeft_waiting {tick : UInt32} {p : Pending}
    (hyoung : ¬pendingTimeoutTicks < tick - p.sentTick) :
    passesLeft (tick + 1) p + 1 = passesLeft tick p := by
  have hthree : (tick - p.sentTick).toNat ≤ 3 := UInt32.le_iff_toNat_le.mp
    (UInt32.not_lt.mp hyoung)
  have hnext : (tick + 1 - p.sentTick).toNat = (tick - p.sentTick).toNat + 1 := by
    rw [show tick + 1 - p.sentTick = tick - p.sentTick + 1 by grind]
    exact toNat_next hthree
  rw [passesLeft, passesLeft, if_neg hyoung]
  split
  · next hold =>
      have hfour : 3 < (tick + 1 - p.sentTick).toNat := UInt32.lt_iff_toNat_lt.mp hold
      omega
  · omega

/-- A slot that was just sent again has one retry less. -/
theorem passesLeft_resent {tick : UInt32} {p : Pending}
    (hold : pendingTimeoutTicks < tick - p.sentTick) (hmore : p.retries < maxHsRetries) :
    passesLeft (tick + 1) { p with sentTick := tick, retries := p.retries + 1 } + 1 =
      passesLeft tick p := by
  have hfour : p.retries.toNat < 4 := UInt32.lt_iff_toNat_lt.mp hmore
  have hone : tick + 1 - tick = 1 := by
    rw [UInt32.add_comm, UInt32.add_sub_cancel]
  have hretries := toNat_next (show p.retries.toNat ≤ 3 by omega)
  have hyoung : ¬pendingTimeoutTicks < (1 : UInt32) := by decide
  rw [passesLeft, passesLeft, if_pos hold]
  simp only [hone, if_neg hyoung, hretries]
  have hunit : (1 : UInt32).toNat = 1 := rfl
  omega

section Run

variable {H : Host} {n : Key} {s : LoopState} {p q : Pending}

/-- A pass that leaves the slot taken. -/
theorem passesLeft_pass (hk : Housekeeping) (stunAddr : Option SocketAddr)
    (payloads : List Bytes) (hp : s.node.st.pending.get? n = some p)
    (hq : (H.loopStep s (.pass hk stunAddr payloads)).1.node.st.pending.get? n = some q) :
    passesLeft (s.tick + 1) q + 1 = passesLeft s.tick p := by
  rw [get?_pass, hp, Option.bind_some, retryPending] at hq
  split at hq
  · cases hq
  · split at hq
    · next hold =>
        split at hq
        · cases hq
        · next hmore =>
            cases hq
            exact passesLeft_resent hold (UInt32.not_le.mp hmore)
    · next hyoung =>
        cases hq
        exact passesLeft_waiting hyoung

/-- A datagram that leaves the slot taken leaves it as it is. -/
theorem slot_datagram (time : Nat) (dualcore : Bool) (pkt : Bytes) (src : SocketAddr)
    (env : Draws) (hp : s.node.st.pending.get? n = some p)
    (hq : (H.loopStep s (.datagram time dualcore pkt src env)).1.node.st.pending.get? n =
      some q) : q = p := by
  rcases get?_datagram (received_input s time dualcore pkt src env) hq with ⟨hsame, -⟩ | ⟨hnone, -⟩
  · rw [hp] at hsame
    exact (Option.some.inj hsame).symm
  · rw [hp] at hnone
    cases hnone

/-- A taken slot is empty after some part of a run that makes enough passes. -/
theorem freed_of_taken {es : List LoopEvent} (hp : s.node.st.pending.get? n = some p)
    (hlong : passesLeft s.tick p ≤ passCount es) :
    ∃ a b, es = a ++ b ∧ passCount a ≤ passesLeft s.tick p ∧
      (H.loopAfter s a).node.st.pending.get? n = none := by
  induction es generalizing s p with
  | nil =>
      have hpos := passesLeft_pos s.tick p
      rw [passCount, List.countP_nil] at hlong
      omega
  | cons e es ih =>
      rw [passCount, List.countP_cons] at hlong
      cases hq : (H.loopStep s e).1.node.st.pending.get? n with
      | none =>
          refine ⟨[e], es, rfl, ?_, hq⟩
          have hpos := passesLeft_pos s.tick p
          rw [passCount, List.countP_singleton]
          split
          · omega
          · omega
      | some q =>
          cases e with
          | pass hk stunAddr payloads =>
              have hleft := passesLeft_pass hk stunAddr payloads hp hq
              have hpass : (LoopEvent.pass hk stunAddr payloads).isPass = true := rfl
              rw [if_pos hpass] at hlong
              obtain ⟨a, b, rfl, hcount, hfree⟩ := ih hq (by
                show passesLeft (s.tick + 1) q ≤ es.countP LoopEvent.isPass
                omega)
              refine ⟨.pass hk stunAddr payloads :: a, b, rfl, ?_, hfree⟩
              have hcount' : a.countP LoopEvent.isPass ≤ passesLeft (s.tick + 1) q := hcount
              rw [passCount, List.countP_cons, if_pos hpass]
              omega
          | datagram time dualcore pkt src env =>
              have hsame := slot_datagram time dualcore pkt src env hp hq
              subst hsame
              have hpass : ¬(LoopEvent.datagram time dualcore pkt src env).isPass = true :=
                Bool.false_ne_true
              rw [if_neg hpass] at hlong
              obtain ⟨a, b, rfl, hcount, hfree⟩ := ih hq hlong
              refine ⟨.datagram time dualcore pkt src env :: a, b, rfl, ?_, hfree⟩
              rw [passCount, List.countP_cons, if_neg hpass]
              exact hcount

end Run

/-- From any state of either loop, whatever datagrams come and however the
counts stand: within twenty-one passes the slot of every peer is empty at some
point. -/
theorem handshake_slot_freed (H : Host) (s : LoopState) (n : Key) (es : List LoopEvent)
    (hlong : 21 ≤ passCount es) :
    ∃ a b, es = a ++ b ∧ passCount a ≤ 21 ∧ (H.loopAfter s a).node.st.pending.get? n = none := by
  cases hp : s.node.st.pending.get? n with
  | none => exact ⟨[], es, rfl, Nat.zero_le 21, hp⟩
  | some p =>
      have hmax := passesLeft_le s.tick p
      obtain ⟨a, b, hes, hcount, hfree⟩ := freed_of_taken (H := H) hp
        (show passesLeft s.tick p ≤ passCount es by omega)
      exact ⟨a, b, hes, by omega, hfree⟩

/-! A handshake that is never answered, and nothing but passes. -/

private def passAt (now : Nat) : LoopEvent :=
  .pass ⟨now, [], fun _ => Arr.zero 12, fun _ => Arr.zero 24, fun _ _ => [], fun _ => true, 0,
    Arr.zero 12⟩ none []

private def waiting : LoopState := ⟨solo.after soloStart [arrives (pongOf 5) 5 9], 1, 0⟩

theorem handshake_slot_freed_solo :
    waiting.node.st.pending.contains (byteKey 5) = true ∧
    ∃ a b, List.replicate 21 (passAt 0) = a ++ b ∧ passCount a ≤ 21 ∧
      (solo.loopAfter waiting a).node.st.pending.get? (byteKey 5) = none :=
  ⟨by decide +kernel, handshake_slot_freed solo waiting (byteKey 5) _ (by decide)⟩

end TailscaleRust.Proofs.Slots
