import TailscaleRust.Firmware.Loops
import TailscaleRust.Proofs.Roaming
import TailscaleRust.Proofs.Targets

/-!
# The pace of the retries

A handshake that is not answered is sent again, or given up, in the fourth
pass after it was last sent. A pass takes as long as the read of a datagram,
so the pace of the retries is that of the traffic: four datagrams in quick
succession make four passes. Where the loop is slow enough while a handshake
is pending, the retries are three seconds apart.
-/

namespace TailscaleRust.Proofs

open TailscaleRust.Lib TailscaleRust.Core TailscaleRust.Core.Wg
open TailscaleRust.Firmware TailscaleRust.Firmware.Dataplane

/-! ## What an event does to a slot -/

inductive Retry where
  | resent
  | gaveUp
  deriving DecidableEq

section Events

variable (H : Host) (n : Key)

/-- Is the slot of a peer retried in an event: is its initiation sent once
more, or is the slot dropped in a pass although no tunnel took its place? -/
def retryOf (s : LoopState) (e : LoopEvent) : Option Retry :=
  match s.node.st.pending.get? n with
  | none => none
  | some p =>
      if slotSends H s.node (s.input e) n ≠ [] then some .resent
      else if e.isPass ∧ ¬s.node.st.tunnels.values.any (fun t => t.addr = p.addr)
          ∧ (H.loopStep s e).1.node.st.pending.get? n = none then some .gaveUp
      else none

/-- When the slot's initiation was last sent. -/
def lastSent (s : LoopState) (last : Option Nat) : List LoopEvent → Option Nat
  | [] => last
  | e :: es =>
      lastSent (H.loopStep s e).1
        (if slotSends H s.node (s.input e) n = [] then last else some e.time) es

/-- The slot sends nothing in these events. -/
def SendsNothing (s : LoopState) : List LoopEvent → Prop
  | [] => True
  | e :: es => slotSends H s.node (s.input e) n = [] ∧ SendsNothing (H.loopStep s e).1 es

/-- The retries of a slot in a run, with their times. -/
def retryLog (s : LoopState) : List LoopEvent → List (Nat × Retry)
  | [] => []
  | e :: es => ((retryOf H n s e).map fun r => (e.time, r)).toList ++ retryLog (H.loopStep s e).1 es

end Events

section Slot

variable {H : Host} {n : Key}

/-- The drain of a pass leaves the slots alone. -/
theorem pending_pass (s : LoopState) (hk : Housekeeping) (stunAddr : Option SocketAddr)
    (payloads : List Bytes) :
    (H.loopStep s (.pass hk stunAddr payloads)).1.node.st.pending =
      (retryAll s.node.st s.tick).1.pending := by
  have hretry := (step_retry (show outcome H s.node (.periodic s.tick hk stunAddr) = _ from rfl)).1
  have hdrain := (step_quiet (show outcome H (H.step s.node (.periodic s.tick hk stunAddr)).1
    (.drain payloads) = .quiet from rfl)).steady.pending
  exact hdrain.trans hretry.1

theorem get?_pass (s : LoopState) (hk : Housekeeping) (stunAddr : Option SocketAddr)
    (payloads : List Bytes) :
    (H.loopStep s (.pass hk stunAddr payloads)).1.node.st.pending.get? n =
      (s.node.st.pending.get? n).bind fun p => (retryPending s.node.st.tunnels s.tick p).1 := by
  rw [pending_pass, get?_retryAll]

theorem slotSends_pass {s : LoopState} {p : Pending} (hp : s.node.st.pending.get? n = some p)
    (hk : Housekeeping) (stunAddr : Option SocketAddr) (payloads : List Bytes) :
    slotSends H s.node (s.input (.pass hk stunAddr payloads)) n =
      (retryPending s.node.st.tunnels s.tick p).2 := by
  show ((s.node.st.pending.get? n).map fun p =>
    (retryPending s.node.st.tunnels s.tick p).2).getD [] = _
  rw [hp]
  rfl

/-- A slot is retried in a pass exactly if no tunnel took its place and its
count is more than three passes back. -/
theorem retryOf_pass {s : LoopState} {p : Pending} (hp : s.node.st.pending.get? n = some p)
    (hk : Housekeeping) (stunAddr : Option SocketAddr) (payloads : List Bytes) :
    retryOf H n s (.pass hk stunAddr payloads) =
      if s.node.st.tunnels.values.any (fun t => t.addr = p.addr) then none
      else if s.tick - p.sentTick > pendingTimeoutTicks then
        if p.retries ≥ maxHsRetries then some .gaveUp else some .resent
      else none := by
  rw [retryOf, hp, slotSends_pass hp, get?_pass, hp]
  simp only [Option.bind_some, retryPending, LoopEvent.isPass]
  split
  · next hhave => simp [hhave]
  · next hfree =>
      split
      · split
        · simp [hfree]
        · simp
      · simp [hfree]

/-- A PONG leaves a slot as it is, or fills it with a handshake that is sent at
once. -/
theorem get?_pong {s : NodeState} {ev : Input} {tick : UInt32} {env : Draws} {sender : Key}
    {src : SocketAddr} (ho : outcome H s ev = .pong tick env sender src) {q : Pending}
    (hq : (H.step s ev).1.st.pending.get? n = some q) :
    (s.st.pending.get? n = some q ∧ slotSends H s ev n = []) ∨
    (s.st.pending.get? n = none ∧ slotSends H s ev n ≠ [] ∧ q.sentTick = tick) := by
  obtain ⟨-, -, -, hpend, -⟩ := step_pong ho
  rw [hpend] at hq
  rw [slotSends, ho]
  simp only []
  cases hstart : startTarget s.lp.targets s.st sender src with
  | none =>
      rw [hstart] at hq
      exact .inl ⟨hq, rfl⟩
  | some t =>
      have hfree := (startTarget_some.mp hstart).slot
      rw [hstart] at hq
      simp only [] at hq ⊢
      by_cases hn : t.nodePub = n
      · rw [hn] at hfree hq
        have hnone := Table.get?_eq_none_iff.mpr hfree
        rw [if_pos hn]
        split at hq
        · rw [Table.get?_insert, if_pos rfl] at hq
          cases hq
          exact .inr ⟨hnone, List.cons_ne_nil _ _, rfl⟩
        · rw [hnone] at hq
          cases hq
      · rw [if_neg hn]
        split at hq
        · rw [Table.get?_insert, if_neg fun h => hn h.symm] at hq
          exact .inl ⟨hq, rfl⟩
        · exact .inl ⟨hq, rfl⟩

theorem get?_of_erase {t : Table Key Pending} {key : Key} {q : Pending}
    (h : (t.erase key).get? n = some q) : t.get? n = some q := by
  rw [Table.get?_erase] at h
  split at h
  · cases h
  · exact h

/-- A datagram leaves a slot as it is, empties it, or fills it. -/
theorem get?_datagram {s : NodeState} {ev : Input} {tick : UInt32} {pkt : Bytes}
    {src : SocketAddr} {env : Draws} (hev : ev.received? = some (tick, pkt, src, env))
    {q : Pending} (hq : (H.step s ev).1.st.pending.get? n = some q) :
    (s.st.pending.get? n = some q ∧ slotSends H s ev n = []) ∨
    (s.st.pending.get? n = none ∧ slotSends H s ev n ≠ [] ∧ q.sentTick = tick) := by
  cases ho : outcome H s ev with
  | quiet =>
      rw [(step_quiet ho).steady.pending] at hq
      exact .inl ⟨hq, by rw [slotSends, ho]⟩
  | pong tick' env' sender src' =>
      obtain ⟨⟨pkt', msg, hev', -⟩, -⟩ := step_pong ho
      rw [hev] at hev'
      cases hev'
      exact get?_pong ho hq
  | answer i resp tun peer src' =>
      rw [(step_answer ho).2] at hq
      exact .inl ⟨hq, by rw [slotSends, ho]⟩
  | complete key p tun src' =>
      rw [(step_complete ho).2] at hq
      exact .inl ⟨get?_of_erase hq, by rw [slotSends, ho]⟩
  | refuse key =>
      rw [(step_refuse ho).2] at hq
      exact .inl ⟨get?_of_erase hq, by rw [slotSends, ho]⟩
  | retry tick' =>
      cases ev with
      | packet tick pkt src env => exact absurd ho (received_ne_retry tick pkt src env tick')
      | process tick pkt src env => exact absurd ho (received_ne_retry tick pkt src env tick')
      | periodic tick hk stunAddr => cases hev
      | drain payloads => cases hev

theorem received_input (s : LoopState) (time : Nat) (dualcore : Bool) (pkt : Bytes)
    (src : SocketAddr) (env : Draws) :
    (s.input (.datagram time dualcore pkt src env)).received? = some (s.shtick, pkt, src, env) := by
  cases dualcore with
  | false => rfl
  | true => rfl

/-- While a slot is pending no datagram makes it send. -/
theorem retryOf_datagram (s : LoopState) (time : Nat) (dualcore : Bool) (pkt : Bytes)
    (src : SocketAddr) (env : Draws) :
    retryOf H n s (.datagram time dualcore pkt src env) = none := by
  rw [retryOf]
  split
  · rfl
  · next p hp =>
      have hquiet : slotSends H s.node (s.input (.datagram time dualcore pkt src env)) n = [] := by
        rw [slotSends]
        split
        · split
          · rfl
          · next t hstart =>
              have hfree := (startTarget_some.mp hstart).slot
              refine if_neg fun hn => ?_
              rw [hn, ← Table.get?_eq_none_iff, hp] at hfree
              cases hfree
        · next tick ho =>
            cases dualcore with
            | false => exact absurd ho (received_ne_retry _ _ _ _ tick)
            | true => exact absurd ho (received_ne_retry _ _ _ _ tick)
        · rfl
      rw [hquiet, if_neg fun h => h rfl, if_neg fun h => Bool.false_ne_true h.1]

end Slot

/-! ## The fourth pass -/

section Pace

variable (H : Host) (n : Key)

def passCount (es : List LoopEvent) : Nat := es.countP LoopEvent.isPass

/-- While the slot is pending the loop is slow: a pass that finds it pending
comes three seconds after every event since its initiation was last sent that
has three passes or more in between. -/
def SlowWhilePending (s : LoopState) (es : List LoopEvent) : Prop :=
  ∀ l e m p r, es = l ++ e :: (m ++ p :: r) → p.isPass = true → 3 ≤ passCount m →
    (H.loopAfter s (l ++ e :: m)).node.st.pending.contains n = true →
    SendsNothing H n (H.loopAfter s (l ++ [e])) m → e.time + 3000 ≤ p.time

/-- Every retry comes three seconds after the initiation was last sent. -/
def Paced (s : LoopState) (es : List LoopEvent) : Prop :=
  ∀ l e r, es = l ++ e :: r → (retryOf H n (H.loopAfter s l) e).isSome = true →
    ∃ t, lastSent H n s none l = some t ∧ t + 3000 ≤ e.time

/-- Where the counts stand after some events: datagrams are handled with the
count of the last pass, and the count of a pending slot tells how many passes
there were since it was sent, which are four at most. -/
structure Counted (s : LoopState) (l : List LoopEvent) : Prop where
  shared : ∃ d ≤ 1, (H.loopAfter s l).shtick + UInt32.ofNat d = (H.loopAfter s l).tick
  slot : ∀ p, (H.loopAfter s l).node.st.pending.get? n = some p →
    ∃ l' e m d, l = l' ++ e :: m ∧ lastSent H n s none l = some e.time ∧
      SendsNothing H n (H.loopAfter s (l' ++ [e])) m ∧ d ≤ 4 ∧
      d ≤ passCount m + 1 ∧ p.sentTick + UInt32.ofNat d = (H.loopAfter s l).tick

end Pace

section Pace

variable {H : Host} {n : Key} {s : LoopState} {l : List LoopEvent}

theorem lastSent_concat (s : LoopState) (last : Option Nat) (l : List LoopEvent)
    (e : LoopEvent) :
    lastSent H n s last (l ++ [e]) =
      if slotSends H (H.loopAfter s l).node ((H.loopAfter s l).input e) n = [] then
        lastSent H n s last l
      else some e.time := by
  induction l generalizing s last with
  | nil => rfl
  | cons x l ih => exact ih _ _

theorem loopAfter_concat (s : LoopState) (l : List LoopEvent) (e : LoopEvent) :
    H.loopAfter s (l ++ [e]) = (H.loopStep (H.loopAfter s l) e).1 :=
  H.loopAfter_append s l [e]

/-- What came behind an event started from the state behind it. -/
theorem loopAfter_split {l' m : List LoopEvent} {e : LoopEvent} (h : l = l' ++ e :: m) :
    H.loopAfter (H.loopAfter s (l' ++ [e])) m = H.loopAfter s l := by
  rw [← H.loopAfter_append, h, List.append_assoc]
  rfl

theorem sendsNothing_concat {m : List LoopEvent} {e : LoopEvent} (h : SendsNothing H n s m)
    (he : slotSends H (H.loopAfter s m).node ((H.loopAfter s m).input e) n = []) :
    SendsNothing H n s (m ++ [e]) := by
  induction m generalizing s with
  | nil => exact ⟨he, trivial⟩
  | cons x m ih => exact ⟨h.1, ih h.2 he⟩

theorem passCount_concat (m : List LoopEvent) (e : LoopEvent) :
    passCount (m ++ [e]) = passCount m + if e.isPass then 1 else 0 := by
  rw [passCount, passCount, List.countP_append, List.countP_singleton]

/-- The difference of two counts that are few passes apart. -/
theorem timedOut_iff {tick sent : UInt32} {d : Nat} (h : sent + UInt32.ofNat d = tick)
    (hd : d ≤ 4) : tick - sent > pendingTimeoutTicks ↔ d = 4 := by
  have hdiff : tick - sent = UInt32.ofNat d := by
    rw [← h, UInt32.add_comm, UInt32.add_sub_cancel]
  rw [hdiff, gt_iff_lt, UInt32.lt_iff_toNat_lt, UInt32.toNat_ofNat']
  have hthree : pendingTimeoutTicks.toNat = 3 := rfl
  omega

theorem retryPending_some {tunnels : Table UInt32 TunnelEntry} {tick : UInt32} {p q : Pending}
    (h : (retryPending tunnels tick p).1 = some q) :
    (q = p ∧ (retryPending tunnels tick p).2 = [] ∧ ¬tick - p.sentTick > pendingTimeoutTicks) ∨
    (q.sentTick = tick ∧ (retryPending tunnels tick p).2 ≠ []) := by
  rw [retryPending] at h ⊢
  split at h
  · cases h
  · next hfree =>
      rw [if_neg hfree]
      split at h
      · next hold =>
          rw [if_pos hold]
          split at h
          · cases h
          · next hmore =>
              cases h
              rw [if_neg hmore]
              exact .inr ⟨rfl, List.cons_ne_nil _ _⟩
      · next hyoung =>
          cases h
          rw [if_neg hyoung]
          exact .inl ⟨rfl, rfl, hyoung⟩

theorem counted_start {node : NodeState} (h : Fresh node) : Counted H n (.start node) [] where
  shared := ⟨0, by omega, rfl⟩
  slot p hp := by
    have hnone : node.st.pending.get? n = none := by rw [h.pending]; rfl
    exact absurd (hnone.symm.trans hp) (by simp)

theorem counted_pass (hc : Counted H n s l) (hk : Housekeeping) (stunAddr : Option SocketAddr)
    (payloads : List Bytes) : Counted H n s (l ++ [.pass hk stunAddr payloads]) := by
  have hafter := loopAfter_concat (H := H) s l (.pass hk stunAddr payloads)
  have htick : (H.loopAfter s (l ++ [.pass hk stunAddr payloads])).tick =
      (H.loopAfter s l).tick + 1 := by
    rw [hafter]
    rfl
  refine ⟨⟨1, Nat.le_refl 1, ?_⟩, ?_⟩
  · rw [htick, hafter]
    rfl
  · intro q hq
    rw [hafter, get?_pass] at hq
    obtain ⟨p, hp, hstep⟩ := Option.bind_eq_some_iff.mp hq
    obtain ⟨l', e, m, d, hl, hlast, hquiet, hd, hcount, hsent⟩ := hc.slot p hp
    have hsends := slotSends_pass (H := H) hp hk stunAddr payloads
    rw [htick]
    rcases retryPending_some hstep with ⟨rfl, hout, hyoung⟩ | ⟨hnow, hout⟩
    · -- left as it is, so not timed out
      have hfour : d ≠ 4 := fun h => hyoung ((timedOut_iff hsent hd).mpr h)
      refine ⟨l', e, m ++ [.pass hk stunAddr payloads], d + 1, ?_, ?_, ?_, by omega, ?_, ?_⟩
      · rw [hl, List.append_assoc, List.cons_append]
      · rw [lastSent_concat, hsends, if_pos hout, hlast]
      · refine sendsNothing_concat hquiet ?_
        rw [loopAfter_split hl, hsends, hout]
      · have hpass : (LoopEvent.pass hk stunAddr payloads).isPass = true := rfl
        rw [passCount_concat, if_pos hpass]
        omega
      · rw [UInt32.ofNat_add, ← UInt32.add_assoc, hsent]
        rfl
    · refine ⟨l, .pass hk stunAddr payloads, [], 1, rfl, ?_, trivial, by omega, by omega, ?_⟩
      · rw [lastSent_concat, hsends, if_neg hout]
      · rw [hnow]
        rfl

theorem counted_datagram (hc : Counted H n s l) (time : Nat) (dualcore : Bool) (pkt : Bytes)
    (src : SocketAddr) (env : Draws) :
    Counted H n s (l ++ [.datagram time dualcore pkt src env]) := by
  have hafter := loopAfter_concat (H := H) s l (.datagram time dualcore pkt src env)
  have htick : (H.loopAfter s (l ++ [.datagram time dualcore pkt src env])).tick =
      (H.loopAfter s l).tick := by
    rw [hafter]
    rfl
  have hshtick : (H.loopAfter s (l ++ [.datagram time dualcore pkt src env])).shtick =
      (H.loopAfter s l).shtick := by
    rw [hafter]
    rfl
  have hev := received_input (H.loopAfter s l) time dualcore pkt src env
  refine ⟨?_, ?_⟩
  · rw [htick, hshtick]
    exact hc.shared
  · intro q hq
    rw [hafter] at hq
    rw [htick]
    rcases get?_datagram hev hq with ⟨hp, hout⟩ | ⟨-, hout, hnow⟩
    · obtain ⟨l', e, m, d, hl, hlast, hquiet, hd, hcount, hsent⟩ := hc.slot q hp
      refine ⟨l', e, m ++ [.datagram time dualcore pkt src env], d, ?_, ?_, ?_, hd, ?_, hsent⟩
      · rw [hl, List.append_assoc, List.cons_append]
      · rw [lastSent_concat, if_pos hout, hlast]
      · refine sendsNothing_concat hquiet ?_
        rw [loopAfter_split hl]
        exact hout
      · rw [passCount_concat]
        omega
    · obtain ⟨d, hd, hshared⟩ := hc.shared
      refine ⟨l, .datagram time dualcore pkt src env, [], d, rfl, ?_, trivial, by omega, by omega,
        ?_⟩
      · rw [lastSent_concat, if_neg hout]
      · rw [hnow, hshared]

theorem counted_run {node : NodeState} (h : Fresh node) (l : List LoopEvent) :
    Counted H n (.start node) l := by
  induction l using List.reverseRecOn with
  | nil => exact counted_start h
  | append_singleton l e ih =>
      cases e with
      | pass hk stunAddr payloads => exact counted_pass ih hk stunAddr payloads
      | datagram time dualcore pkt src env => exact counted_datagram ih time dualcore pkt src env

/-- The retries of a slot are paced while the loop is slow. -/
theorem paced_of_slow {node : NodeState} (h : Fresh node) {es : List LoopEvent}
    (hslow : SlowWhilePending H n (.start node) es) : Paced H n (.start node) es := by
  intro l e r hes hretry
  cases hp : (H.loopAfter (.start node) l).node.st.pending.get? n with
  | none =>
      rw [retryOf, hp] at hretry
      cases hretry
  | some p =>
      obtain ⟨l', x, m, d, hl, hlast, hquiet, hd, hcount, hsent⟩ := (counted_run h l).slot p hp
      refine ⟨x.time, hlast, ?_⟩
      cases e with
      | datagram time dualcore pkt src env =>
          rw [retryOf_datagram] at hretry
          cases hretry
      | pass hk stunAddr payloads =>
          have hfour : d = 4 := by
            by_contra hne
            rw [retryOf_pass hp, if_neg (fun h => hne ((timedOut_iff hsent hd).mp h))] at hretry
            split at hretry
            · cases hretry
            · cases hretry
          refine hslow l' x m (.pass hk stunAddr payloads) r ?_ rfl (by omega) ?_ hquiet
          · rw [hes, hl, List.append_assoc, List.cons_append]
          · rw [← hl]
            exact Table.contains_iff_exists.mpr ⟨p, hp⟩

/-! ## Slow loops -/

/-- Are the passes to come three seconds after a time, once there were three
since? -/
def clearOf (time : Nat) : Nat → List LoopEvent → Bool
  | _, [] => true
  | c, p :: r =>
      (!(p.isPass && decide (3 ≤ c)) || decide (time + 3000 ≤ p.time)) &&
        clearOf time (if p.isPass then c + 1 else c) r

/-- Does a loop never make four passes in three seconds? -/
def spaced : List LoopEvent → Bool
  | [] => true
  | e :: es => clearOf e.time 0 es && spaced es

theorem clearOf_pass {time c : Nat} {m r : List LoopEvent} {p : LoopEvent}
    (h : clearOf time c (m ++ p :: r) = true) (hp : p.isPass = true)
    (hc : 3 ≤ c + passCount m) : time + 3000 ≤ p.time := by
  induction m generalizing c with
  | nil =>
      have hthree : 3 ≤ c := hc
      rw [List.nil_append, clearOf, hp, decide_eq_true hthree] at h
      exact of_decide_eq_true (Bool.and_eq_true_iff.mp h).1
  | cons x m ih =>
      rw [List.cons_append, clearOf] at h
      refine ih (Bool.and_eq_true_iff.mp h).2 ?_
      rw [passCount, List.countP_cons] at hc
      rw [passCount]
      split
      · next hx =>
          rw [if_pos hx] at hc
          omega
      · next hx =>
          rw [if_neg hx] at hc
          omega

theorem slow_of_spaced {es : List LoopEvent} (h : spaced es = true) :
    SlowWhilePending H n s es := by
  intro l e m p r hes hp hm hpending hquiet
  clear hpending hquiet
  subst hes
  induction l with
  | nil =>
      rw [List.nil_append, spaced] at h
      exact clearOf_pass (Bool.and_eq_true_iff.mp h).1 hp (by omega)
  | cons x l ih => exact ih (Bool.and_eq_true_iff.mp h).2

end Pace

end TailscaleRust.Proofs
