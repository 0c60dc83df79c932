import TailscaleRust.Proofs.Tables

/-!
# What gets into the tables

Two questions about one received datagram. What does one that fails its
check leave behind: nothing, except that a response which names a handshake
in flight and does not complete it ends that handshake. And what makes the
node confirm a path and start a handshake on it: a PONG that opens, from
that path. Its transaction id is not compared with anything, so whether the
node asked for it does not matter.
-/

namespace TailscaleRust.Proofs

open TailscaleRust.Lib TailscaleRust.Core TailscaleRust.Core.Wg
open TailscaleRust.Firmware TailscaleRust.Firmware.Dataplane

/-! ## Datagrams that fail their check -/

section Rejected

variable (H : Host) (st : State) (env : Draws) (pkt : Bytes)

/-- Is the datagram a response that names a handshake in flight, but does
not complete it? The slot is then dropped. -/
def refusedSlot : Option Key :=
  if Disco.isDisco pkt ∨ Stun.isStun pkt ∨ pkt.head? ≠ some msgResponse ∨ pkt.length < 12 then none
  else
    match st.pending.find? fun _ p => p.ourIndex = u32le pkt 8 with
    | none => none
    | some (key, p) =>
        match p.hs.consumeResponse H.crypto pkt with
        | .error _ => some key
        | .ok _ => none

/-- Does the datagram fail the check that `handle_packet` applies to its
kind? A response that names no handshake in flight and a transport packet
that names no tunnel fail, too. -/
def rejected : Bool :=
  if Disco.isDisco pkt then
    match Disco.openPacket H.crypto H.identity.discoPriv pkt with
    | .error _ => true
    | .ok _ => false
  else if Stun.isStun pkt then false
  else if pkt.head? = some msgInitiation then
    match consumeInitiation H.crypto H.identity.nodePriv H.identity.nodePub pkt env.index
        env.ephemeral with
    | .error _ => true
    | .ok _ => false
  else if pkt.head? = some msgResponse then
    if pkt.length < 12 then true
    else
      match st.pending.find? fun _ p => p.ourIndex = u32le pkt 8 with
      | none => true
      | some (_, p) =>
          match p.hs.consumeResponse H.crypto pkt with
          | .error _ => true
          | .ok _ => false
  else if pkt.head? = some msgTransport then
    if pkt.length < 16 then true
    else
      match st.tunnels.get? (u32le pkt 4) with
      | none => true
      | some e =>
          match e.tun.decrypt H.crypto pkt with
          | .error _ => true
          | .ok _ => false
  else false

end Rejected

section Rejected

variable {H : Host} {st : State} {env : Draws} {pkt : Bytes} {src : SocketAddr}

/-- The check that failed, and what the datagram was taken for before it. -/
theorem rejected_cases (h : rejected H st env pkt = true) :
    (Disco.isDisco pkt = true ∧
      ∃ e, Disco.openPacket H.crypto H.identity.discoPriv pkt = .error e) ∨
    (¬Disco.isDisco pkt = true ∧ ¬Stun.isStun pkt = true ∧
      ((pkt.head? = some msgInitiation ∧
          ∃ e, consumeInitiation H.crypto H.identity.nodePriv H.identity.nodePub pkt env.index
            env.ephemeral = .error e) ∨
        (pkt.head? = some msgResponse ∧ (¬pkt.length < 12 → ∀ key p,
          st.pending.find? (fun _ p => p.ourIndex = u32le pkt 8) = some (key, p) →
          ∃ e, p.hs.consumeResponse H.crypto pkt = .error e)) ∨
        (pkt.head? = some msgTransport ∧ (¬pkt.length < 16 → ∀ e,
          st.tunnels.get? (u32le pkt 4) = some e →
          ∃ err, e.tun.decrypt H.crypto pkt = .error err)))) := by
  rw [rejected] at h
  split at h
  · next hdisco =>
      cases hmsg : Disco.openPacket H.crypto H.identity.discoPriv pkt with
      | error e => exact .inl ⟨hdisco, e, rfl⟩
      | ok msg =>
          simp only [hmsg] at h
          cases h
  · next hdisco =>
      split at h
      · cases h
      · next hstun =>
          refine .inr ⟨hdisco, hstun, ?_⟩
          split at h
          · next hinit =>
              cases hmade : consumeInitiation H.crypto H.identity.nodePriv H.identity.nodePub
                  pkt env.index env.ephemeral with
              | error e => exact .inl ⟨hinit, e, rfl⟩
              | ok made =>
                  simp only [hmade] at h
                  cases h
          · split at h
            · next hresp =>
                refine .inr (.inl ⟨hresp, fun hlen key p hfind => ?_⟩)
                rw [if_neg hlen, hfind] at h
                cases hres : p.hs.consumeResponse H.crypto pkt with
                | error e => exact ⟨e, rfl⟩
                | ok tun =>
                    simp only [hres] at h
                    cases h
            · split at h
              · next htrans =>
                  refine .inr (.inr ⟨htrans, fun hlen e hget => ?_⟩)
                  rw [if_neg hlen, hget] at h
                  cases hplain : e.tun.decrypt H.crypto pkt with
                  | error err => exact ⟨err, rfl⟩
                  | ok inner =>
                      simp only [hplain] at h
                      cases h
              · cases h

/-! Each handler does nothing on a datagram that fails its check, but for the
slot of a refused response. -/

theorem handleDisco_rejected {targets : List Target} {tick : UInt32} {e : String}
    (h : Disco.openPacket H.crypto H.identity.discoPriv pkt = .error e) :
    handleDisco H.crypto env H.identity targets st tick pkt src = (st, []) := by
  simp only [handleDisco, h]

theorem handleWgInit_rejected {e : String}
    (h : consumeInitiation H.crypto H.identity.nodePriv H.identity.nodePub pkt env.index
      env.ephemeral = .error e) :
    handleWgInit H.crypto env H.identity st pkt src = (st, []) := by
  simp only [handleWgInit, h]

theorem handleWgTransport_rejected
    (h : ¬pkt.length < 16 → ∀ e, st.tunnels.get? (u32le pkt 4) = some e →
      ∃ err, e.tun.decrypt H.crypto pkt = .error err) :
    handleWgTransport H.crypto H.features env H.identity st pkt src = (st, []) := by
  rw [handleWgTransport]
  split
  · rfl
  · next hlen =>
      cases hget : st.tunnels.get? (u32le pkt 4) with
      | none => simp only [hget]
      | some e =>
          obtain ⟨err, herr⟩ := h hlen e hget
          simp only [hget, herr]

theorem refusedSlot_of_not_response
    (h : Disco.isDisco pkt = true ∨ Stun.isStun pkt = true ∨ pkt.head? ≠ some msgResponse ∨
      pkt.length < 12) : refusedSlot H st pkt = none := by
  rw [refusedSlot, if_pos h]

theorem handleWgResponse_rejected (hdisco : ¬Disco.isDisco pkt = true)
    (hstun : ¬Stun.isStun pkt = true) (hresp : pkt.head? = some msgResponse)
    (h : ¬pkt.length < 12 → ∀ key p,
      st.pending.find? (fun _ p => p.ourIndex = u32le pkt 8) = some (key, p) →
      ∃ e, p.hs.consumeResponse H.crypto pkt = .error e) :
    handleWgResponse H.crypto st pkt src =
      ({ st with
          pending :=
            match refusedSlot H st pkt with
            | none => st.pending
            | some key => st.pending.erase key }, []) := by
  rw [handleWgResponse]
  split
  · next hlen => rw [refusedSlot_of_not_response (.inr (.inr (.inr hlen)))]
  · next hlen =>
      have hother : ¬(Disco.isDisco pkt = true ∨ Stun.isStun pkt = true ∨
          pkt.head? ≠ some msgResponse ∨ pkt.length < 12) := by
        simp only [not_or, not_not]
        exact ⟨hdisco, hstun, hresp, hlen⟩
      rw [refusedSlot, if_neg hother]
      cases hfind : st.pending.find? fun _ p => p.ourIndex = u32le pkt 8 with
      | none => rfl
      | some f =>
          obtain ⟨key, p⟩ := f
          obtain ⟨e, he⟩ := h hlen key p hfind
          simp only [he]

end Rejected

/-- A datagram that fails its check sends nothing and changes nothing, in any
state and from any address, except that a response which names a handshake
in flight and fails `consume_response` drops that handshake and no other. -/
theorem rejected_keeps_peers (H : Host) (s : NodeState) (tick : UInt32) (pkt : Bytes)
    (src : SocketAddr) (env : Draws) (h : rejected H s.st env pkt = true) :
    handlePacket H.crypto H.features env H.identity s.lp.targets s.st tick pkt src =
      ({ s.st with
          pending :=
            match refusedSlot H s.st pkt with
            | none => s.st.pending
            | some key => s.st.pending.erase key }, []) := by
  rw [handlePacket]
  rcases rejected_cases h with ⟨hdisco, e, he⟩ | ⟨hdisco, hstun, hkind⟩
  · rw [if_pos hdisco, handleDisco_rejected he, refusedSlot_of_not_response (.inl hdisco)]
  · rw [if_neg hdisco, if_neg hstun]
    rcases hkind with ⟨hinit, e, he⟩ | ⟨hresp, hfail⟩ | ⟨htrans, hfail⟩
    · have hnot : pkt.head? ≠ some msgResponse := by
        rw [hinit]
        decide
      rw [if_pos hinit, handleWgInit_rejected he,
        refusedSlot_of_not_response (.inr (.inr (.inl hnot)))]
    · have hnot : pkt.head? ≠ some msgInitiation := by
        rw [hresp]
        decide
      rw [if_neg hnot, if_pos hresp, handleWgResponse_rejected hdisco hstun hresp hfail]
    · have hnot : pkt.head? ≠ some msgInitiation ∧ pkt.head? ≠ some msgResponse := by
        rw [htrans]
        decide
      rw [if_neg hnot.1, if_neg hnot.2, if_pos htrans, handleWgTransport_rejected hfail,
        refusedSlot_of_not_response (.inr (.inr (.inl hnot.2)))]

/-- Twelve bytes that name the handshake in flight under index 9. -/
def twelveBytes : Bytes := [2, 0, 0, 0, 0, 0, 0, 0, 9, 0, 0, 0]

/-- The node with a handshake to one peer in flight. -/
def inFlight : NodeState := solo.after soloStart [arrives (pongOf 5) 5 9]

theorem inFlight_rejects :
    inFlight.st.pending.contains (byteKey 5) = true ∧
    (rejected solo inFlight.st zeroDraws twelveBytes = true ∧
      (handlePacket solo.crypto solo.features zeroDraws solo.identity inFlight.lp.targets
        inFlight.st 0 twelveBytes (lanAddr 66)).1.pending.contains (byteKey 5) = false) ∧
    rejected solo inFlight.st zeroDraws (pongOf 5 ++ [0]) = true ∧
      refusedSlot solo inFlight.st (pongOf 5 ++ [0]) = none := by
  decide +kernel

theorem forged_response_drops_slot :
    Fresh soloStart ∧ ∃ s, Run solo.Steps soloStart [arrives (pongOf 5) 5 9] s ∧
      rejected solo s.st zeroDraws twelveBytes = true ∧
      (handlePacket solo.crypto solo.features zeroDraws solo.identity s.lp.targets s.st 0
        twelveBytes (lanAddr 66)).1.pending ≠ s.st.pending := by
  obtain ⟨hbefore, ⟨hrej, hafter⟩, -⟩ := inFlight_rejects
  refine ⟨solo_fresh, inFlight, solo.run_after soloStart _, hrej, fun heq => ?_⟩
  rw [heq, hbefore] at hafter
  cases hafter

theorem rejected_keeps_peers_solo :
    ∃ s, Run solo.Steps soloStart [arrives (pongOf 5) 5 9] s ∧
      s.st.pending.contains (byteKey 5) = true ∧
      (handlePacket solo.crypto solo.features zeroDraws solo.identity s.lp.targets s.st 0
        (pongOf 5 ++ [0]) (lanAddr 66)) = (s.st, []) := by
  obtain ⟨s, hs⟩ : ∃ s, s = inFlight := ⟨_, rfl⟩
  obtain ⟨hpend, -, hrej, hslot⟩ := inFlight_rejects
  rw [← hs] at hpend hrej hslot
  have hkept := rejected_keeps_peers solo s 0 (pongOf 5 ++ [0]) (lanAddr 66) zeroDraws hrej
  rw [hslot] at hkept
  exact ⟨s, hs ▸ solo.run_after soloStart _, hpend, hkept⟩

/-! ## PONGs

What a PONG does, and that nothing else does it. -/

/-- The input brings a PONG that opens, under this sender's disco key and
from this address. -/
def Ponged (H : Host) (ev : Input) (tick : UInt32) (env : Draws) (sender : Key)
    (a : SocketAddr) : Prop :=
  ∃ pkt msg, ev.received? = some (tick, pkt, a, env) ∧ Disco.isDisco pkt = true ∧
    Disco.openPacket H.crypto H.identity.discoPriv pkt = .ok msg ∧
    msg.msgType = Disco.pong ∧ msg.senderDiscoPub = sender

section Pongs

variable {H : Host} {s : NodeState} {ev : Input} {tick : UInt32} {env : Draws} {sender : Key}
  {a : SocketAddr}

theorem received_pong {pkt : Bytes} {msg : Disco.Incoming} (hdisco : Disco.isDisco pkt = true)
    (hopen : Disco.openPacket H.crypto H.identity.discoPriv pkt = .ok msg)
    (hpong : msg.msgType = Disco.pong) :
    received H s tick pkt a env = .pong tick env msg.senderDiscoPub a := by
  rw [received, if_pos hdisco, hopen]
  simp only [if_pos hpong]

theorem outcome_pong_iff :
    outcome H s ev = .pong tick env sender a ↔ Ponged H ev tick env sender a := by
  refine ⟨fun ho => (step_pong ho).1, ?_⟩
  intro hp
  obtain ⟨pkt, msg, hev, hdisco, hopen, hpong, rfl⟩ := hp
  cases ev with
  | packet tick' pkt' src env' =>
      cases hev
      exact received_pong hdisco hopen hpong
  | process tick' pkt' src env' =>
      cases hev
      exact received_pong hdisco hopen hpong
  | periodic tick' hk stunAddr => cases hev
  | drain payloads => cases hev

/-- Only a PONG adds to the confirmed paths. -/
theorem mem_confirmed_step (b : SocketAddr) :
    b ∈ (H.step s ev).1.st.confirmed ↔
      b ∈ s.st.confirmed ∨ ∃ tick env sender, Ponged H ev tick env sender b := by
  have hsame : (∀ tick env sender src, outcome H s ev ≠ .pong tick env sender src) →
      (H.step s ev).1.st.confirmed = s.st.confirmed →
      (b ∈ (H.step s ev).1.st.confirmed ↔
        b ∈ s.st.confirmed ∨ ∃ tick env sender, Ponged H ev tick env sender b) := by
    intro hno heq
    rw [heq]
    refine ⟨.inl, ?_⟩
    intro hor
    rcases hor with hmem | ⟨tick, env, sender, hp⟩
    · exact hmem
    · exact absurd (outcome_pong_iff.mpr hp) (hno tick env sender b)
  cases ho : outcome H s ev with
  | pong tick env sender src =>
      obtain ⟨-, -, hconf, -⟩ := step_pong ho
      rw [hconf, List.mem_insert_iff]
      refine ⟨?_, ?_⟩
      · intro hor
        rcases hor with rfl | hmem
        · exact .inr ⟨tick, env, sender, outcome_pong_iff.mp ho⟩
        · exact .inl hmem
      · intro hor
        rcases hor with hmem | ⟨tick', env', sender', hp⟩
        · exact .inr hmem
        · have ho' : outcome H s ev = .pong tick' env' sender' b := outcome_pong_iff.mpr hp
          rw [ho] at ho'
          cases ho'
          exact .inl rfl
  | quiet =>
      exact hsame (fun _ _ _ _ h => by cases ho.symm.trans h) (step_quiet ho).steady.confirmed
  | answer i resp tun peer src =>
      exact hsame (fun _ _ _ _ h => by cases ho.symm.trans h) (by rw [(step_answer ho).2]; rfl)
  | complete key p tun src =>
      exact hsame (fun _ _ _ _ h => by cases ho.symm.trans h) (by rw [(step_complete ho).2]; rfl)
  | refuse key =>
      exact hsame (fun _ _ _ _ h => by cases ho.symm.trans h) (by rw [(step_refuse ho).2])
  | retry tick =>
      exact hsame (fun _ _ _ _ h => by cases ho.symm.trans h) (step_retry ho).1.2.1

theorem mem_confirmed_run {s₀ : NodeState} {evs : List Input} (hfresh : Fresh s₀)
    (hrun : Run H.Steps s₀ evs s) (b : SocketAddr) :
    b ∈ s.st.confirmed ↔ ∃ ev ∈ evs, ∃ tick env sender, Ponged H ev tick env sender b := by
  refine hrun.history (P := fun evs s => b ∈ s.st.confirmed ↔
    ∃ ev ∈ evs, ∃ tick env sender, Ponged H ev tick env sender b) ?_ ?_
  · rw [hfresh.confirmed]
    simp
  · intro evs s ev t h hstep
    rw [← hstep, mem_confirmed_step, h]
    simp only [List.mem_append, List.mem_singleton, or_and_right, exists_or, exists_eq_left]

/-- A received datagram makes the node send an initiation only if it is a
PONG on whose path a handshake may start. -/
theorem mem_initiations_received {d : Datagram} (hrecv : ev.received? ≠ none) :
    d ∈ initiations (H.step s ev).2 ↔
      ∃ tick env sender a t, Ponged H ev tick env sender a ∧
        Admits s.lp.targets s.st sender a t ∧
        d = ⟨a, (opening H env tick t.nodePub a).init.1⟩ := by
  refine ⟨?_, ?_⟩
  · intro hd
    by_cases hpong : ∃ tick env sender src, outcome H s ev = .pong tick env sender src
    · obtain ⟨tick, env, sender, src, ho⟩ := hpong
      rw [initiations_pong ho] at hd
      split at hd
      · cases hd
      · next t hstart =>
          exact ⟨tick, env, sender, src, t, outcome_pong_iff.mp ho, startTarget_some.mp hstart,
            List.mem_singleton.mp hd⟩
    · have hretry : ∀ tick, outcome H s ev ≠ .retry tick := by
        intro tick ho
        cases ev with
        | packet tick' pkt src env => exact absurd ho (received_ne_retry tick' pkt src env tick)
        | process tick' pkt src env => exact absurd ho (received_ne_retry tick' pkt src env tick)
        | periodic tick' hk stunAddr => exact hrecv rfl
        | drain payloads => exact hrecv rfl
      have hnone := (initiations_silent (fun tick env sender src ho =>
        hpong ⟨tick, env, sender, src, ho⟩) hretry).1
      rw [hnone] at hd
      cases hd
  · intro hex
    obtain ⟨tick, env, sender, a, t, hp, hadm, rfl⟩ := hex
    rw [initiations_pong (outcome_pong_iff.mpr hp), startTarget_some.mpr hadm]
    exact List.mem_singleton.mpr rfl

/-- Nothing but a PONG fills an empty slot. -/
theorem slot_stays_empty {n : Key} (hempty : s.st.pending.get? n = none)
    (hno : ∀ tick env sender src, outcome H s ev ≠ .pong tick env sender src) :
    (H.step s ev).1.st.pending.get? n = none := by
  have herase : ∀ key, (s.st.pending.erase key).get? n = none := by
    intro key
    rw [Table.get?_erase, hempty, ite_self]
  cases ho : outcome H s ev with
  | pong tick env sender src => exact absurd ho (hno tick env sender src)
  | quiet => rw [(step_quiet ho).steady.pending, hempty]
  | answer i resp tun peer src =>
      rw [(step_answer ho).2]
      exact hempty
  | complete key q tun src =>
      rw [(step_complete ho).2]
      exact herase key
  | refuse key =>
      rw [(step_refuse ho).2]
      exact herase key
  | retry tick =>
      rw [(step_retry ho).1.1, get?_retryAll, hempty]
      rfl

/-- And a PONG fills it for a target that admits a handshake. -/
theorem slot_filled_by_pong {src : SocketAddr} {n : Key} {p : Pending}
    (hempty : s.st.pending.get? n = none) (ho : outcome H s ev = .pong tick env sender src) :
    (H.step s ev).1.st.pending.get? n = some p ↔
      ∃ t, Admits s.lp.targets s.st sender src t ∧ t.nodePub = n ∧ env.sendOk = true ∧
        p = opening H env tick n src := by
  obtain ⟨-, -, -, hpend, -⟩ := step_pong ho
  rw [hpend]
  refine ⟨?_, ?_⟩
  · intro hp
    split at hp
    · rw [hempty] at hp
      cases hp
    · next t hstart =>
        split at hp
        · next hsend =>
            rw [Table.get?_insert] at hp
            split at hp
            · next hn =>
                cases hp
                exact ⟨t, startTarget_some.mp hstart, hn.symm, hsend, by rw [hn]⟩
            · rw [hempty] at hp
              cases hp
        · rw [hempty] at hp
          cases hp
  · intro hex
    obtain ⟨t, hadm, hn, hsend, rfl⟩ := hex
    rw [startTarget_some.mpr hadm]
    simp only [hsend, if_true]
    rw [Table.get?_insert, if_pos hn.symm, hn]

theorem slot_filled_iff {n : Key} {p : Pending} (hempty : s.st.pending.get? n = none) :
    (H.step s ev).1.st.pending.get? n = some p ↔
      ∃ tick env sender a t, Ponged H ev tick env sender a ∧
        Admits s.lp.targets s.st sender a t ∧ t.nodePub = n ∧ env.sendOk = true ∧
        p = opening H env tick n a := by
  refine ⟨?_, ?_⟩
  · intro hp
    by_cases hpong : ∃ tick env sender src, outcome H s ev = .pong tick env sender src
    · obtain ⟨tick, env, sender, src, ho⟩ := hpong
      obtain ⟨t, ht⟩ := (slot_filled_by_pong hempty ho).mp hp
      exact ⟨tick, env, sender, src, t, outcome_pong_iff.mp ho, ht⟩
    · rw [slot_stays_empty hempty fun tick env sender src ho =>
        hpong ⟨tick, env, sender, src, ho⟩] at hp
      cases hp
  · intro hex
    obtain ⟨tick, env, sender, a, t, hp, ht⟩ := hex
    exact (slot_filled_by_pong hempty (outcome_pong_iff.mpr hp)).mpr ⟨t, ht⟩

/-- Two PONGs of one sender are handled alike, whatever they carry. -/
theorem pong_txid_unused {pkt pkt' : Bytes} {msg msg' : Disco.Incoming} {targets : List Target}
    {st : State} (hdisco : Disco.isDisco pkt = true) (hdisco' : Disco.isDisco pkt' = true)
    (hopen : Disco.openPacket H.crypto H.identity.discoPriv pkt = .ok msg)
    (hopen' : Disco.openPacket H.crypto H.identity.discoPriv pkt' = .ok msg')
    (hpong : msg.msgType = Disco.pong) (hpong' : msg'.msgType = Disco.pong)
    (hsender : msg'.senderDiscoPub = msg.senderDiscoPub) :
    handlePacket H.crypto H.features env H.identity targets st tick pkt' a =
      handlePacket H.crypto H.features env H.identity targets st tick pkt a := by
  have hnotPing : ¬Disco.pong = Disco.ping := by decide
  rw [handlePacket, handlePacket, if_pos hdisco, if_pos hdisco', handleDisco, handleDisco, hopen,
    hopen']
  simp only [hpong, hpong', hsender, if_neg hnotPing]

end Pongs

/-- Every run. A path is confirmed exactly if a PONG that opens has arrived
from it; a received datagram makes the node send an initiation to a path,
and an empty slot is filled, exactly if it is such a PONG, sealed under the
disco key of a target for which a handshake may start there. The transaction
id of the PONG has no part in it. -/
theorem path_confirmed_iff (H : Host) (s₀ s : NodeState) (evs : List Input) (hfresh : Fresh s₀)
    (hrun : Run H.Steps s₀ evs s) :
    (∀ a, a ∈ s.st.confirmed ↔ ∃ ev ∈ evs, ∃ tick env sender, Ponged H ev tick env sender a) ∧
    (∀ ev d, ev.received? ≠ none → (d ∈ initiations (H.step s ev).2 ↔
      ∃ tick env sender a t, Ponged H ev tick env sender a ∧
        Admits s.lp.targets s.st sender a t ∧
        d = ⟨a, (opening H env tick t.nodePub a).init.1⟩)) ∧
    (∀ ev n p, s.st.pending.get? n = none → ((H.step s ev).1.st.pending.get? n = some p ↔
      ∃ tick env sender a t, Ponged H ev tick env sender a ∧
        Admits s.lp.targets s.st sender a t ∧ t.nodePub = n ∧ env.sendOk = true ∧
        p = opening H env tick n a)) ∧
    (∀ tick env a pkt pkt' msg msg', Disco.isDisco pkt = true → Disco.isDisco pkt' = true →
      Disco.openPacket H.crypto H.identity.discoPriv pkt = .ok msg →
      Disco.openPacket H.crypto H.identity.discoPriv pkt' = .ok msg' →
      msg.msgType = Disco.pong → msg'.msgType = Disco.pong →
      msg'.senderDiscoPub = msg.senderDiscoPub →
      H.step s (.packet tick pkt' a env) = H.step s (.packet tick pkt a env)) := by
  refine ⟨mem_confirmed_run hfresh hrun, fun ev d hrecv => mem_initiations_received hrecv,
    fun ev n p hempty => slot_filled_iff hempty, ?_⟩
  intro tick env a pkt pkt' msg msg' hdisco hdisco' hopen hopen' hpong hpong' hsender
  rw [Host.step, Host.step, pong_txid_unused hdisco hdisco' hopen hopen' hpong hpong' hsender]

/-- The node has not run its periodic work yet, so it has asked for nothing. -/
theorem unsolicited_pong_confirms :
    Fresh soloStart ∧ ∃ s, Run solo.Steps soloStart [arrives (pongOf 5) 66 9] s ∧
      lanAddr 66 ∈ s.st.confirmed ∧
      (∃ d ∈ initiations (solo.step soloStart (arrives (pongOf 5) 66 9)).2,
        d.dst = lanAddr 66) ∧
      s.st.pending.contains (byteKey 5) = true := by
  refine ⟨solo_fresh, _, solo.run_after soloStart _, ?_⟩
  decide +kernel

theorem path_confirmed_solo :
    ∃ s, Run solo.Steps soloStart [arrives (pongOf 5) 5 9] s ∧ lanAddr 5 ∈ s.st.confirmed ∧
      ∃ ev ∈ [arrives (pongOf 5) 5 9], ∃ tick env sender,
        Ponged solo ev tick env sender (lanAddr 5) := by
  have hrun := solo.run_after soloStart [arrives (pongOf 5) 5 9]
  have hmem : lanAddr 5 ∈ (solo.after soloStart [arrives (pongOf 5) 5 9]).st.confirmed := by
    decide +kernel
  obtain ⟨hconf, -⟩ := path_confirmed_iff solo soloStart _ _ solo_fresh hrun
  exact ⟨_, hrun, hmem, (hconf (lanAddr 5)).mp hmem⟩

end TailscaleRust.Proofs
