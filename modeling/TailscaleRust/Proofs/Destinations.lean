import TailscaleRust.Proofs.Pacing

/-!
# Where a node sends

Every datagram the node ever sends is accounted for by its kind and its
destination. A transport packet is sealed by one tunnel and goes to where the
run last heard the peer of this tunnel, in a handshake that completed or in a
packet that decrypted under it. An initiation for a peer goes to an address
from which a PONG under the disco key of this peer came, asked for or not.
Answers go back to where the question came from. What is sent unasked to other
addresses is a ping sealed for a target, to its endpoints, listed or sprayed,
and the STUN request.

Two facts about the tables carry this through a run: a tunnel's address is
where it was last heard, and a slot holds what a PONG opened. `Placed` holds
them against the run so far.
-/

namespace TailscaleRust.Proofs.Destinations

open TailscaleRust.Lib TailscaleRust.Core TailscaleRust.Core.Wg
open TailscaleRust.Firmware TailscaleRust.Firmware.Dataplane

/-! ## What happened before -/

/-- A step of the run had a property, in the state it found. -/
def Sometime (H : Host) (s₀ : NodeState) (evs : List Input) (P : NodeState → Input → Prop) :
    Prop :=
  ∃ past ev rest, evs = past ++ ev :: rest ∧ P (H.after s₀ past) ev

/-- A disco message of a type came from the address, sealed for us. -/
def Disclosed (H : Host) (type : UInt8) (a : SocketAddr) (ev : Input) (msg : Disco.Incoming) :
    Prop :=
  ∃ tick pkt env, ev.received? = some (tick, pkt, a, env) ∧ Disco.isDisco pkt = true ∧
    Disco.openPacket H.crypto H.identity.discoPriv pkt = .ok msg ∧ msg.msgType = type

/-- The step hears a PONG under the disco key of the target with this key, and
the datagram is the initiation for this target that the step builds, for the
address the PONG came from. -/
def Opens (H : Host) (n : Key) (d : Datagram) (s : NodeState) (ev : Input) : Prop :=
  ∃ tick pkt env msg, ev.received? = some (tick, pkt, d.dst, env) ∧
    Disco.openPacket H.crypto H.identity.discoPriv pkt = .ok msg ∧ msg.msgType = Disco.pong ∧
    (∃ t ∈ s.lp.targets, t.nodePub = n ∧ t.discoPub = msg.senderDiscoPub) ∧
    d.bytes = (opening H env tick n d.dst).init.1

section Sometime

variable {H : Host} {s₀ : NodeState} {evs : List Input} {P : NodeState → Input → Prop}

theorem after_concat (s : NodeState) (l : List Input) (ev : Input) :
    H.after s (l ++ [ev]) = (H.step (H.after s l) ev).1 := by
  induction l generalizing s with
  | nil => rfl
  | cons x l ih => exact ih _

theorem Sometime.later (h : Sometime H s₀ evs P) (ev : Input) : Sometime H s₀ (evs ++ [ev]) P := by
  obtain ⟨past, ev', rest, rfl, hP⟩ := h
  exact ⟨past, ev', rest ++ [ev], by rw [List.append_assoc, List.cons_append], hP⟩

theorem sometime_now {ev : Input} (h : P (H.after s₀ evs) ev) : Sometime H s₀ (evs ++ [ev]) P :=
  ⟨evs, ev, [], rfl, h⟩

/-- Where a tunnel was last heard it was heard. -/
theorem heard_of_lastHeard {i : UInt32} {a : SocketAddr} (h : lastHeard H i s₀ evs = some a) :
    Sometime H s₀ evs fun s ev => heardAt H s ev i = some a := by
  induction evs generalizing s₀ with
  | nil => cases h
  | cons ev evs ih =>
      rw [lastHeard, Option.or_eq_some_iff] at h
      rcases h with hlater | ⟨-, hnow⟩
      · obtain ⟨past, ev', rest, rfl, hheard⟩ := ih hlater
        exact ⟨ev :: past, ev', rest, rfl, hheard⟩
      · exact ⟨[], ev, evs, rfl, hnow⟩

end Sometime

/-! ## Where the tables point -/

section Placed

variable {H : Host} {s : NodeState} {ev : Input}

theorem opens_of_pong {tick : UInt32} {env : Draws} {sender : Key} {src : SocketAddr} {t : Target}
    (ho : outcome H s ev = .pong tick env sender src)
    (hstart : startTarget s.lp.targets s.st sender src = some t) :
    Opens H t.nodePub ⟨src, (opening H env tick t.nodePub src).init.1⟩ s ev := by
  obtain ⟨⟨pkt, msg, hev, -, hopen, hpong, hsender⟩, -⟩ := step_pong ho
  have htarget := (startTarget_some.mp hstart).target
  have hsame := List.find?_some htarget
  refine ⟨tick, pkt, env, msg, hev, hopen, hpong, ⟨t, List.mem_of_find?_eq_some htarget, rfl, ?_⟩,
    rfl⟩
  rw [hsender]
  exact of_decide_eq_true hsame

/-- The datagram of a slot, as it is sent and resent. -/
def slotDatagram (p : Pending) : Datagram := ⟨p.addr, p.init.1⟩

/-- A slot is filled by a PONG, and keeps its initiation and its address. -/
theorem slot_step {n : Key} {q : Pending} (hq : (H.step s ev).1.st.pending.get? n = some q) :
    Opens H n (slotDatagram q) s ev ∨
      ∃ p, s.st.pending.get? n = some p ∧ slotDatagram p = slotDatagram q := by
  cases ho : outcome H s ev with
  | quiet =>
      rw [(step_quiet ho).steady.pending] at hq
      exact .inr ⟨q, hq, rfl⟩
  | pong tick env sender src =>
      obtain ⟨-, -, -, hpend, -⟩ := step_pong ho
      rw [hpend] at hq
      split at hq
      · exact .inr ⟨q, hq, rfl⟩
      · next t hstart =>
          split at hq
          · rw [Table.get?_insert] at hq
            split at hq
            · next hn =>
                cases hq
                rw [hn]
                exact .inl (opens_of_pong ho hstart)
            · exact .inr ⟨q, hq, rfl⟩
          · exact .inr ⟨q, hq, rfl⟩
  | answer i resp tun peer src =>
      rw [(step_answer ho).2] at hq
      exact .inr ⟨q, hq, rfl⟩
  | complete key p tun src =>
      rw [(step_complete ho).2] at hq
      exact .inr ⟨q, get?_of_erase hq, rfl⟩
  | refuse key =>
      rw [(step_refuse ho).2] at hq
      exact .inr ⟨q, get?_of_erase hq, rfl⟩
  | retry tick =>
      rw [(step_retry ho).1.1, get?_retryAll] at hq
      obtain ⟨p, hp, hstep⟩ := Option.bind_eq_some_iff.mp hq
      refine .inr ⟨p, hp, ?_⟩
      rcases retryPending_cases s.st.tunnels tick p with hdrop | hkeep | ⟨-, hsend⟩
      · rw [hdrop] at hstep
        cases hstep
      · rw [hkeep] at hstep
        cases hstep
        rfl
      · rw [hsend] at hstep
        cases hstep
        rfl

/-- Every tunnel leads to where it was last heard, and every slot holds what a
PONG of its peer opened. -/
structure Placed (H : Host) (s₀ : NodeState) (evs : List Input) (st : State) : Prop where
  tunnels : ∀ i a, addrAt st i = some a → lastHeard H i s₀ evs = some a
  pending : ∀ n p, st.pending.get? n = some p → Sometime H s₀ evs (Opens H n (slotDatagram p))

theorem placed_run {s₀ : NodeState} (hfresh : Fresh s₀) (evs : List Input) :
    Placed H s₀ evs (H.after s₀ evs).st := by
  refine ⟨fun i a ha => ?_, ?_⟩
  · rcases lastHeard_run (H.run_after s₀ evs) ha with hlast | ⟨-, hnone⟩
    · exact hlast
    · rw [addrAt, hfresh.tunnels, Table.get?_empty] at hnone
      cases hnone
  · induction evs using List.reverseRecOn with
    | nil =>
        intro n p hp
        rw [Host.after, hfresh.pending, Table.get?_empty] at hp
        cases hp
    | append_singleton evs ev ih =>
        intro n q hq
        rw [after_concat] at hq
        rcases slot_step hq with hopens | ⟨p, hp, hsame⟩
        · exact sometime_now hopens
        · rw [← hsame]
          exact (ih n p hp).later ev

end Placed

/-! ## The periodic work -/

/-- An endpoint of a target, or a port of its public address that the spray
may try. -/
inductive Endpoint (F : Features) (t : Target) : SocketAddr → Prop
  | listed {a : SocketAddr} (h : a ∈ t.endpoints) : Endpoint F t a
  | sprayed {ip : Ipv4Addr} {port p : UInt16} (hbirthday : F.birthday = true)
      (hspray : t.spray = true) (h : SocketAddr.v4 ip port ∈ t.endpoints)
      (hpublic : isPublicV4 ip = true) (hp : 1024 ≤ p) : Endpoint F t (.v4 ip p)

section Periodic

variable {C : Crypto} {F : Features} {hk : Housekeeping} {id : Identity}

theorem birthdayPorts_ge {base : UInt16} {tick : UInt32} {tail : List UInt16} {p : UInt16}
    (hp : p ∈ birthdayPorts base tick tail) : 1024 ≤ p := by
  rw [birthdayPorts] at hp
  rcases List.mem_append.mp hp with hp | hp
  · obtain ⟨d, -, hd⟩ := List.mem_filterMap.mp hp
    obtain ⟨⟨hlow, hhigh⟩, hport⟩ := Option.ite_none_right_eq_some.mp hd
    cases hport
    rw [UInt16.le_iff_toNat_le, UInt16.toNat_ofNat_of_lt' (by rw [UInt16.size]; omega)]
    show 1024 ≤ _
    omega
  · exact of_decide_eq_true (List.mem_filter.mp hp).2

theorem sprayTarget_dst {tunnels : Table UInt32 TunnelEntry} {t : Target} {n : Nat} {pkt : Bytes}
    {round : UInt32} {d : Datagram} (hd : d ∈ sprayTarget F hk tunnels t n pkt round) :
    Endpoint F t d.dst := by
  rw [sprayTarget] at hd
  split at hd
  · next hguard =>
      obtain ⟨l, hl, hd⟩ := List.mem_flatten.mp hd
      obtain ⟨i, hi, rfl⟩ := List.mem_mapIdx.mp hl
      have hep : t.endpoints[i] ∈ t.endpoints := List.getElem_mem hi
      rw [sprayEndpoint.eq_def] at hd
      split at hd
      · next ip port hv4 =>
          split at hd
          · next hpublic =>
              obtain ⟨p, hp, rfl⟩ := List.mem_map.mp hd
              rw [hv4] at hep
              exact .sprayed hguard.1 hguard.2.1 hep hpublic (birthdayPorts_ge hp)
          · cases hd
      · cases hd
  · cases hd

/-- The ping of a target, to one of its endpoints. -/
def Probe (C : Crypto) (F : Features) (id : Identity) (t : Target) (d : Datagram) : Prop :=
  SealedPing C id t.discoPub d.bytes ∧ Endpoint F t d.dst

/-- What a probe round sends are pings of the targets. -/
theorem probeTargets_mem {tunnels : Table UInt32 TunnelEntry} {round : UInt32} {n : Nat}
    {ts : List Target} {strikes : Table SocketAddr UInt8} {out : List Datagram} {d : Datagram}
    (hd : d ∈ (probeTargets C F hk id tunnels round n ts strikes out).2) :
    d ∈ out ∨ ∃ t ∈ ts, Probe C F id t d := by
  induction ts generalizing n strikes out with
  | nil => exact .inl hd
  | cons t ts ih =>
      have hlater : ∀ {strikes out},
          d ∈ (probeTargets C F hk id tunnels round (n + 1) ts strikes out).2 →
          d ∈ out ∨ ∃ t' ∈ t :: ts, Probe C F id t' d := by
        intro strikes out hd
        rcases ih hd with hout | ⟨t', ht', hprobe⟩
        · exact .inl hout
        · exact .inr ⟨t', List.mem_cons_of_mem t ht', hprobe⟩
      rw [probeTargets] at hd
      split at hd
      · exact hlater hd
      · split at hd
        · exact hlater hd
        · next pkt hpkt =>
            have hping : SealedPing C id t.discoPub pkt := ⟨_, _, hpkt⟩
            simp only [] at hd
            rcases hlater hd with hsent | hlast
            · rcases List.mem_append.mp hsent with hprobe | hspray
              · obtain ⟨new, hnew, hall⟩ := probeEndpoints_append hk pkt t.endpoints strikes out
                rw [hnew] at hprobe
                rcases List.mem_append.mp hprobe with hout | hprobe
                · exact .inl hout
                · obtain ⟨hbytes, hdst⟩ := hall d hprobe
                  exact .inr ⟨t, List.mem_cons_self, hbytes ▸ hping, .listed hdst⟩
              · have hbytes := sprayTarget_mem F hk d hspray
                exact .inr ⟨t, List.mem_cons_self, hbytes ▸ hping, sprayTarget_dst hspray⟩
            · exact .inr hlast

/-- What the periodic step sends: retries, probes, packets through tunnels,
and the STUN request. -/
inductive PeriodicSend (C : Crypto) (F : Features) (hk : Housekeeping) (id : Identity)
    (st : State) (tick : UInt32) (targets : List Target) (stunAddr : Option SocketAddr)
    (d : Datagram) : Prop
  | retry (h : d ∈ (retryAll st tick).2)
  | probe {t : Target} (ht : t ∈ targets) (h : Probe C F id t d)
  | tunnel {i : UInt32} (h : SealedBy C st i d)
  | stun (h : stunAddr = some d.dst) (hbytes : d.bytes = Stun.bindingRequest hk.stunTxid)

theorem runPeriodic_sends {st : State} {lp : Loop} {tick : UInt32}
    {stunAddr : Option SocketAddr} {d : Datagram}
    (hd : d ∈ (runPeriodic C F hk id st lp tick stunAddr).2.2) :
    PeriodicSend C F hk id st tick (hk.incoming.foldl mergeTarget lp.targets) stunAddr d := by
  have hstun : d ∈ stunAddr.toList.map
        (fun a => (⟨a, Stun.bindingRequest hk.stunTxid⟩ : Datagram)) →
      PeriodicSend C F hk id st tick (hk.incoming.foldl mergeTarget lp.targets) stunAddr d := by
    intro hd
    obtain ⟨a, ha, rfl⟩ := List.mem_map.mp hd
    exact .stun (Option.mem_toList.mp ha) rfl
  have htunnel : ∀ {peer : Key}, ToTunnelOf C st peer d →
      PeriodicSend C F hk id st tick (hk.incoming.foldl mergeTarget lp.targets) stunAddr d := by
    rintro peer ⟨i, e, he, -, hsealed⟩
    exact .tunnel ⟨e, he, hsealed⟩
  have hround : ∀ round,
      d ∈ (probeTargets C F hk id (retryAll st tick).1.tunnels round 0
          (hk.incoming.foldl mergeTarget lp.targets) lp.strikes (retryAll st tick).2).2 ++
        (keepaliveAll C (retryAll st tick).1).2 ++
        (if F.outbound then outboundPeriodic C hk (keepaliveAll C (retryAll st tick).1).1
          else ((keepaliveAll C (retryAll st tick).1).1, [])).2 →
      PeriodicSend C F hk id st tick (hk.incoming.foldl mergeTarget lp.targets) stunAddr d := by
    intro round hd
    rcases List.mem_append.mp hd with hd | hd
    · rcases List.mem_append.mp hd with hd | hd
      · rcases probeTargets_mem hd with hout | ⟨t, ht, hprobe⟩
        · exact .retry hout
        · exact .probe ht hprobe
      · have hkeepalive : d ∈ keepalives C st := hd
        obtain ⟨peer, hto⟩ := keepalives_toTunnel d hkeepalive
        exact htunnel hto
    · split at hd
      · obtain ⟨ob, -, hto⟩ := outboundPeriodic_toTunnel hk d hd
        exact htunnel (hto.of_fixed (keepaliveAll_kept C (retryAll st tick).1).tunnels)
      · cases hd
  rw [runPeriodic] at hd
  simp only [] at hd
  by_cases hdue : hk.now - lp.lastProbe ≥ 2000
  · simp only [if_pos hdue] at hd
    split at hd
    · rcases List.mem_append.mp hd with hd | hd
      · exact hround _ hd
      · exact hstun hd
    · exact hround _ hd
  · simp only [if_neg hdue] at hd
    split at hd
    · rcases List.mem_append.mp hd with hd | hd
      · exact .retry hd
      · exact hstun hd
    · exact .retry hd

end Periodic

/-! ## Datagrams that are answered -/

section Answers

variable {C : Crypto} {F : Features} {env : Draws}

/-- The replies to a transport packet go back through the tunnel it opens
under. -/
theorem handleWgTransport_sealed {id : Identity} {st : State} {pkt : Bytes} {src : SocketAddr}
    {d : Datagram} (hd : d ∈ (handleWgTransport C F env id st pkt src).2) :
    SealedBy C (handleWgTransport C F env id st pkt src).1 (u32le pkt 4) d := by
  by_cases hlen : 16 ≤ pkt.length
  · rw [handleWgTransport_eq C F env id st pkt src hlen] at hd ⊢
    split at hd
    · cases hd
    · next inner hopen =>
        exact handleDecrypted_sealed hd
  · rw [handleWgTransport, if_pos (by omega)] at hd
    cases hd

variable {H : Host} {s : NodeState} {ev : Input} {tick : UInt32} {pkt : Bytes} {src : SocketAddr}

theorem handlePacket_transport_sealed (hhead : pkt.head? = some msgTransport) {d : Datagram}
    (hd : d ∈ (handlePacket H.crypto H.features env H.identity s.lp.targets s.st tick pkt src).2) :
    SealedBy H.crypto (handlePacket H.crypto H.features env H.identity s.lp.targets s.st tick pkt
      src).1 (u32le pkt 4) d := by
  by_cases hlen : 8 ≤ pkt.length
  · rw [handlePacket_transport H.crypto H.features env H.identity s.lp.targets s.st tick src hhead
      hlen] at hd ⊢
    split at hd
    · cases hd
    · next hstun =>
        rw [if_neg hstun]
        exact handleWgTransport_sealed hd
  · rw [handlePacket_transport_short H.crypto H.features env H.identity s.lp.targets s.st tick src
      hhead hlen] at hd
    cases hd

theorem step_transport_sealed (hev : ev.received? = some (tick, pkt, src, env))
    (hhead : pkt.head? = some msgTransport) {d : Datagram} (hd : d ∈ (H.step s ev).2) :
    SealedBy H.crypto (H.step s ev).1.st (u32le pkt 4) d := by
  cases ev with
  | packet tick' pkt' src' env' =>
      cases hev
      exact handlePacket_transport_sealed hhead hd
  | process tick' pkt' src' env' =>
      cases hev
      rw [Host.step] at hd ⊢
      by_cases hlen : 16 ≤ pkt.length
      · rw [processPacket_transport H.crypto H.features env H.identity s.lp.targets s.st tick src
          hhead hlen] at hd ⊢
        exact handleWgTransport_sealed hd
      · rw [processPacket, if_neg fun h => hlen h.2] at hd ⊢
        exact handlePacket_transport_sealed hhead hd
  | periodic tick' hk stunAddr => cases hev
  | drain payloads => cases hev

/-- A datagram that is quiet and no transport packet is answered if it is a
disco ping. -/
theorem handlePacket_quiet_sends (h : received H s tick pkt src env = .quiet)
    (hhead : pkt.head? ≠ some msgTransport) {d : Datagram}
    (hd : d ∈ (handlePacket H.crypto H.features env H.identity s.lp.targets s.st tick pkt
      src).2) :
    d.dst = src ∧ Disco.isDisco pkt = true ∧
      ∃ msg, Disco.openPacket H.crypto H.identity.discoPriv pkt = .ok msg ∧
        msg.msgType = Disco.ping ∧ Disco.sealPacket H.crypto H.identity.discoPriv
          H.identity.discoPub msg.senderDiscoPub (Disco.pongPlaintext msg.txid src) env.nonce =
          .ok d.bytes := by
  rcases handlePacket_quiet_inv h with ⟨hdisco, heq⟩ | ⟨htransport, -⟩ | heq
  · rw [heq, handleDisco] at hd
    cases hopen : Disco.openPacket H.crypto H.identity.discoPriv pkt with
    | error e =>
        simp only [hopen] at hd
        cases hd
    | ok msg =>
        simp only [hopen, if_neg (not_pong_of_quiet h hdisco hopen)] at hd
        split at hd
        · next hping =>
            split at hd
            · cases hd
            · next reply hreply =>
                cases List.mem_singleton.mp hd
                exact ⟨rfl, hdisco, msg, rfl, hping, hreply⟩
        · cases hd
  · exact absurd htransport hhead
  · rw [heq] at hd
    cases hd

end Answers

/-! ## Every datagram of a run -/

/-- Why a step after some inputs sends a datagram where it does. -/
inductive Warranted (H : Host) (s₀ : NodeState) (evs : List Input) (ev : Input) (d : Datagram) :
    Prop
  | tunnel {i : UInt32} (hsealed : SealedBy H.crypto (H.after s₀ (evs ++ [ev])).st i d)
      (h : lastHeard H i s₀ (evs ++ [ev]) = some d.dst)
  | initiation {n : Key} (h : Sometime H s₀ (evs ++ [ev]) (Opens H n d))
  | response {i : UInt32} {resp : Arr respLen} {tun : Tunnel} {peer : Key}
      (h : outcome H (H.after s₀ evs) ev = .answer i resp tun peer d.dst)
      (hbytes : d.bytes = resp.1)
  | pong {msg : Disco.Incoming} (h : Disclosed H Disco.ping d.dst ev msg)
      (hbytes : ∃ nonce, Disco.sealPacket H.crypto H.identity.discoPriv H.identity.discoPub
        msg.senderDiscoPub (Disco.pongPlaintext msg.txid d.dst) nonce = .ok d.bytes)
  | probe (hev : ∃ tick hk a, ev = .periodic tick hk a) {t : Target}
      (ht : t ∈ (H.after s₀ (evs ++ [ev])).lp.targets)
      (h : Probe H.crypto H.features H.identity t d)
  | stun (h : ∃ tick hk, ev = .periodic tick hk (some d.dst) ∧
      d.bytes = Stun.bindingRequest hk.stunTxid)

section Warranted

variable {H : Host} {s₀ : NodeState} {evs : List Input} {ev : Input} {d : Datagram}

/-- A datagram of a tunnel of the next state, which was last heard there. -/
theorem warranted_of_sealed (hnext : Placed H s₀ (evs ++ [ev]) (H.after s₀ (evs ++ [ev])).st)
    {i : UInt32} (h : SealedBy H.crypto (H.step (H.after s₀ evs) ev).1.st i d) :
    Warranted H s₀ evs ev d := by
  rw [← after_concat] at h
  obtain ⟨e, he, hsealed⟩ := h
  refine .tunnel ⟨e, he, hsealed⟩ (hnext.tunnels i d.dst ?_)
  rw [addrAt, he, Option.map_some, hsealed.dst]

/-- A datagram whose handling adds and starts nothing. -/
theorem warranted_quiet {tick : UInt32} {pkt : Bytes} {src : SocketAddr} {env : Draws}
    (hnext : Placed H s₀ (evs ++ [ev]) (H.after s₀ (evs ++ [ev])).st)
    (hev : ev.received? = some (tick, pkt, src, env))
    (ho : received H (H.after s₀ evs) tick pkt src env = .quiet)
    (hd : d ∈ (H.step (H.after s₀ evs) ev).2) : Warranted H s₀ evs ev d := by
  by_cases hhead : pkt.head? = some msgTransport
  · exact warranted_of_sealed hnext (step_transport_sealed hev hhead hd)
  · have hpacket : d ∈ (handlePacket H.crypto H.features env H.identity
        (H.after s₀ evs).lp.targets (H.after s₀ evs).st tick pkt src).2 := by
      cases ev with
      | packet tick' pkt' src' env' =>
          cases hev
          exact hd
      | process tick' pkt' src' env' =>
          cases hev
          rw [step_process tick pkt src env fun h => hhead h.1] at hd
          exact hd
      | periodic tick' hk stunAddr => cases hev
      | drain payloads => cases hev
    obtain ⟨rfl, hdisco, msg, hopen, hping, hreply⟩ := handlePacket_quiet_sends ho hhead hpacket
    exact .pong ⟨tick, pkt, env, hev, hdisco, hopen, hping⟩ ⟨env.nonce, hreply⟩

/-- The periodic work resends what a slot holds, probes the targets, and sends
through the tunnels. -/
theorem warranted_periodic {tick : UInt32} {hk : Housekeeping} {stunAddr : Option SocketAddr}
    (hplaced : Placed H s₀ evs (H.after s₀ evs).st)
    (hnext : Placed H s₀ (evs ++ [.periodic tick hk stunAddr])
      (H.after s₀ (evs ++ [.periodic tick hk stunAddr])).st)
    (hd : d ∈ (H.step (H.after s₀ evs) (.periodic tick hk stunAddr)).2) :
    Warranted H s₀ evs (.periodic tick hk stunAddr) d := by
  cases runPeriodic_sends hd with
  | retry hretry =>
      obtain ⟨p, hp, hsent⟩ := List.mem_flatMap.mp hretry
      obtain ⟨⟨n, p'⟩, hmem, rfl⟩ := List.mem_map.mp hp
      have hslot := Table.mem_entries_iff.mp hmem
      rcases retryPending_cases (H.after s₀ evs).st.tunnels tick p' with
        hdrop | hkeep | ⟨-, hsend⟩
      · rw [hdrop] at hsent
        cases hsent
      · rw [hkeep] at hsent
        cases hsent
      · rw [hsend] at hsent
        cases List.mem_singleton.mp hsent
        exact .initiation ((hplaced.pending n p' hslot).later _)
  | probe ht hprobe =>
      refine .probe ⟨tick, hk, stunAddr, rfl⟩ ?_ hprobe
      rw [after_concat, targets_step rfl]
      exact ht
  | @tunnel i hsealed =>
      have hkept := (runPeriodic_spec H.crypto H.features hk H.identity (H.after s₀ evs).st
        (H.after s₀ evs).lp tick stunAddr).1
      exact warranted_of_sealed hnext (hsealed.of_fixed (hkept.tunnels i).symm)
  | stun ha hbytes => exact .stun ⟨tick, hk, by rw [ha], hbytes⟩

theorem warranted_step (hplaced : Placed H s₀ evs (H.after s₀ evs).st)
    (hnext : Placed H s₀ (evs ++ [ev]) (H.after s₀ (evs ++ [ev])).st)
    (hd : d ∈ (H.step (H.after s₀ evs) ev).2) : Warranted H s₀ evs ev d := by
  cases ho : outcome H (H.after s₀ evs) ev with
  | quiet =>
      cases ev with
      | packet tick pkt src env => exact warranted_quiet hnext rfl ho hd
      | process tick pkt src env => exact warranted_quiet hnext rfl ho hd
      | periodic tick hk stunAddr => cases ho
      | drain payloads =>
          obtain ⟨i, e, he, -, hsealed⟩ := mdnsDrain_toTunnel H.mdnsOurIp H.mdnsPartnerIp
            H.mdnsPartnerNode payloads _ d hd
          have hframe := mdnsDrain_frame H.crypto H.mdnsOurIp H.mdnsPartnerIp H.mdnsPartnerNode
            payloads (H.after s₀ evs).st
          exact warranted_of_sealed hnext ((sealedBy_frame_iff hframe).mpr ⟨e, he, hsealed⟩)
  | pong tick env sender src =>
      obtain ⟨-, -, -, -, hout⟩ := step_pong ho
      rw [hout] at hd
      split at hd
      · cases hd
      · next t hstart =>
          cases List.mem_singleton.mp hd
          exact .initiation (sometime_now (opens_of_pong ho hstart))
  | answer i resp tun peer src =>
      rw [(step_answer ho).2] at hd
      cases List.mem_singleton.mp hd
      exact .response ho rfl
  | complete key p tun src =>
      have hstep := (step_complete ho).2
      rw [hstep] at hd
      cases List.mem_singleton.mp hd
      -- the tunnel in the table has counted the keepalive
      refine warranted_of_sealed hnext (i := p.ourIndex)
        ⟨⟨(tun.keepalive H.crypto).2, src, key, Tcp.TcpServer.new⟩, ?_, tun.txCounter, [], rfl⟩
      rw [hstep, tunnels_insertTunnel, if_pos rfl]
  | refuse key =>
      rw [(step_refuse ho).2] at hd
      cases hd
  | retry tick =>
      cases ev with
      | packet tick' pkt src env => exact absurd ho (received_ne_retry tick' pkt src env tick)
      | process tick' pkt src env => exact absurd ho (received_ne_retry tick' pkt src env tick)
      | periodic tick' hk stunAddr => exact warranted_periodic hplaced hnext hd
      | drain payloads => cases ho

end Warranted

/-- Every datagram of every run is warranted: a transport packet goes to where
the tunnel that sealed it was last heard, an initiation for a peer to where a
PONG of this peer came from, answers to where the question came from, a ping
for a target to the target's endpoints, and the rest to the STUN server. -/
theorem sends_warranted (H : Host) (s₀ : NodeState) (hfresh : Fresh s₀) (evs : List Input)
    (ev : Input) : ∀ d ∈ (H.step (H.after s₀ evs) ev).2, Warranted H s₀ evs ev d := by
  intro d hd
  exact warranted_step (placed_run hfresh evs) (placed_run hfresh (evs ++ [ev])) hd

/-! The keepalive that the loop sends to a peer it answered. -/

private def answeredOne : List Input := [arrives (initiationOf 5) 5 4]

private def roundDueNow : Input :=
  .periodic 0 ⟨4000, [], fun _ => Arr.zero 12, fun _ => Arr.zero 24, fun _ _ => [], fun _ => true,
    0, Arr.zero 12⟩ none

private theorem keepalive_goes_out :
    (solo.step (solo.after soloStart answeredOne) roundDueNow).2.any
      (fun d => d.dst = lanAddr 5 ∧ d.bytes.head? = some msgTransport) = true := by
  decide +kernel

theorem sends_warranted_solo :
    ∃ d ∈ (solo.step (solo.after soloStart answeredOne) roundDueNow).2,
      d.dst = lanAddr 5 ∧ d.bytes.head? = some msgTransport ∧
      Warranted solo soloStart answeredOne roundDueNow d := by
  obtain ⟨d, hd, hkind⟩ := List.any_eq_true.mp keepalive_goes_out
  obtain ⟨hdst, hhead⟩ := of_decide_eq_true hkind
  exact ⟨d, hd, hdst, hhead,
    sends_warranted solo soloStart solo_fresh answeredOne roundDueNow d hd⟩

end TailscaleRust.Proofs.Destinations
