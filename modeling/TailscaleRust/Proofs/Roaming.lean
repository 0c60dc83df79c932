import TailscaleRust.Proofs.Nonces
import TailscaleRust.Proofs.Replacement
import TailscaleRust.Proofs.Sealed
import TailscaleRust.Proofs.Session

/-!
# Where a tunnel's peer is taken to be

A tunnel is set up with the source of the handshake's last datagram, and
moves to the source of every transport datagram that decrypts under it. The
counter in the datagram is used to open it and then forgotten, so a copy is
as good as the datagram it was taken from: whoever can send one moves the
tunnel to an address of their choice. It moves this one tunnel and no other,
and it takes a datagram that the peer's key once sealed.
-/

namespace TailscaleRust.Proofs

open TailscaleRust.Lib TailscaleRust.Core TailscaleRust.Core.Wg
open TailscaleRust.Firmware TailscaleRust.Firmware.Dataplane

/-! ## Steps that move a tunnel -/

/-- Does the datagram decrypt under the tunnel whose index it carries? -/
def opensAt (C : Crypto) (st : State) (pkt : Bytes) : Bool :=
  (st.tunnels.get? (u32le pkt 4)).any fun e => (decryptTransport C e.tun.recvKey pkt).isSome

/-- The tunnel a step moves, and where to. The one entry drops the index
that spells the STUN cookie. -/
def roams (H : Host) (s : NodeState) : Input → Option (UInt32 × SocketAddr)
  | .packet _ pkt src _ =>
      if opensAt H.crypto s.st pkt ∧ u32le pkt 4 ≠ stunIndex then some (u32le pkt 4, src) else none
  | .process _ pkt src _ =>
      if opensAt H.crypto s.st pkt then some (u32le pkt 4, src) else none
  | .periodic .. => none
  | .drain _ => none

/-- The address a tunnel has. -/
def addrAt (st : State) (i : UInt32) : Option SocketAddr :=
  (st.tunnels.get? i).map TunnelEntry.addr

section Steps

variable {H : Host} {s : NodeState}

theorem addrAt_frame {st st' : State} (h : Frame st st') (i : UInt32) :
    addrAt st' i = addrAt st i := by
  have haddr := congrArg (Option.map TunnelEntry.addr) (h.tunnels i)
  rwa [Option.map_map, Option.map_map] at haddr

theorem opensAt_iff {C : Crypto} {st : State} {pkt : Bytes} :
    opensAt C st pkt = true ↔ ∃ e inner, st.tunnels.get? (u32le pkt 4) = some e ∧
      decryptTransport C e.tun.recvKey pkt = some inner := by
  simp only [opensAt, Option.any_eq_true, Option.isSome_iff_exists]
  refine ⟨?_, ?_⟩
  · rintro ⟨e, he, inner, hinner⟩
    exact ⟨e, inner, he, hinner⟩
  · rintro ⟨e, inner, he, hinner⟩
    exact ⟨e, he, inner, hinner⟩

/-- What opens is a transport packet with room for the header. -/
theorem head_of_opensAt {C : Crypto} {st : State} {pkt : Bytes} (h : opensAt C st pkt = true) :
    pkt.head? = some msgTransport ∧ 32 ≤ pkt.length := by
  obtain ⟨e, inner, -, hopen⟩ := opensAt_iff.mp h
  rw [decryptTransport] at hopen
  split at hopen
  · cases hopen
  · next hguard =>
      have hlen : 32 ≤ pkt.length := by omega
      refine ⟨?_, hlen⟩
      rw [head?_eq_byteAt (by omega)]
      exact congrArg some (not_not.mp fun hne => hguard (.inr hne))

theorem addrAt_handleDecrypted (C : Crypto) (F : Features) (env : Draws) (id : Identity)
    {st : State} {i : UInt32} (inner : Bytes) (src : SocketAddr) {e : TunnelEntry}
    (he : st.tunnels.get? i = some e) (j : UInt32) :
    addrAt (handleDecrypted C F env id st i inner src).1 j =
      if j = i then some src else addrAt st j := by
  rw [addrAt_frame (handleDecrypted_frame C F env id st i inner src he), addrAt,
    Table.get?_modify]
  split
  · next hj =>
      rw [hj, he]
      rfl
  · rfl

/-- The transport handler moves the tunnel the datagram opens under. -/
theorem addrAt_handleWgTransport (C : Crypto) (F : Features) (env : Draws) (id : Identity)
    (st : State) (pkt : Bytes) (src : SocketAddr) (j : UInt32) :
    addrAt (handleWgTransport C F env id st pkt src).1 j =
      if opensAt C st pkt ∧ j = u32le pkt 4 then some src else addrAt st j := by
  by_cases hopen : opensAt C st pkt = true
  · obtain ⟨-, hlen⟩ := head_of_opensAt hopen
    obtain ⟨e, inner, he, hinner⟩ := opensAt_iff.mp hopen
    rw [handleWgTransport_eq C F env id st pkt src (by omega), he]
    simp only [Option.bind_some, hinner, hopen, true_and]
    exact addrAt_handleDecrypted C F env id inner src he j
  · rw [if_neg fun h => hopen h.1]
    by_cases hlen : 16 ≤ pkt.length
    · rw [handleWgTransport_eq C F env id st pkt src hlen]
      split
      · rfl
      · next inner hbind =>
          obtain ⟨e, he, hinner⟩ := Option.bind_eq_some_iff.mp hbind
          exact absurd (opensAt_iff.mpr ⟨e, inner, he, hinner⟩) hopen
    · rw [handleWgTransport, if_pos (by omega)]

theorem addrAt_handlePacket (C : Crypto) (F : Features) (env : Draws) (id : Identity)
    (targets : List Target) (st : State) (tick : UInt32) {pkt : Bytes} (src : SocketAddr)
    (hhead : pkt.head? = some msgTransport) (j : UInt32) :
    addrAt (handlePacket C F env id targets st tick pkt src).1 j =
      if (opensAt C st pkt ∧ u32le pkt 4 ≠ stunIndex) ∧ j = u32le pkt 4 then some src
      else addrAt st j := by
  by_cases hlen : 8 ≤ pkt.length
  · rw [handlePacket_transport C F env id targets st tick src hhead hlen]
    by_cases hstun : u32le pkt 4 = stunIndex
    · rw [if_pos hstun, if_neg fun h => h.1.2 hstun]
    · rw [if_neg hstun, addrAt_handleWgTransport]
      simp only [ne_eq, hstun, not_false_eq_true, and_true]
  · have hshort : ¬opensAt C st pkt = true := fun h => by
      have := (head_of_opensAt h).2
      omega
    rw [handlePacket_transport_short C F env id targets st tick src hhead hlen,
      if_neg fun h => hshort h.1.1]

/-- A step on a transport datagram moves the tunnel `roams` names. -/
theorem addrAt_step_transport {ev : Input} {tick : UInt32} {pkt : Bytes} {src : SocketAddr}
    {env : Draws} (hev : ev.received? = some (tick, pkt, src, env))
    (hhead : pkt.head? = some msgTransport) (j : UInt32) :
    addrAt (H.step s ev).1.st j =
      if roams H s ev = some (j, src) then some src else addrAt s.st j := by
  cases ev with
  | packet tick' pkt' src' env' =>
      cases hev
      have hiff : roams H s (.packet tick pkt src env) = some (j, src) ↔
          (opensAt H.crypto s.st pkt ∧ u32le pkt 4 ≠ stunIndex) ∧ j = u32le pkt 4 := by
        simp only [roams, Option.ite_none_right_eq_some, Option.some.injEq, Prod.mk.injEq,
          and_true, eq_comm (b := j)]
      simp only [Host.step, hiff]
      exact addrAt_handlePacket H.crypto H.features env H.identity s.lp.targets s.st tick src hhead
        j
  | process tick' pkt' src' env' =>
      cases hev
      have hiff : roams H s (.process tick pkt src env) = some (j, src) ↔
          opensAt H.crypto s.st pkt ∧ j = u32le pkt 4 := by
        simp only [roams, Option.ite_none_right_eq_some, Option.some.injEq, Prod.mk.injEq,
          and_true, eq_comm (b := j)]
      simp only [Host.step, hiff]
      by_cases hlen : 16 ≤ pkt.length
      · rw [processPacket_transport H.crypto H.features env H.identity s.lp.targets s.st tick src
          hhead hlen]
        exact addrAt_handleWgTransport H.crypto H.features env H.identity s.st pkt src j
      · have hshort : ¬opensAt H.crypto s.st pkt = true := fun h => by
          have := (head_of_opensAt h).2
          omega
        rw [processPacket, if_neg fun h => hlen h.2, if_neg fun h => hshort h.1,
          addrAt_handlePacket H.crypto H.features env H.identity s.lp.targets s.st tick src hhead j,
          if_neg fun h => hshort h.1.1]
  | periodic tick' hk stunAddr => cases hev
  | drain payloads => cases hev

/-- Any other datagram that is quiet changes nothing. -/
theorem handlePacket_quiet_state {tick : UInt32} {pkt : Bytes} {src : SocketAddr} {env : Draws}
    (h : received H s tick pkt src env = .quiet) (hhead : pkt.head? ≠ some msgTransport) :
    (handlePacket H.crypto H.features env H.identity s.lp.targets s.st tick pkt src).1 =
      s.st := by
  rcases handlePacket_quiet_cases h with ⟨out, heq, -⟩ | ⟨htransport, -⟩
  · rw [heq]
  · exact absurd htransport hhead

/-- A step that neither moves nor adds a tunnel keeps every address. -/
theorem addrAt_step_none {ev : Input} (hroams : roams H s ev = none)
    (hinst : installed H s ev = none) (j : UInt32) :
    addrAt (H.step s ev).1.st j = addrAt s.st j := by
  -- a datagram that is no transport packet, taken as `handle_packet` takes it
  have hother : ∀ tick pkt src env, pkt.head? ≠ some msgTransport →
      installed H s (.packet tick pkt src env) = none →
      addrAt (H.step s (.packet tick pkt src env)).1.st j = addrAt s.st j := by
    intro tick pkt src env hhead hnone
    cases ho : outcome H s (.packet tick pkt src env) with
    | quiet =>
        rw [Host.step]
        exact congrArg (fun st => addrAt st j) (handlePacket_quiet_state ho hhead)
    | pong tick env sender src => rw [addrAt, (step_pong ho).2.1, addrAt]
    | answer i resp tun peer src =>
        rw [installed, ho] at hnone
        cases hnone
    | complete key p tun src =>
        rw [installed, ho] at hnone
        cases hnone
    | refuse key => rw [(step_refuse ho).2]; rfl
    | retry tick' => exact absurd ho (received_ne_retry tick pkt src env tick')
  cases ev with
  | packet tick pkt src env =>
      by_cases hhead : pkt.head? = some msgTransport
      · rw [addrAt_step_transport rfl hhead, hroams, if_neg (fun h => by cases h)]
      · exact hother tick pkt src env hhead hinst
  | process tick pkt src env =>
      by_cases hhead : pkt.head? = some msgTransport
      · rw [addrAt_step_transport rfl hhead, hroams, if_neg (fun h => by cases h)]
      · rw [step_process tick pkt src env fun h => hhead h.1]
        exact hother tick pkt src env hhead hinst
  | periodic tick hk stunAddr =>
      obtain ⟨hkept, -, -⟩ := runPeriodic_spec H.crypto H.features hk H.identity s.st s.lp tick
        stunAddr
      have haddr := congrArg (Option.map TunnelEntry.addr) (hkept.tunnels j)
      rwa [Option.map_map, Option.map_map] at haddr
  | drain payloads =>
      exact addrAt_frame (mdnsDrain_frame H.crypto H.mdnsOurIp H.mdnsPartnerIp H.mdnsPartnerNode
        payloads s.st) j

/-! ## Runs -/

/-- Where a step last heard the peer of a tunnel, if it did. -/
def heardAt (H : Host) (s : NodeState) (ev : Input) (i : UInt32) : Option SocketAddr :=
  match roams H s ev, installed H s ev with
  | some (j, src), _ => if j = i then some src else none
  | none, some (j, _, src) => if j = i then some src else none
  | none, none => none

/-- Where a run last heard it. -/
def lastHeard (H : Host) (i : UInt32) : NodeState → List Input → Option SocketAddr
  | _, [] => none
  | s, ev :: evs => (lastHeard H i (H.step s ev).1 evs).or (heardAt H s ev i)

/-- A transport packet completes no handshake. -/
theorem roams_received {ev : Input} {i : UInt32} {src : SocketAddr}
    (h : roams H s ev = some (i, src)) :
    ∃ tick pkt env, ev.received? = some (tick, pkt, src, env) ∧ i = u32le pkt 4 ∧
      opensAt H.crypto s.st pkt = true := by
  cases ev with
  | packet tick pkt src' env =>
      obtain ⟨hguard, heq⟩ := Option.ite_none_right_eq_some.mp h
      cases heq
      exact ⟨tick, pkt, env, rfl, rfl, hguard.1⟩
  | process tick pkt src' env =>
      obtain ⟨hguard, heq⟩ := Option.ite_none_right_eq_some.mp h
      cases heq
      exact ⟨tick, pkt, env, rfl, rfl, hguard⟩
  | periodic tick hk stunAddr => cases h
  | drain payloads => cases h

theorem heardAt_step {ev : Input} {i : UInt32} {a : SocketAddr}
    (h : addrAt (H.step s ev).1.st i = some a) :
    heardAt H s ev i = some a ∨ (heardAt H s ev i = none ∧ addrAt s.st i = some a) := by
  cases hroams : roams H s ev with
  | some r =>
      obtain ⟨j, src⟩ := r
      obtain ⟨tick, pkt, env, hev, -, hopen⟩ := roams_received hroams
      rw [addrAt_step_transport hev (head_of_opensAt hopen).1, hroams] at h
      simp only [heardAt, hroams]
      by_cases hj : j = i
      · subst hj
        rw [if_pos rfl] at h ⊢
        exact .inl h
      · rw [if_neg fun heq => hj (congrArg Prod.fst (Option.some.inj heq))] at h
        rw [if_neg hj]
        exact .inr ⟨rfl, h⟩
  | none =>
      cases hinst : installed H s ev with
      | some r =>
          obtain ⟨j, peer, src⟩ := r
          obtain ⟨tun, htunnels⟩ := tunnels_of_installed hinst
          rw [addrAt, htunnels] at h
          simp only [heardAt, hroams, hinst]
          by_cases hj : j = i
          · subst hj
            rw [if_pos rfl] at h ⊢
            exact .inl h
          · rw [if_neg (Ne.symm hj)] at h
            obtain ⟨e, he, rfl⟩ := Option.map_eq_some_iff.mp h
            rw [if_neg hj, addrAt, (Option.filter_eq_some_iff.mp he).1]
            exact .inr ⟨rfl, rfl⟩
      | none =>
          rw [addrAt_step_none hroams hinst] at h
          simp only [heardAt, hroams, hinst]
          exact .inr ⟨trivial, h⟩

theorem lastHeard_run {s₀ : NodeState} {evs : List Input} (hrun : Run H.Steps s₀ evs s)
    {i : UInt32} {a : SocketAddr} (h : addrAt s.st i = some a) :
    lastHeard H i s₀ evs = some a ∨ (lastHeard H i s₀ evs = none ∧ addrAt s₀.st i = some a) := by
  induction hrun with
  | nil => exact .inr ⟨rfl, h⟩
  | @cons s₀ t u ev evs hstep _ ih =>
      rw [Host.Steps] at hstep
      subst hstep
      rw [lastHeard]
      rcases ih h with hlast | ⟨hnone, hthere⟩
      · rw [hlast]
        exact .inl rfl
      · rw [hnone, Option.none_or]
        exact heardAt_step hthere

end Steps

/-! ## What is sent unasked -/

/-- Sealed by a tunnel of the peer, for where this tunnel is taken to lead. -/
def ToTunnelOf (C : Crypto) (st : State) (peer : Key) (d : Datagram) : Prop :=
  ∃ i e, st.tunnels.get? i = some e ∧ e.peerNode = peer ∧ SealedTo C e.tun e.addr d

/-- The keepalive of every tunnel, to where this tunnel is taken to lead. -/
def keepalives (C : Crypto) (st : State) : List Datagram :=
  st.tunnels.values.map fun e => ⟨e.addr, (e.tun.keepalive C).1⟩

/-- What the periodic work sends through tunnels. In a due round these are the
keepalives and, behind them, what the outbound client has for its target, and
else there is nothing. -/
def PeriodicTraffic (C : Crypto) (s : NodeState) (hk : Housekeeping) (sent : List Datagram) :
    Prop :=
  if hk.now - s.lp.lastProbe ≥ 2000 then
    ∃ before after, sent = before ++ keepalives C s.st ++ after ∧
      (∀ d ∈ before, d.bytes.head? ≠ some msgTransport) ∧
      ∀ d ∈ after, d.bytes.head? = some msgTransport →
        ∃ ob, s.st.outbound = some ob ∧ ToTunnelOf C s.st ob.cfg.targetNode d
  else ∀ d ∈ sent, d.bytes.head? ≠ some msgTransport

section Unasked

variable {C : Crypto} {st st' : State} {peer : Key} {d : Datagram}

theorem ToTunnelOf.of_fixed
    (h : ∀ i, (st'.tunnels.get? i).map fixedPart = (st.tunnels.get? i).map fixedPart)
    (hd : ToTunnelOf C st' peer d) : ToTunnelOf C st peer d := by
  obtain ⟨i, e', he', hpeer, hsealed⟩ := hd
  have hi := h i
  rw [he'] at hi
  obtain ⟨e, he, hfix⟩ := Option.map_eq_some_iff.mp hi.symm
  have hpeer' : e.peerNode = e'.peerNode := congrArg (fun e => e.peerNode) hfix
  exact ⟨i, e, he, hpeer'.trans hpeer, hsealed.of_fixedPart hfix.symm⟩

/-- What is sent through the tunnel that `find` gives, to its address. -/
theorem sendInner_toTunnelOf {i : UInt32} {e : TunnelEntry} {xs : List Bytes}
    (hfind : st.tunnels.find? (fun _ e => e.peerNode = peer) = some (i, e))
    (hsame : st'.tunnels = st.tunnels) (hd : d ∈ (st'.sendInner C i e.addr xs).2) :
    ToTunnelOf C st peer d := by
  obtain ⟨he, hpeer⟩ := Table.find?_some hfind
  obtain ⟨e', he', hsealed⟩ := sendInner_sealed C hd
  rw [hsame, he] at he'
  cases he'
  exact ⟨i, e, he, of_decide_eq_true hpeer, hsealed⟩

theorem mdnsDrain_toTunnel (ourIp partnerIp : Ipv4Addr) (partnerNode : Key)
    (payloads : List Bytes) (st : State) :
    ∀ d ∈ (mdnsDrain C ourIp partnerIp partnerNode payloads st).2,
      ToTunnelOf C st partnerNode d := by
  induction payloads generalizing st with
  | nil =>
      intro d hd
      cases hd
  | cons payload rest ih =>
      rw [mdnsDrain]
      split
      · exact ih st
      · next i e hfind =>
          intro d hd
          rcases List.mem_append.mp hd with hd | hd
          · exact sendInner_toTunnelOf hfind rfl hd
          · exact (ih _ d hd).of_fixed (sendInner_frame C st i e.addr _).tunnels

theorem outboundPeriodic_toTunnel (hk : Housekeeping) :
    ∀ d ∈ (outboundPeriodic C hk st).2,
      ∃ ob, st.outbound = some ob ∧ ToTunnelOf C st ob.cfg.targetNode d := by
  rw [outboundPeriodic]
  split
  · intro d hd
    cases hd
  · next ob hob =>
      split
      · intro d hd
        cases hd
      · next i e hfind =>
          intro d hd
          have hsame : ({ st with outbound := some (outboundKick hk ob).1 } : State).tunnels =
              st.tunnels := rfl
          exact ⟨ob, hob, sendInner_toTunnelOf hfind hsame hd⟩

/-- A keepalive goes to the tunnel that sealed it. -/
theorem keepalives_toTunnel : ∀ d ∈ keepalives C st, ∃ peer, ToTunnelOf C st peer d := by
  intro d hd
  obtain ⟨e, he, rfl⟩ := List.mem_map.mp hd
  obtain ⟨⟨i, e'⟩, hmem, rfl⟩ := List.mem_map.mp he
  exact ⟨_, i, e', Table.mem_entries_iff.mp hmem, rfl, sealedTo_encrypt C e'.tun e'.addr []⟩

theorem not_transport_of_silent {out : List Datagram} (h : transports (payloads out) = []) :
    ∀ d ∈ out, d.bytes.head? ≠ some msgTransport := by
  intro d hd hhead
  have hmem : d.bytes ∈ transports (payloads out) :=
    List.mem_filter.mpr ⟨List.mem_map_of_mem hd, decide_eq_true hhead⟩
  rw [h] at hmem
  cases hmem

theorem stunRequest_silent (hk : Housekeeping) (stunAddr : Option SocketAddr) :
    ∀ d ∈ stunAddr.toList.map fun a => (⟨a, Stun.bindingRequest hk.stunTxid⟩ : Datagram),
      d.bytes.head? ≠ some msgTransport := by
  intro d hd
  obtain ⟨a, -, rfl⟩ := List.mem_map.mp hd
  show (Stun.bindingRequest hk.stunTxid).head? ≠ _
  rw [show (Stun.bindingRequest hk.stunTxid).head? = some 0 from rfl]
  decide

theorem keepalive_sent {s : NodeState} {hk : Housekeeping} {sent : List Datagram}
    (h : PeriodicTraffic C s hk sent) (hdue : hk.now - s.lp.lastProbe ≥ 2000) {i : UInt32}
    {e : TunnelEntry} (he : s.st.tunnels.get? i = some e) :
    ⟨e.addr, (e.tun.keepalive C).1⟩ ∈ sent := by
  rw [PeriodicTraffic, if_pos hdue] at h
  obtain ⟨before, after, rfl, -, -⟩ := h
  have hmem : e ∈ s.st.tunnels.values :=
    List.mem_map.mpr ⟨(i, e), Table.mem_entries_iff.mpr he, rfl⟩
  exact List.mem_append_left _ (List.mem_append_right _ (List.mem_map.mpr ⟨e, hmem, rfl⟩))

/-- Behind the probes of a round, which are no transport packets, come the
keepalives. -/
theorem runPeriodic_traffic {H : Host} {s : NodeState} {evs : List Input}
    (h : TablesOk H evs s.st) (tick : UInt32) (hk : Housekeeping)
    (stunAddr : Option SocketAddr) :
    PeriodicTraffic H.crypto s hk (H.step s (.periodic tick hk stunAddr)).2 := by
  have hretry := retryAll_silent h tick
  have hobs : ∀ d ∈ (if H.features.outbound then
      outboundPeriodic H.crypto hk (keepaliveAll H.crypto (retryAll s.st tick).1).1
      else ((keepaliveAll H.crypto (retryAll s.st tick).1).1, [])).2,
      ∃ ob, s.st.outbound = some ob ∧ ToTunnelOf H.crypto s.st ob.cfg.targetNode d := by
    intro d hd
    split at hd
    · obtain ⟨ob, hob, hto⟩ := outboundPeriodic_toTunnel hk d hd
      exact ⟨ob, hob, hto.of_fixed (keepaliveAll_kept H.crypto (retryAll s.st tick).1).tunnels⟩
    · cases hd
  rw [PeriodicTraffic, Host.step, runPeriodic]
  simp only []
  by_cases hdue : hk.now - s.lp.lastProbe ≥ 2000
  · simp only [if_pos hdue]
    refine ⟨(probeTargets H.crypto H.features hk H.identity (retryAll s.st tick).1.tunnels
      (s.lp.probeRound + 1) 0 (hk.incoming.foldl mergeTarget s.lp.targets) s.lp.strikes
      (retryAll s.st tick).2).2, ?_⟩
    have hprobed := not_transport_of_silent ((probeTargets_silent H.crypto H.features hk
      H.identity (retryAll s.st tick).1.tunnels (s.lp.probeRound + 1) 0
      (hk.incoming.foldl mergeTarget s.lp.targets) s.lp.strikes _).trans hretry)
    split
    · refine ⟨_, List.append_assoc .., hprobed, fun d hd hhead => ?_⟩
      rcases List.mem_append.mp hd with hd | hd
      · exact hobs d hd
      · exact absurd hhead (stunRequest_silent hk stunAddr d hd)
    · exact ⟨_, rfl, hprobed, fun d hd _ => hobs d hd⟩
  · simp only [if_neg hdue]
    split
    · intro d hd
      rcases List.mem_append.mp hd with hd | hd
      · exact not_transport_of_silent hretry d hd
      · exact stunRequest_silent hk stunAddr d hd
    · exact not_transport_of_silent hretry

end Unasked

/-- In every run a tunnel's address is where the run last heard its peer, in
a datagram that set the tunnel up or decrypted under it. What is sent unasked
through a tunnel goes to the address of the tunnel that sealed it: every
tunnel's keepalive in every due round, the outbound traffic through a tunnel of
its target, and the forwards through one of the partner. A transport datagram,
whether it was delivered before or not, moves the tunnel it decrypts under, and
no other. -/
theorem tunnels_follow_last_heard (H : Host) (s₀ s : NodeState) (evs : List Input)
    (hfresh : Fresh s₀) (hrun : Run H.Steps s₀ evs s) :
    (∀ i e, s.st.tunnels.get? i = some e → lastHeard H i s₀ evs = some e.addr) ∧
    (∀ ev tick pkt src env, ev.received? = some (tick, pkt, src, env) →
      pkt.head? = some msgTransport → ∀ j, addrAt (H.step s ev).1.st j =
        if roams H s ev = some (j, src) then some src else addrAt s.st j) ∧
    (∀ tick hk stunAddr,
      PeriodicTraffic H.crypto s hk (H.step s (.periodic tick hk stunAddr)).2) ∧
    ∀ payloads, ∀ d ∈ (H.step s (.drain payloads)).2,
      ToTunnelOf H.crypto s.st H.mdnsPartnerNode d := by
  refine ⟨?_, ?_, runPeriodic_traffic (tablesOk_run hfresh hrun), ?_⟩
  · intro i e he
    have haddr : addrAt s.st i = some e.addr := by rw [addrAt, he, Option.map_some]
    rcases lastHeard_run hrun haddr with hlast | ⟨-, hnone⟩
    · exact hlast
    · rw [addrAt, hfresh.tunnels, Table.get?_empty] at hnone
      cases hnone
  · intro ev tick pkt src env hev hhead j
    exact addrAt_step_transport hev hhead j
  · intro payloads
    exact mdnsDrain_toTunnel H.mdnsOurIp H.mdnsPartnerIp H.mdnsPartnerNode payloads s.st

/-! ## A copy from elsewhere -/

/-- A keepalive as the peer of a tunnel seals it. -/
def peerKeepalive (C : Crypto) (i : UInt32) (e : TunnelEntry) : Bytes :=
  (Tunnel.keepalive C { e.tun with sendKey := e.tun.recvKey, theirIndex := i }).1

/-- It opens under the tunnel, however often and wherever it comes from. -/
theorem roams_peerKeepalive {H : Host} (hC : H.crypto.Lawful) {s : NodeState} {i : UInt32}
    {e e₀ : TunnelEntry} (he : s.st.tunnels.get? i = some e)
    (hkey : e.tun.recvKey = e₀.tun.recvKey) (hi : i ≠ stunIndex) (tick : UInt32)
    (src : SocketAddr) (env : Draws) :
    roams H s (.packet tick (peerKeepalive H.crypto i e₀) src env) = some (i, src) := by
  have hindex : u32le (peerKeepalive H.crypto i e₀) 4 = i := u32le_of_slice (encrypt_index ..)
  obtain ⟨-, hopen⟩ := decrypt_encrypt hC (r := e.tun) (x := [])
    (t := { e₀.tun with sendKey := e₀.tun.recvKey, theirIndex := i }) hkey
  have hopens : opensAt H.crypto s.st (peerKeepalive H.crypto i e₀) = true := by
    rw [opensAt_iff, hindex]
    exact ⟨e, _, he, hopen⟩
  rw [roams, hindex, if_pos ⟨hopens, hi⟩]

/-- Delivered, it leaves the tunnel at its source and its keys as they were. -/
theorem step_peerKeepalive {H : Host} (hC : H.crypto.Lawful) {s : NodeState} {i : UInt32}
    {e e₀ : TunnelEntry} (he : s.st.tunnels.get? i = some e)
    (hkey : e.tun.recvKey = e₀.tun.recvKey) (hi : i ≠ stunIndex) (tick : UInt32)
    (src : SocketAddr) (env : Draws) :
    ∃ e', (H.step s (.packet tick (peerKeepalive H.crypto i e₀) src env)).1.st.tunnels.get? i =
        some e' ∧ e'.addr = src ∧ e'.tun.recvKey = e₀.tun.recvKey := by
  have hroams := roams_peerKeepalive hC he hkey hi tick src env
  obtain ⟨_, _, _, hev, -, hopens⟩ := roams_received hroams
  cases hev
  have hhead := (head_of_opensAt hopens).1
  have hrecv : (Input.packet tick (peerKeepalive H.crypto i e₀) src env).received? =
      some (tick, peerKeepalive H.crypto i e₀, src, env) := rfl
  have haddr := addrAt_step_transport (H := H) (s := s) hrecv hhead i
  rw [hroams, if_pos rfl] at haddr
  obtain ⟨e', he', rfl⟩ := Option.map_eq_some_iff.mp haddr
  have hquiet : outcome H s (.packet tick (peerKeepalive H.crypto i e₀) e'.addr env) = .quiet :=
    received_transport hhead
  obtain ⟨e₁, he₁, hlink⟩ := get?_of_linkPart (step_quiet hquiet).steady.tunnels he'
  rw [he] at he₁
  cases he₁
  refine ⟨e', he', rfl, ?_⟩
  rw [← hkey]
  exact congrArg (fun l => l.1.recvKey) hlink

def keepaliveAt (C : Crypto) (st : State) (i : UInt32) : Bytes :=
  (st.tunnels.get? i).elim [] (peerKeepalive C i)

/-- The keepalive of the peer of `afterOne`. -/
def heardKeepalive : Bytes := keepaliveAt solo.crypto afterOne.st 4

/-- The peer sends it, and later a copy of it comes from another host. -/
def heardOnce : List Input := [arrives (initiationOf 5) 5 4, arrives heardKeepalive 5 0]

def heardTwice : List Input := heardOnce ++ [arrives heardKeepalive 66 0]

theorem heardTwice_addrs :
    ∃ s e e', Run solo.Steps soloStart heardOnce s ∧
      s.st.tunnels.get? 4 = some e ∧ e.addr = lanAddr 5 ∧
      (solo.step s (arrives heardKeepalive 66 0)).1.st.tunnels.get? 4 = some e' ∧
      e'.addr = lanAddr 66 := by
  obtain ⟨e₀, he₀, -⟩ := peerAt_some afterOne_next.1
  have hpkt : heardKeepalive = peerKeepalive solo.crypto 4 e₀ := by
    rw [heardKeepalive, keepaliveAt, he₀, Option.elim_some]
  have hi : (4 : UInt32) ≠ stunIndex := by decide
  obtain ⟨e, he, haddr, hkey⟩ := step_peerKeepalive (H := solo) transparent_lawful he₀ rfl hi 0
    (lanAddr 5) { zeroDraws with index := 0, ephemeral := byteKey 11 }
  obtain ⟨e', he', haddr', -⟩ := step_peerKeepalive (H := solo) transparent_lawful he hkey hi 0
    (lanAddr 66) { zeroDraws with index := 0, ephemeral := byteKey 11 }
  have hone : Run solo.Steps soloStart [arrives (initiationOf 5) 5 4] afterOne :=
    solo.run_after soloStart _
  have harrives : ∀ host, Input.packet 0 heardKeepalive (lanAddr host)
      { zeroDraws with index := 0, ephemeral := byteKey 11 } = arrives heardKeepalive host 0 :=
    fun _ => rfl
  rw [← hpkt, harrives] at he
  rw [← hpkt, harrives, harrives] at he'
  have htwo : Run solo.Steps soloStart heardOnce
      (solo.step afterOne (arrives heardKeepalive 5 0)).1 := hone.snoc rfl
  exact ⟨_, e, e', htwo, he, haddr, he', haddr'⟩

/-- The copy redirects the tunnel. -/
theorem copy_moves_tunnel :
    Fresh soloStart ∧ ∃ s, Run solo.Steps soloStart heardOnce s ∧
      addrAt (solo.step s (arrives heardKeepalive 66 0)).1.st 4 ≠ addrAt s.st 4 := by
  obtain ⟨s, e, e', hrun, he, haddr, he', haddr'⟩ := heardTwice_addrs
  refine ⟨solo_fresh, s, hrun, ?_⟩
  rw [addrAt, addrAt, he, he', Option.map_some, Option.map_some, haddr, haddr']
  decide

/-- The tunnel is last heard from the other host, and its keepalive goes there. -/
theorem tunnels_follow_last_heard_solo :
    ∃ s e hk, Run solo.Steps soloStart heardTwice s ∧ s.st.tunnels.get? 4 = some e ∧
      e.addr = lanAddr 66 ∧ lastHeard solo 4 soloStart heardTwice = some e.addr ∧
      ⟨lanAddr 66, (e.tun.keepalive solo.crypto).1⟩ ∈ (solo.step s (.periodic 0 hk none)).2 := by
  obtain ⟨s, -, e', hrun, -, -, he', haddr'⟩ := heardTwice_addrs
  have hrun' := hrun.snoc (a := arrives heardKeepalive 66 0) rfl
  obtain ⟨hlast, -, htraffic, -⟩ :=
    tunnels_follow_last_heard solo soloStart _ heardTwice solo_fresh hrun'
  obtain ⟨t, ht⟩ : ∃ t, (solo.step s (arrives heardKeepalive 66 0)).1 = t := ⟨_, rfl⟩
  rw [ht] at hrun' he' htraffic hlast
  have hdue : t.lp.lastProbe + 2000 - t.lp.lastProbe ≥ 2000 := by omega
  have hsent := keepalive_sent
    (htraffic 0 { probeDue with now := t.lp.lastProbe + 2000 } none) hdue he'
  rw [haddr'] at hsent
  exact ⟨t, e', _, hrun', he', haddr', hlast 4 e' he', hsent⟩

end TailscaleRust.Proofs
