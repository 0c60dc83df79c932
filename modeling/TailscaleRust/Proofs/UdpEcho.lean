import TailscaleRust.Proofs.Echo
import TailscaleRust.Proofs.Padding
import TailscaleRust.Proofs.Replacement

/-!
# A ping over UDP, from the handshake on

A peer that shook hands with the node gets its echo requests answered for as
long as its tunnel stands, however long that is, whatever else the node does
in between and wherever the request comes from. The tunnel stands until
`insert_tunnel` takes it away: until another handshake completes under the
same index, or from the address the tunnel then goes to. `Spares` says that a
step is not such a handshake.

The rest is what one packet meets on its way: the demultiplexer, the tunnel
by its index, the filter, and the handlers before the echo responder, none of
which takes an echo request.
-/

namespace TailscaleRust.Proofs.UdpEcho

open TailscaleRust.Lib TailscaleRust.Core TailscaleRust.Core.Wg
open TailscaleRust.Core.Icmp (echoReplyAny)
open TailscaleRust.Core.Outbound
open TailscaleRust.Firmware TailscaleRust.Firmware.Dataplane

/-! ## A tunnel that stands -/

/-- No handshake completes in the step under the index, or from the address
of the tunnel under it. -/
def Spares (H : Host) (i : UInt32) (s : NodeState) (ev : Input) : Prop :=
  ∀ j peer src, installed H s ev = some (j, peer, src) →
    i ≠ j ∧ ∀ e, s.st.tunnels.get? i = some e → e.addr ≠ src

section Stands

variable {H : Host} {s : NodeState}

theorem stands_step {ev : Input} {i : UInt32} {e : TunnelEntry} (h : Spares H i s ev)
    (he : s.st.tunnels.get? i = some e) :
    ∃ e', (H.step s ev).1.st.tunnels.get? i = some e' ∧ linkPart e' = linkPart e := by
  cases hinst : installed H s ev with
  | none =>
      have hsame := tunnels_of_not_installed hinst i
      rw [he] at hsame
      exact Option.map_eq_some_iff.mp hsame
  | some made =>
      obtain ⟨j, peer, src⟩ := made
      obtain ⟨hne, haddr⟩ := h j peer src hinst
      obtain ⟨tun, hstep⟩ := tunnels_of_installed hinst
      exact ⟨e, (kept_of_installed hstep hne).mpr ⟨he, haddr e he⟩, rfl⟩

theorem stands_run {t : NodeState} {evs : List Input} {i : UInt32} {e : TunnelEntry}
    (hrun : Run (Guarded (Spares H i) H.Steps) s evs t) (he : s.st.tunnels.get? i = some e) :
    ∃ e', t.st.tunnels.get? i = some e' ∧ linkPart e' = linkPart e := by
  refine hrun.invariant (P := fun t => ∃ e', t.st.tunnels.get? i = some e' ∧
    linkPart e' = linkPart e) ⟨e, he, rfl⟩ ?_
  rintro a ev b ⟨e', he', hlink⟩ ⟨hspares, hstep⟩
  obtain ⟨e'', he'', hlink'⟩ := stands_step hspares he'
  rw [Host.Steps] at hstep
  rw [hstep] at he''
  exact ⟨e'', he'', hlink'.trans hlink⟩

end Stands

/-! ## The handlers before the echo responder -/

section Handlers

variable {C : Crypto} {F : Features} {p reply : Bytes}

/-- An echo request is neither UDP nor TCP over IPv4. -/
theorem proto_of_ping (h : echoReplyAny p = some reply) :
    Icmp.versionOf p ≠ 4 ∨ byteAt p 9 = Icmp.protoIcmp := by
  rcases (echoReplyAny_answers_iff p).mp (by rw [h]; rfl) with h4 | h6
  · exact .inr h4.proto
  · left
    rw [h6.version]
    decide

theorem udpPayloadToPort_ping (h : echoReplyAny p = some reply) (port : UInt16) :
    udpPayloadToPort p port = none := by
  rw [udpPayloadToPort, if_pos]
  rcases proto_of_ping h with hv | hproto
  · exact .inr (.inl hv)
  · right; right
    rw [hproto]
    decide

theorem owns_ping (h : echoReplyAny p = some reply) (c : TcpClient) : c.owns p = false := by
  rw [TcpClient.owns, if_pos]
  rcases proto_of_ping h with hv | hproto
  · exact .inr (.inl hv)
  · right; right
    rw [hproto]
    decide

theorem clientInput_ping (h : echoReplyAny p = some reply) (ob : OutboundRun) :
    clientInput ob p = (ob, [], false) := by
  rw [clientInput]
  cases ob.tcp with
  | none => rfl
  | some c =>
      simp only [owns_ping h c]
      rfl

theorem outboundInput_ping (h : echoReplyAny p = some reply) (st : State) (i : UInt32)
    (src : SocketAddr) : outboundInput C F st i p src = (st, [], false) := by
  rw [outboundInput]
  split
  · cases hob : st.outbound with
    | none => rfl
    | some ob =>
        have hsame : ({ st with outbound := some ob } : State) = st := by
          rw [← hob]
        simp only [clientInput_ping h ob, hsame, sendInner_nil]
        rfl
  · rfl

theorem serviceInput_ping (hicmp : F.icmp = true) (h : echoReplyAny p = some reply)
    (env : Draws) (st : State) (i : UInt32) (src : SocketAddr) :
    serviceInput C F env st i p src = st.sendInner C i src [reply] := by
  have hmdns : mdnsInput F st i p = none := by
    rw [mdnsInput, udpPayloadToPort_ping h]
    split
    · rfl
    · rfl
  rw [serviceInput, hmdns]
  simp only [outboundInput_ping h, Bool.false_eq_true, if_false, icmpInput, if_pos hicmp, h,
    Option.map_some, List.nil_append]

/-- An echo request that the filter lets pass is answered through its own
tunnel, to where it came from. -/
theorem handleDecrypted_ping (hicmp : F.icmp = true) (h : echoReplyAny p = some reply)
    (hne : p ≠ []) {id : Identity} (hallowed : srcAllowed id.allowedSrcs p = true) (env : Draws)
    {st : State} {i : UInt32} {e : TunnelEntry} (he : st.tunnels.get? i = some e)
    (src : SocketAddr) :
    (handleDecrypted C F env id st i p src).2 = [⟨src, (e.tun.encrypt C reply).1⟩] := by
  have hmoved : (st.tunnels.modify i fun e => { e with addr := src }).get? i =
      some { e with addr := src } := by
    rw [Table.get?_modify, if_pos rfl, he]
    rfl
  rw [handleDecrypted, he]
  simp only [if_neg hne, hallowed, Bool.not_true, Bool.false_eq_true, if_false,
    serviceInput_ping hicmp h, State.sendInner, hmoved]
  rfl

end Handlers

/-! ## One packet -/

section Packet

variable {H : Host} {s : NodeState}

/-- The initiation of a peer, from the demultiplexer to the table. -/
theorem step_initiation (hC : H.crypto.Lawful)
    (hpub : H.identity.nodePub = pubkey H.crypto H.identity.nodePriv) (privI ephI : Key)
    (ts : Arr 12) {i : UInt32} (hi : i ≠ stunIndex) {ev : Input} {tick : UInt32}
    {src : SocketAddr} {env : Draws}
    (hev : ev.received? = some (tick,
      (initiation H.crypto privI H.identity.nodePriv ephI ts i).1.1, src, env)) :
    ∃ (resp : Arr respLen) (tI tR : Tunnel) (e : TunnelEntry),
      (H.step s ev).2 = [⟨src, resp.1⟩] ∧
      (initiation H.crypto privI H.identity.nodePriv ephI ts i).2.consumeResponse H.crypto
        resp.1 = .ok tI ∧
      (H.step s ev).1.st.tunnels.get? env.index = some e ∧ e.tun = tR ∧
      tI.theirIndex = env.index ∧ tI.sendKey = tR.recvKey ∧ tI.recvKey = tR.sendKey := by
  obtain ⟨run, resp, tI, tR, -, hcons, hresp, -, -, -, -, hkeys, hI, hR⟩ :=
    handshake_run hC privI H.identity.nodePriv ephI env.ephemeral ts i env.index
  rw [← hpub] at hcons
  obtain ⟨htype, hindex, -⟩ := initiation_fields hC privI H.identity.nodePriv ephI ts i
  have hlen : (initiation H.crypto privI H.identity.nodePriv ephI ts i).1.1.length = initLen :=
    (initiation H.crypto privI H.identity.nodePriv ephI ts i).1.2
  have hhead := (head?_eq_byteAt (by rw [hlen]; decide)).trans (congrArg some htype)
  have hdisco := not_isDisco_of_head hhead (by decide)
  have hstun : ¬Stun.isStun (initiation H.crypto privI H.identity.nodePriv ephI ts i).1.1
      = true := by
    rw [isStun_iff (by rw [hlen]; decide), hindex]
    exact hi
  have houtcome : outcome H s ev = .answer env.index resp tR (pubkey H.crypto privI) src := by
    rw [outcome_received hev, received, if_neg (by rw [hdisco]; decide), if_neg hstun,
      if_pos hhead, hcons]
  have hstep := (step_answer houtcome).2
  refine ⟨resp, tI, tR, ⟨tR, src, pubkey H.crypto privI, Tcp.TcpServer.new⟩, ?_, hresp, ?_, rfl,
    ?_, ?_, ?_⟩
  · rw [hstep]
  · rw [hstep, tunnels_insertTunnel, if_pos rfl]
  · rw [hI]
  · rw [hI, hR, hkeys]
  · rw [hI, hR, hkeys]

/-- Both ways in take a transport packet for a tunnel to that tunnel. -/
theorem step_transport {ev : Input} {tick : UInt32} {pkt : Bytes} {src : SocketAddr}
    {env : Draws} (hev : ev.received? = some (tick, pkt, src, env))
    (hhead : pkt.head? = some msgTransport) (hlen : 16 ≤ pkt.length)
    (hstun : u32le pkt 4 ≠ stunIndex) :
    (H.step s ev).2 = (handleWgTransport H.crypto H.features env H.identity s.st pkt src).2 := by
  cases ev with
  | packet tick' pkt' src' env' =>
      cases hev
      rw [Host.step]
      simp only [handlePacket_transport H.crypto H.features env H.identity s.lp.targets s.st tick
        src hhead (show 8 ≤ pkt.length by omega), if_neg hstun]
  | process tick' pkt' src' env' =>
      cases hev
      rw [Host.step]
      simp only [processPacket_transport H.crypto H.features env H.identity s.lp.targets s.st tick
        src hhead hlen]
  | periodic tick' hk stunAddr => cases hev
  | drain payloads => cases hev

/-- An echo request of the peer at the other end of a tunnel. -/
theorem step_ping (hC : H.crypto.Lawful) (hicmp : H.features.icmp = true) (tI : Tunnel)
    {e : TunnelEntry} (he : s.st.tunnels.get? tI.theirIndex = some e)
    (hstun : tI.theirIndex ≠ stunIndex) (hsend : tI.sendKey = e.tun.recvKey)
    (hrecv : tI.recvKey = e.tun.sendKey) {x reply : Bytes} (hx : DeclaresLength x)
    (h20 : 20 ≤ x.length) (hallowed : srcAllowed H.identity.allowedSrcs x = true)
    (hreply : echoReplyAny x = some reply) {ev : Input} {tick : UInt32} {src : SocketAddr}
    {env : Draws} (hev : ev.received? = some (tick, (tI.encrypt H.crypto x).1, src, env)) :
    ∃ pkt y, (H.step s ev).2 = [⟨src, pkt⟩] ∧ tI.decrypt H.crypto pkt = .ok y ∧
      Padded reply y := by
  obtain ⟨hdec, -⟩ := decrypt_encrypt hC (t := tI) (x := x) hsend.symm
  obtain ⟨m, hm, -⟩ := pad16_padded x
  rw [hm] at hdec
  have halike := handledAlike_append (zeros m) hx h20
  have hlen : 16 ≤ (tI.encrypt H.crypto x).1.length := by
    rw [encrypt_eq, List.length_append]
    simp
  have hhead : (tI.encrypt H.crypto x).1.head? = some msgTransport :=
    (head?_eq_byteAt (by omega)).trans (congrArg some (encrypt_type H.crypto tI x))
  have hidx : u32le (tI.encrypt H.crypto x).1 4 = tI.theirIndex :=
    u32le_of_slice (encrypt_index H.crypto tI x)
  have hne : x ++ zeros m ≠ [] := by
    intro hnil
    rw [(List.append_eq_nil_iff.mp hnil).1] at h20
    exact absurd h20 (by decide)
  have hout : (handleWgTransport H.crypto H.features env H.identity s.st
      (tI.encrypt H.crypto x).1 src).2 = [⟨src, (e.tun.encrypt H.crypto reply).1⟩] := by
    rw [handleWgTransport, if_neg (by omega)]
    simp only [hidx, he, hdec]
    exact handleDecrypted_ping hicmp (halike.echo.trans hreply) hne
      ((halike.filter _).trans hallowed) env he src
  obtain ⟨hback, -⟩ := decrypt_encrypt hC (t := e.tun) (x := reply) hrecv
  refine ⟨_, _, ?_, hback, pad16_padded reply⟩
  rw [step_transport hev hhead hlen (by rw [hidx]; exact hstun), hout]

end Packet

/-! ## The whole exchange -/

/-- A peer shakes hands with the node in any state. Whatever steps the node
takes after that, as long as its tunnel is spared, an echo request the peer
sends, sealed under any counter and from any address, is answered by one
datagram to that address, from which the peer reads the echo reply. -/
theorem udp_ping_answered (H : Host) (hC : H.crypto.Lawful) (hicmp : H.features.icmp = true)
    (hpub : H.identity.nodePub = pubkey H.crypto H.identity.nodePriv) (s : NodeState)
    (privI ephI : Key) (ts : Arr 12) (i : UInt32) (hi : i ≠ stunIndex) (ev₀ : Input)
    (tick₀ : UInt32) (src₀ : SocketAddr) (env₀ : Draws)
    (hev₀ : ev₀.received? = some (tick₀,
      (initiation H.crypto privI H.identity.nodePriv ephI ts i).1.1, src₀, env₀))
    (hdrawn : env₀.index ≠ stunIndex) :
    ∃ (resp : Arr respLen) (tI : Tunnel),
      (H.step s ev₀).2 = [⟨src₀, resp.1⟩] ∧
      (initiation H.crypto privI H.identity.nodePriv ephI ts i).2.consumeResponse H.crypto
        resp.1 = .ok tI ∧
      ∀ (mid : List Input) (t : NodeState),
        Run (Guarded (Spares H env₀.index) H.Steps) (H.step s ev₀).1 mid t →
        ∀ (c : UInt64) (x reply : Bytes) (ev : Input) (tick : UInt32) (src : SocketAddr)
          (env : Draws), DeclaresLength x → 20 ≤ x.length →
          srcAllowed H.identity.allowedSrcs x = true → echoReplyAny x = some reply →
          ev.received? = some (tick,
            (({ tI with txCounter := c } : Tunnel).encrypt H.crypto x).1, src, env) →
          ∃ pkt y, (H.step t ev).2 = [⟨src, pkt⟩] ∧ tI.decrypt H.crypto pkt = .ok y ∧
            Padded reply y := by
  obtain ⟨resp, tI, tR, e, hout, hresp, he, rfl, hindex, hsend, hrecv⟩ :=
    step_initiation (s := s) hC hpub privI ephI ts hi hev₀
  refine ⟨resp, tI, hout, hresp, ?_⟩
  intro mid t hrun c x reply ev tick src env hx h20 hallowed hreply hev
  obtain ⟨e', he', hlink⟩ := stands_run hrun he
  have hkeys : e'.tun.recvKey = e.tun.recvKey ∧ e'.tun.sendKey = e.tun.sendKey :=
    ⟨congrArg (fun l => l.1.recvKey) hlink, congrArg (fun l => l.1.sendKey) hlink⟩
  rw [← hindex] at he'
  exact step_ping hC hicmp { tI with txCounter := c } he' (by rw [hindex]; exact hdrawn)
    (hsend.trans hkeys.1.symm) (hrecv.trans hkeys.2.symm) hx h20 hallowed hreply hev

/-! Another peer shakes hands in between, and the ping comes from a new
address. -/

private def peerInit : Bytes :=
  (initiation transparent (byteKey 7) solo.identity.nodePriv (byteKey 13) (Arr.zero 12) 77).1.1

private def between : Input := arrives (initiationOf 5) 5 6

/-- The state after the peer's handshake. -/
private def shaken : NodeState := (solo.step soloStart (arrives peerInit 7 4)).1

private theorem shaken_spared :
    installed solo shaken between = some (6, byteKey 5, lanAddr 5) ∧
    (shaken.st.tunnels.get? 4).map TunnelEntry.addr = some (lanAddr 7) := by
  decide +kernel

private theorem between_spares : Spares solo 4 shaken between := by
  obtain ⟨hinst, haddr⟩ := shaken_spared
  intro j peer src h
  rw [hinst] at h
  cases h
  refine ⟨by decide, fun e he hsrc => ?_⟩
  rw [he, Option.map_some, hsrc] at haddr
  exact absurd haddr (by decide)

theorem udp_ping_answered_solo :
    ∃ (tI : Tunnel) (pkt y reply : Bytes), echoReplyAny ping28 = some reply ∧
      (solo.step (solo.after shaken [between])
        (arrives (tI.encrypt transparent ping28).1 9 0)).2 = [⟨lanAddr 9, pkt⟩] ∧
      tI.decrypt transparent pkt = .ok y ∧ Padded reply y := by
  obtain ⟨resp, tI, -, -, hping⟩ := udp_ping_answered solo transparent_lawful rfl rfl soloStart
    (byteKey 7) (byteKey 13) (Arr.zero 12) 77 (by decide) (arrives peerInit 7 4) 0 (lanAddr 7) _
    rfl (by decide)
  obtain ⟨reply, hreply⟩ := Option.isSome_iff_exists.mp
    (show (echoReplyAny ping28).isSome = true by decide)
  obtain ⟨pkt, y, hsent, hdec, hpad⟩ := hping [between] _ (.cons ⟨between_spares, rfl⟩ .nil) 0
    ping28 reply (arrives (({ tI with txCounter := 0 } : Tunnel).encrypt transparent ping28).1 9 0)
    0 (lanAddr 9) _ (.inl (by decide)) (by decide) rfl hreply rfl
  exact ⟨{ tI with txCounter := 0 }, pkt, y, reply, hreply, hsent, hdec, hpad⟩

end TailscaleRust.Proofs.UdpEcho
