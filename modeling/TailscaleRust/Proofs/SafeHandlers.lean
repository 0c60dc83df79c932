import TailscaleRust.Proofs.SafeHandshake
import TailscaleRust.Proofs.SafeServices
import TailscaleRust.Strict.Dataplane

/-!
# The handlers do not panic

The handlers put the packet and handshake code together, and add little that
can fail: an `unwrap` on a key that was just found, the sum of two table
sizes, and the request of the outbound client, which must fit its packet
when the server's SYN-ACK calls for it.
-/

namespace TailscaleRust.Proofs

open TailscaleRust.Lib TailscaleRust.Lib.Checked TailscaleRust.Core TailscaleRust.Core.Wg
open TailscaleRust.Core.Outbound (TcpClient)
open TailscaleRust.Firmware TailscaleRust.Firmware.Dataplane

/-- What the surroundings of one packet are like: the clock shows a
`time_t`, and the LAN host's answer comes through `lan_fetch`. -/
structure Realistic (env : Draws) : Prop where
  clock : env.unixSecs.toNat < 2 ^ 63
  lan : ∀ request, Strict.Fetched (env.lanFetch request)

/-- The client's request fits one packet. -/
def RequestFits (st : State) : Prop :=
  ∀ ob tc, st.outbound = some ob → ob.tcp = some tc → 40 + tc.request.length ≤ 65535

/-! ## Decrypted packets -/

section Decrypted

variable {C : Crypto} (hC : Tagged C) (F : Features) {env : Draws}

include hC in
theorem encryptAll_safe (tun : Tunnel) (dst : SocketAddr) {xs : List Bytes}
    (h : ∀ x ∈ xs, x.length ≤ 65575) :
    Strict.encryptAll C tun dst xs = .ok (encryptAll C tun dst xs) := by
  induction xs generalizing tun with
  | nil => rfl
  | cons x xs ih =>
      rw [Strict.encryptAll, encrypt_safe hC tun (h x List.mem_cons_self), ok_bind, encryptAll]
      generalize tun.encrypt C x = sealed
      obtain ⟨pkt, tun'⟩ := sealed
      dsimp only
      rw [ih tun' fun y hy => h y (List.mem_cons_of_mem x hy)]
      rfl

include hC in
theorem sendInner_safe (st : State) (i : UInt32) (dst : SocketAddr) {xs : List Bytes}
    (h : ∀ x ∈ xs, x.length ≤ 65575) :
    Strict.sendInner C st i dst xs = .ok (st.sendInner C i dst xs) := by
  rw [Strict.sendInner, State.sendInner]
  cases st.tunnels.get? i with
  | none => rfl
  | some e =>
      dsimp only
      rw [encryptAll_safe hC e.tun dst h]
      rfl

theorem mdnsInput_safe (st : State) (i : UInt32) (inner : Bytes) :
    Strict.mdnsInput F st i inner = .ok (mdnsInput F st i inner) := by
  rw [Strict.mdnsInput, mdnsInput]
  split
  · rw [udpPayloadToPort_safe, ok_bind]
    cases udpPayloadToPort inner fwdPort <;> rfl
  · rfl

theorem echoReplyLog_safe (inner : Bytes) : Strict.echoReplyLog inner = .ok () := by
  rw [Strict.echoReplyLog]
  split
  · next hlen =>
      rw [index_ok (by omega), ok_bind]
      split
      · rw [ihlOf_safe (by omega)]
        rfl
      · rfl
  · rfl

theorem clientInput_safe {ob : OutboundRun}
    (h : ∀ tc, ob.tcp = some tc → 40 + tc.request.length ≤ 65535) (inner : Bytes) :
    Strict.clientInput ob inner = .ok (clientInput ob inner) ∧
      ∀ x ∈ (clientInput ob inner).2.1, x.length ≤ 65575 := by
  rw [Strict.clientInput, clientInput]
  cases htc : ob.tcp with
  | none => exact ⟨rfl, fun _ hx => absurd hx List.not_mem_nil⟩
  | some tc =>
      obtain ⟨hsafe, hshort⟩ := onInner_safe inner tc (h tc htc)
      dsimp only
      rw [owns_safe, ok_bind]
      split
      · rw [hsafe, ok_bind]
        exact ⟨rfl, hshort⟩
      · exact ⟨rfl, fun _ hx => absurd hx List.not_mem_nil⟩

include hC in
theorem outboundInput_safe {st : State} (h : RequestFits st) (i : UInt32) (inner : Bytes)
    (src : SocketAddr) :
    Strict.outboundInput C F st i inner src = .ok (outboundInput C F st i inner src) := by
  rw [Strict.outboundInput, outboundInput]
  split
  · rw [echoReplyLog_safe, ok_bind]
    cases hob : st.outbound with
    | none => rfl
    | some ob =>
        obtain ⟨hsafe, hshort⟩ := clientInput_safe (fun tc htc => h ob tc hob htc) inner
        dsimp only
        rw [hsafe, ok_bind]
        generalize clientInput ob inner = r at hshort ⊢
        obtain ⟨ob', segs, line⟩ := r
        dsimp only at hshort ⊢
        rw [sendInner_safe hC _ i src hshort]
        rfl
  · rfl

include hC in
theorem icmpInput_safe (st : State) (i : UInt32) (inner : Bytes) (src : SocketAddr) :
    Strict.icmpInput C F st i inner src = .ok (icmpInput C F st i inner src) := by
  rw [Strict.icmpInput, icmpInput]
  split
  · rw [echoReplyAny_safe, ok_bind]
    cases hreply : Icmp.echoReplyAny inner with
    | none => rfl
    | some reply =>
        have hlen := length_echoReplyAny_le inner hreply
        dsimp only
        rw [sendInner_safe hC st i src fun x hx => by rw [List.mem_singleton.mp hx]; exact hlen]
        rfl
  · rfl

include hC in
theorem proxyInput_safe (henv : Realistic env) (st : State) (i : UInt32) (inner : Bytes)
    (src : SocketAddr) :
    Strict.proxyInput C F env st i inner src = .ok (proxyInput C F env st i inner src) := by
  rw [Strict.proxyInput, proxyInput]
  split
  · obtain ⟨hsafe, hshort⟩ := proxyHandle_safe inner env.proxyIss F.proxyListenPort env.lanFetch
      henv.lan st.proxy
    rw [hsafe, ok_bind]
    generalize st.proxy.handle F.proxyListenPort env.lanFetch inner env.proxyIss = r at hshort ⊢
    obtain ⟨replies, proxy⟩ := r
    dsimp only at hshort ⊢
    split
    · rfl
    · rw [sendInner_safe hC _ i src hshort]
      rfl
  · rfl

include hC in
theorem httpInput_safe (st : State) (i : UInt32) (inner : Bytes) (src : SocketAddr) :
    Strict.httpInput C F env st i inner src = .ok (httpInput C F env st i inner src) := by
  rw [Strict.httpInput, httpInput]
  split
  · cases st.tunnels.get? i with
    | none => rfl
    | some e =>
        obtain ⟨hsafe, hshort⟩ := serverHandle_safe inner env.serverIss e.tcp
        dsimp only
        rw [hsafe, ok_bind]
        exact sendInner_safe hC _ i src hshort
  · rfl

include hC in
theorem serviceInput_safe (henv : Realistic env) {st : State} (h : RequestFits st) (i : UInt32)
    (inner : Bytes) (src : SocketAddr) :
    Strict.serviceInput C F env st i inner src = .ok (serviceInput C F env st i inner src) := by
  rw [Strict.serviceInput, mdnsInput_safe, ok_bind, serviceInput]
  cases mdnsInput F st i inner with
  | some st' => rfl
  | none =>
      dsimp only
      rw [outboundInput_safe hC F h, ok_bind]
      generalize outboundInput C F st i inner src = r
      obtain ⟨st', out, handled⟩ := r
      dsimp only
      split
      · rfl
      rw [icmpInput_safe hC, ok_bind]
      cases icmpInput C F st' i inner src with
      | some replied => rfl
      | none =>
          dsimp only
          rw [proxyInput_safe hC F henv, ok_bind]
          generalize proxyInput C F env st' i inner src = r
          obtain ⟨st'', out', handled'⟩ := r
          dsimp only
          split
          · rfl
          · rw [httpInput_safe hC]
            rfl

include hC in
theorem handleDecrypted_safe (henv : Realistic env) (id : Identity) {st : State}
    (h : RequestFits st) (i : UInt32) (inner : Bytes) (src : SocketAddr) :
    Strict.handleDecrypted C F env id st i inner src =
      .ok (handleDecrypted C F env id st i inner src) := by
  rw [Strict.handleDecrypted, handleDecrypted]
  cases st.tunnels.get? i with
  | none => rfl
  | some e =>
      dsimp only
      split
      · rfl
      rw [srcAllowed_safe, ok_bind]
      split
      · rfl
      · exact serviceInput_safe hC F henv (by exact h) i inner src

include hC in
theorem handleWgTransport_safe (henv : Realistic env) (id : Identity) {st : State}
    (h : RequestFits st) (pkt : Bytes) (src : SocketAddr) :
    Strict.handleWgTransport C F env id st pkt src =
      .ok (handleWgTransport C F env id st pkt src) := by
  rw [Strict.handleWgTransport, handleWgTransport]
  split
  · rfl
  · rw [u32leOf_ok (by omega), ok_bind]
    dsimp only
    cases st.tunnels.get? (u32le pkt 4) with
    | none => rfl
    | some e =>
        dsimp only
        rw [decrypt_safe, ok_bind]
        cases e.tun.decrypt C pkt with
        | error _ => rfl
        | ok inner => exact handleDecrypted_safe hC F henv id h (u32le pkt 4) inner src

end Decrypted

/-! ## Handshakes -/

section Handshakes

variable {C : Crypto} (hC : Tagged C) {env : Draws}

include hC in
/-- Both tables are in memory, which is what bounds their sizes. -/
theorem maybeStartHandshake_safe (henv : Realistic env) (id : Identity) (targets : List Target)
    {st : State} (hsize : st.tunnels.size + st.pending.size < 2 ^ 32) (tick : UInt32)
    (discoPub : Key) (src : SocketAddr) :
    Strict.maybeStartHandshake C env id targets st tick discoPub src =
      .ok (maybeStartHandshake C env id targets st tick discoPub src) := by
  rw [Strict.maybeStartHandshake, maybeStartHandshake]
  cases targets.find? fun t => t.discoPub = discoPub with
  | none => rfl
  | some target =>
      simp only [ite_or]
      split
      · rfl
      split
      · rfl
      rw [addUsize_ok hsize, ok_bind]
      split
      · rfl
      · rw [tai64n_safe henv.clock, ok_bind, buildInitiation_safe hC, ok_bind]
        rfl

include hC in
theorem handleWgInit_safe (id : Identity) (st : State) (pkt : Bytes) (src : SocketAddr) :
    Strict.handleWgInit C env id st pkt src = .ok (handleWgInit C env id st pkt src) := by
  rw [Strict.handleWgInit, consumeInitiation_safe hC, ok_bind, handleWgInit]
  cases consumeInitiation C id.nodePriv id.nodePub pkt env.index env.ephemeral with
  | error _ => rfl
  | ok r => rfl

include hC in
/-- The key that `unwrap` relies on was found in the table just before. -/
theorem handleWgResponse_safe (st : State) (pkt : Bytes) (src : SocketAddr) :
    Strict.handleWgResponse C st pkt src = .ok (handleWgResponse C st pkt src) := by
  rw [Strict.handleWgResponse, handleWgResponse]
  split
  · rfl
  · rw [u32leOf_ok (by omega), ok_bind]
    cases hfind : st.pending.find? fun _ p => p.ourIndex = u32le pkt 8 with
    | none => rfl
    | some found =>
        obtain ⟨key, p⟩ := found
        obtain ⟨hget, -⟩ := Table.find?_some hfind
        rw [Option.map_some]
        dsimp only
        rw [hget, unwrap, ok_bind, consumeResponse_safe, ok_bind]
        cases p.hs.consumeResponse C pkt with
        | error _ => rfl
        | ok tun =>
            dsimp only
            rw [encrypt_safe hC tun (Nat.zero_le _), ok_bind]
            rfl

end Handshakes

/-! ## One received datagram -/

section Packet

variable {C : Crypto} (hC : Tagged C) (F : Features) {env : Draws}

include hC in
theorem handleDisco_safe (henv : Realistic env) (id : Identity) (targets : List Target)
    {st : State} (hsize : st.tunnels.size + st.pending.size < 2 ^ 32) (tick : UInt32) (pkt : Bytes)
    (src : SocketAddr) :
    Strict.handleDisco C env id targets st tick pkt src =
      .ok (handleDisco C env id targets st tick pkt src) := by
  rw [Strict.handleDisco, openPacket_safe, ok_bind, handleDisco]
  cases Disco.openPacket C id.discoPriv pkt with
  | error _ => rfl
  | ok msg =>
      dsimp only
      split
      · have hlen : (Disco.pongPlaintext msg.txid src).length = 32 := by
          simp [Disco.pongPlaintext, msg.txid.2, (Disco.addrToBytes src).2]
        rw [pongPlaintext_safe, ok_bind, sealPacket_safe hC _ _ _ _ (by omega), ok_bind]
        cases Disco.sealPacket C id.discoPriv id.discoPub msg.senderDiscoPub
          (Disco.pongPlaintext msg.txid src) env.nonce <;> rfl
      · split
        · exact maybeStartHandshake_safe hC henv id targets (by exact hsize) tick
            msg.senderDiscoPub src
        · rfl

theorem remoteLog_safe (pkt : Bytes) (src : SocketAddr) : Strict.remoteLog pkt src = .ok () := by
  rw [Strict.remoteLog]
  split
  · rw [isStun_safe, ok_bind]
    split
    · rw [isDisco_safe]
      rfl
    · rfl
  · rfl

include hC in
theorem handlePacket_safe (henv : Realistic env) (id : Identity) (targets : List Target)
    {st : State} (hsize : st.tunnels.size + st.pending.size < 2 ^ 32) (h : RequestFits st)
    (tick : UInt32) (pkt : Bytes) (src : SocketAddr) :
    Strict.handlePacket C F env id targets st tick pkt src =
      .ok (handlePacket C F env id targets st tick pkt src) := by
  rw [Strict.handlePacket, remoteLog_safe, ok_bind, isDisco_safe, ok_bind, handlePacket]
  split
  · exact handleDisco_safe hC henv id targets hsize tick pkt src
  rw [isStun_safe, ok_bind]
  split
  · rfl
  split
  · exact handleWgInit_safe hC id st pkt src
  split
  · exact handleWgResponse_safe hC st pkt src
  split
  · exact handleWgTransport_safe hC F henv id h pkt src
  · rfl

include hC in
theorem processPacket_safe (henv : Realistic env) (id : Identity) (targets : List Target)
    {st : State} (hsize : st.tunnels.size + st.pending.size < 2 ^ 32) (h : RequestFits st)
    (tick : UInt32) (pkt : Bytes) (src : SocketAddr) :
    Strict.processPacket C F env id targets st tick pkt src =
      .ok (processPacket C F env id targets st tick pkt src) := by
  rw [Strict.processPacket, processPacket]
  split
  · next hfast =>
      rw [u32leOf_ok (by omega), ok_bind]
      dsimp only
      cases (st.tunnels.get? (u32le pkt 4)).map fun e => e.tun.recvKey with
      | none => rfl
      | some key =>
          dsimp only
          rw [decryptTransport_safe, ok_bind]
          cases decryptTransport C key pkt with
          | none => rfl
          | some inner => exact handleDecrypted_safe hC F henv id h (u32le pkt 4) inner src
  · exact handlePacket_safe hC F henv id targets hsize h tick pkt src

end Packet

/-! ## One frame of the relay -/

section Relay

open TailscaleRust.Firmware.Derp

variable {C : Crypto} (hC : Tagged C) (F : Features) (env : FrameDraws)

theorem sendPacket_safe (dst : Key) {pkt : Bytes} (h : pkt.length < 2 ^ 31 + 128) :
    Strict.sendPacket dst pkt = .ok ⟨dst, pkt⟩ := by
  rw [Strict.sendPacket, addUsize_ok (by omega)]
  rfl

theorem length_callMeMaybePlaintext (eps : List SocketAddr) :
    (Disco.callMeMaybePlaintext eps).length = eps.length * 18 + 2 := by
  have hsum : (eps.flatMap fun a => (Disco.addrToBytes a).1).length = eps.length * 18 := by
    induction eps with
    | nil => rfl
    | cons a eps ih =>
        rw [List.flatMap_cons, List.length_append, (Disco.addrToBytes a).2, ih, List.length_cons]
        omega
  rw [Disco.callMeMaybePlaintext, Disco.endpointsPlaintext, List.length_append, hsum, Nat.add_comm]
  rfl

include hC in
theorem tryUpgrade_safe (id : Identity) {up : Upgrade} (hup : up.ourEndpoints.length * 18 < 2 ^ 31)
    (src : Key) : Strict.tryUpgrade C env id up src = .ok (tryUpgrade C env id up src) := by
  rw [Strict.tryUpgrade, tryUpgrade]
  cases up.peers.find? fun p => p.nodePub = src with
  | none => rfl
  | some peer =>
      dsimp only
      split
      · rfl
      have hlen := length_callMeMaybePlaintext up.ourEndpoints
      rw [callMeMaybePlaintext_safe hup, ok_bind, sealPacket_safe hC _ _ _ _ (by omega), ok_bind]
      cases hseal : Disco.sealPacket C id.discoPriv id.discoPub peer.discoPub
          (Disco.callMeMaybePlaintext up.ourEndpoints) env.upgradeNonce with
      | error _ => rfl
      | ok wire =>
          have hwire := length_sealPacket hC hseal
          dsimp only
          rw [sendPacket_safe src (by omega)]
          rfl

include hC in
theorem serveDisco_safe (id : Identity) (upgrade : Option Upgrade) (src : Key) (pkt : Bytes) :
    Strict.serveDisco C env id upgrade src pkt = .ok (serveDisco C env id upgrade src pkt) := by
  rw [Strict.serveDisco, openPacket_safe, ok_bind, serveDisco]
  cases Disco.openPacket C id.discoPriv pkt with
  | error _ => rfl
  | ok msg =>
      dsimp only
      split
      · have hlen : (Disco.pongPlaintext msg.txid (.v4 (Arr.zero 4) 0)).length = 32 := by
          simp [Disco.pongPlaintext, msg.txid.2, (Disco.addrToBytes _).2]
        rw [pongPlaintext_safe, ok_bind, sealPacket_safe hC _ _ _ _ (by omega), ok_bind]
        cases hseal : Disco.sealPacket C id.discoPriv id.discoPub msg.senderDiscoPub
            (Disco.pongPlaintext msg.txid (.v4 (Arr.zero 4) 0)) env.nonce with
        | error _ => rfl
        | ok wire =>
            have hwire := length_sealPacket hC hseal
            dsimp only
            rw [sendPacket_safe src (by omega)]
            rfl
      · split <;> rfl

include hC in
theorem relayAll_safe (tun : Tunnel) (dst : Key) {xs : List Bytes}
    (h : ∀ x ∈ xs, x.length ≤ 65575) :
    Strict.relayAll C tun dst xs = .ok (relayAll C tun dst xs) := by
  induction xs generalizing tun with
  | nil => rfl
  | cons x xs ih =>
      have hx := h x List.mem_cons_self
      have hlen := length_encrypt_le hC tun x
      rw [Strict.relayAll, encrypt_safe hC tun hx, ok_bind, relayAll]
      generalize tun.encrypt C x = sealed at hlen ⊢
      obtain ⟨pkt, tun'⟩ := sealed
      dsimp only at hlen ⊢
      rw [sendPacket_safe dst (by omega), ok_bind,
        ih tun' fun y hy => h y (List.mem_cons_of_mem x hy)]
      rfl

include hC in
theorem relayHttp_safe (p : DerpPeer) (src : Key) (inner : Bytes) :
    Strict.relayHttp C F env p src inner =
      .ok (if F.httpServer then
        let (replies, tcp) := p.tcp.handle inner env.serverIss
        let (out, tun) := relayAll C p.tun src replies
        ({ tun := tun, tcp := tcp }, out)
      else (p, [])) := by
  rw [Strict.relayHttp]
  split
  · obtain ⟨hsafe, hshort⟩ := serverHandle_safe inner env.serverIss p.tcp
    rw [hsafe, ok_bind]
    generalize p.tcp.handle inner env.serverIss = r at hshort ⊢
    obtain ⟨replies, tcp⟩ := r
    dsimp only at hshort ⊢
    rw [relayAll_safe hC p.tun src hshort]
    rfl
  · rfl

include hC in
theorem handleInner_safe (p : DerpPeer) (src : Key) (inner : Bytes) :
    Strict.handleInner C F env p src inner = .ok (handleInner C F env p src inner) := by
  rw [Strict.handleInner, handleInner]
  split
  · rw [echoReplyAny_safe, ok_bind]
    cases hreply : Icmp.echoReplyAny inner with
    | none => exact relayHttp_safe hC F env p src inner
    | some reply =>
        have hlen := length_echoReplyAny_le inner hreply
        dsimp only
        rw [relayAll_safe hC p.tun src fun x hx => by rw [List.mem_singleton.mp hx]; exact hlen]
        rfl
  · exact relayHttp_safe hC F env p src inner

include hC in
theorem serveTransport_safe (id : Identity) (st : ServeState) (src : Key) (pkt : Bytes) :
    Strict.serveTransport C F env id st src pkt = .ok (serveTransport C F env id st src pkt) := by
  rw [Strict.serveTransport, serveTransport]
  cases st.peers.get? src with
  | none => rfl
  | some p =>
      dsimp only
      rw [decrypt_safe, ok_bind]
      cases p.tun.decrypt C pkt with
      | error _ => rfl
      | ok inner =>
          dsimp only
          by_cases hempty : inner = []
          · rw [if_pos hempty, if_neg fun h => h.1 hempty]
            rfl
          rw [if_neg hempty, srcAllowed_safe, ok_bind]
          by_cases hallowed : srcAllowed id.allowedSrcs inner = true
          · rw [if_pos hallowed, if_pos ⟨hempty, hallowed⟩, handleInner_safe hC]
            rfl
          · rw [if_neg hallowed, if_neg fun h => hallowed h.2]
            rfl

include hC in
theorem serveInit_safe (id : Identity) (st : ServeState) (src : Key) (pkt : Bytes) :
    Strict.serveInit C env id st src pkt = .ok (serveInit C env id st src pkt) := by
  rw [Strict.serveInit, consumeInitiation_safe hC, ok_bind, serveInit]
  cases consumeInitiation C id.nodePriv id.nodePub pkt env.index env.ephemeral with
  | error _ => rfl
  | ok r =>
      obtain ⟨resp, tun, static⟩ := r
      dsimp only
      rw [sendPacket_safe src (by rw [resp.2, respLen]; omega)]
      rfl

/-- What the first frame of a peer leads to. -/
def contact (C : Crypto) (env : FrameDraws) (id : Identity) (upgrade : Option Upgrade)
    (st : ServeState) (src : Key) : ServeState × Sends :=
  match upgrade with
  | none => (st, Sends.none)
  | some up =>
      if st.upgraded.contains src then (st, Sends.none)
      else ({ st with upgraded := src :: st.upgraded }, tryUpgrade C env id up src)

/-- The WireGuard branches of one pass. -/
def relayWg (C : Crypto) (F : Features) (env : FrameDraws) (id : Identity) (st : ServeState)
    (src : Key) (pkt : Bytes) : ServeState × List Packet :=
  if byteAt pkt 0 = msgInitiation then serveInit C env id st src pkt
  else if byteAt pkt 0 = msgTransport then serveTransport C F env id st src pkt
  else (st, [])

theorem serveFrame_eq (id : Identity) (upgrade : Option Upgrade) (st : ServeState) (typ : UInt8)
    (payload : Bytes) :
    serveFrame C F env id upgrade st typ payload =
      if typ ≠ frameRecvPacket ∨ payload.length < 32 then (st, Sends.none)
      else if payload.drop 32 = [] then (st, Sends.none)
      else
        let (st, first) := contact C env id upgrade st (arrAt payload 0 32)
        if Disco.isDisco (payload.drop 32) then
          let s := serveDisco C env id upgrade (arrAt payload 0 32) (payload.drop 32)
          (st, ⟨first.packets ++ s.packets, first.targets ++ s.targets⟩)
        else
          let (st, out) := relayWg C F env id st (arrAt payload 0 32) (payload.drop 32)
          (st, ⟨first.packets ++ out, first.targets⟩) := by
  rw [serveFrame]
  cases upgrade with
  | none => rfl
  | some up =>
      simp only [contact, List.contains_iff_mem]
      rfl

include hC in
theorem firstContact_safe (id : Identity) {upgrade : Option Upgrade}
    (hup : ∀ up, upgrade = some up → up.ourEndpoints.length * 18 < 2 ^ 31) (st : ServeState)
    (src : Key) :
    Strict.firstContact C env id upgrade st src = .ok (contact C env id upgrade st src) := by
  unfold Strict.firstContact contact
  cases upgrade with
  | none => rfl
  | some up =>
      dsimp only
      split
      · rfl
      · rw [tryUpgrade_safe hC env id (hup up rfl)]
        rfl

include hC in
theorem serveWg_safe (id : Identity) (st : ServeState) (src : Key) (pkt : Bytes) :
    Strict.serveWg C F env id st src pkt = .ok (relayWg C F env id st src pkt) := by
  rw [Strict.serveWg, relayWg]
  split
  · exact serveInit_safe hC env id st src pkt
  split
  · exact serveTransport_safe hC F env id st src pkt
  · rfl

include hC in
theorem serveFrame_safe (id : Identity) {upgrade : Option Upgrade}
    (hup : ∀ up, upgrade = some up → up.ourEndpoints.length * 18 < 2 ^ 31) (st : ServeState)
    (typ : UInt8) (payload : Bytes) :
    Strict.serveFrame C F env id upgrade st typ payload =
      .ok (serveFrame C F env id upgrade st typ payload) := by
  rw [Strict.serveFrame, serveFrame_eq]
  split
  · rfl
  · next hguard =>
      rw [range_ok (by omega) (by omega), ok_bind, toArray_slice rfl (by omega), ok_bind,
        rangeFrom_ok (by omega), ok_bind]
      dsimp only
      split
      · rfl
      rw [firstContact_safe hC env id hup, ok_bind]
      generalize contact C env id upgrade st (arrAt payload 0 32) = r
      obtain ⟨st', first⟩ := r
      dsimp only
      rw [isDisco_safe, ok_bind]
      split
      · rw [serveDisco_safe hC]
        rfl
      · rw [serveWg_safe hC]
        rfl

end Relay

end TailscaleRust.Proofs
