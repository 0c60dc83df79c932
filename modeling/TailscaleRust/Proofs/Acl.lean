import TailscaleRust.Firmware.Derp
import TailscaleRust.Proofs.FastPath

/-!
# The packet filter behind the tunnels

`src_allowed` lets through whatever is not IPv4 with a source address, on
the ground that it does not understand it. All but one of the handlers that
come after it share that view: for anything but a full IPv4 header they do
nothing (`inert`). The echo responder is the exception, since it also reads
IPv6. So an IPv4 source outside the ranges is always met with silence, and a
packet without an IPv4 source exactly when it is not an IPv6 echo request.
-/

namespace TailscaleRust.Proofs

open TailscaleRust.Lib TailscaleRust.Core TailscaleRust.Core.Wg
open TailscaleRust.Core.Icmp TailscaleRust.Core.Peers TailscaleRust.Core.Outbound
open TailscaleRust.Core.Tcp TailscaleRust.Firmware TailscaleRust.Firmware.Dataplane

/-- Do the rules cover the packet's source? An IPv6 source is covered only
by the any-entry, and bytes without a source address by nothing. -/
def srcCovered (cidrs : List Cidr) (inner : Bytes) : Bool :=
  if versionOf inner = 4 ∧ inner.length ≥ 16 then cidrMatch cidrs (u32be inner 12)
  else if versionOf inner = 6 then cidrs.contains (0, 0)
  else false

/-- An IPv4 packet long enough for the filter to read its source. -/
def HasIpv4Source (inner : Bytes) : Prop := versionOf inner = 4 ∧ 16 ≤ inner.length

/-- An IPv6 packet with a complete ICMPv6 echo request directly behind its
header. -/
def EchoRequestV6 (inner : Bytes) : Prop :=
  40 ≤ inner.length ∧ versionOf inner = 6 ∧ byteAt inner 6 = nextHdrIcmpv6 ∧
  8 ≤ (u16be inner 4).toNat ∧ 40 + (u16be inner 4).toNat ≤ inner.length ∧
  byteAt inner 40 = icmpv6EchoRequest

/-- Not an IPv4 packet with at least the fixed header. -/
def NotIpv4 (inner : Bytes) : Prop := inner.length < 20 ∨ versionOf inner ≠ 4

/-! ## The handlers on what is not IPv4 -/

section Inert

variable {inner : Bytes} (h : NotIpv4 inner)

include h

theorem udpPayloadToPort_inert (port : UInt16) : udpPayloadToPort inner port = none := by
  rw [udpPayloadToPort, if_pos]
  rcases h with hlen | hver
  · exact .inl hlen
  · exact .inr (.inl hver)

theorem owns_inert (c : TcpClient) : c.owns inner = false := by
  rw [TcpClient.owns, if_pos]
  rcases h with hlen | hver
  · exact .inl hlen
  · exact .inr (.inl hver)

theorem parseSegment_inert : parseSegment inner = none := by
  rw [parseSegment, if_pos]
  rcases h with hlen | hver
  · exact .inl hlen
  · exact .inr (.inl hver)

theorem serverHandle_inert (s : TcpServer) (iss : UInt32) : s.handle inner iss = ([], s) := by
  rw [TcpServer.handle, parseSegment_inert h]

theorem proxyHandle_inert (p : Proxy.TcpProxy) (port : UInt16) (fetch : Bytes → Bytes)
    (iss : UInt32) : p.handle port fetch inner iss = ([], p) := by
  rw [Proxy.TcpProxy.handle, parseSegment_inert h]

theorem clientInput_inert (ob : OutboundRun) : clientInput ob inner = (ob, [], false) := by
  rw [clientInput]
  cases hc : ob.tcp with
  | none => rfl
  | some c => simp only [owns_inert h c, Bool.false_eq_true, if_false]

theorem mdnsInput_inert (F : Features) (st : State) (i : UInt32) :
    mdnsInput F st i inner = none := by
  rw [mdnsInput, udpPayloadToPort_inert h]
  split <;> rfl

end Inert

theorem echoReplyV6_isSome_iff (inner : Bytes) :
    (echoReplyV6 inner).isSome = true ↔ EchoRequestV6 inner := by
  rw [echoReplyV6, EchoRequestV6]
  split
  · next h =>
      refine ⟨?_, ?_⟩
      · intro hs
        cases hs
      · intro hreq
        obtain ⟨hlen, hver, hnext, -⟩ := hreq
        rcases h with h | h | h
        · omega
        · exact absurd hver h
        · exact absurd hnext h
  · next h =>
      simp only [not_or, Nat.not_lt, not_not] at h
      simp only []
      split
      · next h' =>
          refine ⟨?_, ?_⟩
          · intro hs
            cases hs
          · intro hreq
            obtain ⟨-, -, -, hpl, hfit, -⟩ := hreq
            rcases h' with h' | h'
            · omega
            · omega
      · next h' =>
          simp only [not_or, Nat.not_lt] at h'
          split
          · next htype =>
              refine ⟨?_, ?_⟩
              · intro hs
                cases hs
              · intro hreq
                obtain ⟨-, -, -, -, -, ht⟩ := hreq
                exact absurd ht htype
          · next htype =>
              simp only [not_not] at htype
              refine ⟨?_, ?_⟩
              · intro _
                exact ⟨h.1, h.2.1, h.2.2, h'.1, h'.2, htype⟩
              · intro _
                rfl

/-- On bytes that are not IPv4, the responder answers IPv6 echo requests. -/
theorem echoReplyAny_isSome_iff {inner : Bytes} (h : NotIpv4 inner) :
    (echoReplyAny inner).isSome = true ↔ EchoRequestV6 inner := by
  rw [echoReplyAny]
  cases inner with
  | nil =>
      refine ⟨?_, ?_⟩
      · intro hs
        cases hs
      · intro hreq
        obtain ⟨hlen, -⟩ := hreq
        cases hlen
  | cons b rest =>
      have hv : versionOf (b :: rest) = b >>> 4 := rfl
      simp only [List.head?_cons]
      split
      · next h4 =>
          have hshort : (b :: rest).length < 20 := by
            rcases h with hlen | hver
            · exact hlen
            · exact absurd (hv.trans h4) hver
          rw [echoReply, if_pos (.inl hshort)]
          refine ⟨?_, ?_⟩
          · intro hs
            cases hs
          · intro hreq
            obtain ⟨hlen, -⟩ := hreq
            omega
      · next h4 =>
          split
          · exact echoReplyV6_isSome_iff _
          · next h6 =>
              refine ⟨?_, ?_⟩
              · intro hs
                cases hs
              · intro hreq
                obtain ⟨-, hver, -⟩ := hreq
                exact absurd (hv.symm.trans hver) h6

/-! ## The UDP plane -/

/-- No reply, and every service as it was. Roaming may move a tunnel's
address. -/
structure Silent (st : State) (r : State × List Datagram) : Prop where
  noReply : r.2 = []
  proxy : r.1.proxy = st.proxy
  outbound : r.1.outbound = st.outbound
  mdns : r.1.mdnsReinject = st.mdnsReinject
  tcp : ∀ i, (r.1.tunnels.get? i).map TunnelEntry.tcp =
    (st.tunnels.get? i).map TunnelEntry.tcp

section Udp

variable (C : Crypto) (F : Features) (env : Draws)

theorem length_sendInner {st : State} {i : UInt32} {e : TunnelEntry}
    (he : st.tunnels.get? i = some e) (dst : SocketAddr) (xs : List Bytes) :
    (st.sendInner C i dst xs).2.length = xs.length := by
  rw [State.sendInner, he]
  exact length_encryptAll C dst xs e.tun

/-- The service handlers on what is not IPv4: the echo responder or
nothing. -/
theorem serviceInput_inert {inner : Bytes} (h : NotIpv4 inner) (st : State) (i : UInt32)
    (src : SocketAddr) :
    serviceInput C F env st i inner src =
      (icmpInput C F st i inner src).getD (st, []) := by
  have hout : outboundInput C F st i inner src = (st, [], false) := by
    rw [outboundInput]
    split
    · cases hob : st.outbound with
      | none => rfl
      | some ob =>
          have hsame : { st with outbound := some ob } = st := by rw [← hob]
          simp only [clientInput_inert h, hsame, sendInner_nil]
          rfl
    · rfl
  have hproxy : proxyInput C F env st i inner src = (st, [], false) := by
    rw [proxyInput]
    split
    · simp only [proxyHandle_inert h, if_true]
    · rfl
  have hhttp : httpInput C F env st i inner src = (st, []) := by
    rw [httpInput]
    split
    · cases he : st.tunnels.get? i with
      | none => rfl
      | some e =>
          have hself : (st.tunnels.modify i fun e' => { e' with tcp := e.tcp }) =
              st.tunnels := by
            apply Table.modify_eq_self
            intro e' he'
            rw [Option.some.inj (he.symm.trans he')]
          simp only [serverHandle_inert h, hself, sendInner_nil]
    · rfl
  rw [serviceInput, mdnsInput_inert h]
  simp only [hout, Bool.false_eq_true, if_false, List.nil_append]
  cases hicmp : icmpInput C F st i inner src with
  | none => simp only [hproxy, hhttp, Bool.false_eq_true, if_false, Option.getD_none,
      List.append_nil]
  | some r => rfl

theorem silent_roam (st : State) (i : UInt32) (src : SocketAddr) :
    Silent st ({ st with tunnels := st.tunnels.modify i fun e => { e with addr := src } },
      []) where
  noReply := rfl
  proxy := rfl
  outbound := rfl
  mdns := rfl
  tcp j := by
    rw [Table.get?_modify]
    split
    · cases st.tunnels.get? j <;> rfl
    · rfl

/-- A packet that is not IPv4, past the filter. -/
theorem handleDecrypted_inert_iff {inner : Bytes} (h : NotIpv4 inner) (hne : inner ≠ [])
    {id : Identity} (hpass : srcAllowed id.allowedSrcs inner = true) (st : State)
    (i : UInt32) (src : SocketAddr) {e : TunnelEntry} (he : st.tunnels.get? i = some e) :
    Silent st (handleDecrypted C F env id st i inner src) ↔
      ¬ (F.icmp = true ∧ EchoRequestV6 inner) := by
  have hrun : handleDecrypted C F env id st i inner src =
      (icmpInput C F
        { st with tunnels := st.tunnels.modify i fun e => { e with addr := src } } i inner
        src).getD
        ({ st with tunnels := st.tunnels.modify i fun e => { e with addr := src } }, []) := by
    rw [handleDecrypted, he]
    simp only [if_neg hne, hpass, Bool.not_true, Bool.false_eq_true, if_false]
    exact serviceInput_inert C F env h _ i src
  rw [hrun, ← echoReplyAny_isSome_iff h, icmpInput]
  by_cases hicmp : F.icmp = true
  · rw [if_pos hicmp]
    cases hreply : echoReplyAny inner with
    | none =>
        refine ⟨?_, ?_⟩
        · intro _ hboth
          cases hboth.2
        · intro _
          exact silent_roam st i src
    | some reply =>
        refine ⟨?_, ?_⟩
        · intro hsilent
          have hmod : (st.tunnels.modify i fun e => { e with addr := src }).get? i =
              some { e with addr := src } := by
            rw [Table.get?_modify, if_pos rfl, he]
            rfl
          have hlen : (State.sendInner C { st with
              tunnels := st.tunnels.modify i fun e => { e with addr := src } } i src
              [reply]).2.length = 1 := length_sendInner C hmod src [reply]
          rw [show (State.sendInner C _ i src [reply]).2 = [] from hsilent.noReply] at hlen
          cases hlen
        · intro hno
          exact absurd ⟨hicmp, rfl⟩ hno
  · rw [if_neg hicmp]
    refine ⟨?_, ?_⟩
    · intro _ hboth
      exact hicmp hboth.1
    · intro _
      exact silent_roam st i src

end Udp

/-! ## The filter -/

theorem notIpv4_of_no_source {inner : Bytes} (h : ¬ HasIpv4Source inner) :
    NotIpv4 inner := by
  by_cases hver : versionOf inner = 4
  · refine .inl ?_
    by_contra hlen
    exact h ⟨hver, by omega⟩
  · exact .inr hver

/-- What has no IPv4 source passes the filter, whatever the rules. -/
theorem srcAllowed_no_source {inner : Bytes} (h : ¬ HasIpv4Source inner)
    (rules : Option (List Cidr)) : srcAllowed rules inner = true := by
  cases rules with
  | none => rfl
  | some cidrs =>
      rw [srcAllowed, if_pos]
      by_contra hno
      simp only [not_or, Nat.not_lt, not_not] at hno
      exact h ⟨hno.2, hno.1⟩

/-- An IPv4 source is looked up in the rules. -/
theorem srcAllowed_source {inner : Bytes} (h : HasIpv4Source inner) (cidrs : List Cidr) :
    srcAllowed (some cidrs) inner = cidrMatch cidrs (u32be inner 12) := by
  obtain ⟨hver, hlen⟩ := h
  rw [srcAllowed, if_neg]
  rintro (hshort | hnot)
  · omega
  · exact hnot hver

section Udp

variable (C : Crypto) (F : Features) (env : Draws) {id : Identity} {inner : Bytes}

/-- The UDP plane on a packet the filter stops. -/
theorem handleDecrypted_stopped (hdeny : srcAllowed id.allowedSrcs inner = false)
    (st : State) (i : UInt32) (src : SocketAddr) :
    Silent st (handleDecrypted C F env id st i inner src) := by
  rw [handleDecrypted]
  cases he : st.tunnels.get? i with
  | none => exact ⟨rfl, rfl, rfl, rfl, fun _ => rfl⟩
  | some e =>
      simp only [hdeny, Bool.not_false, if_true]
      split
      · exact silent_roam st i src
      · exact silent_roam st i src

/-- The UDP plane on a packet without an IPv4 source. -/
theorem handleDecrypted_silent_iff (h : ¬ HasIpv4Source inner) (st : State) (i : UInt32)
    (src : SocketAddr) :
    Silent st (handleDecrypted C F env id st i inner src) ↔
      ¬ (F.icmp = true ∧ (st.tunnels.get? i).isSome = true ∧ EchoRequestV6 inner) := by
  cases he : st.tunnels.get? i with
  | none =>
      rw [handleDecrypted, he]
      refine ⟨?_, ?_⟩
      · intro _ hboth
        cases hboth.2.1
      · intro _
        exact ⟨rfl, rfl, rfl, rfl, fun _ => rfl⟩
  | some e =>
      by_cases hne : inner = []
      · subst hne
        rw [handleDecrypted, he]
        refine ⟨?_, ?_⟩
        · rintro - ⟨-, -, hlen, -⟩
          cases hlen
        · intro _
          exact silent_roam st i src
      · rw [handleDecrypted_inert_iff C F env (notIpv4_of_no_source h) hne
          (srcAllowed_no_source h _) st i src he]
        simp

end Udp

/-! ## The relay plane -/

/-- No reply over the relay, and every server as it was. -/
structure RelaySilent (st : Derp.ServeState) (r : Derp.ServeState × List Derp.Packet) :
    Prop where
  noReply : r.2 = []
  tcp : ∀ k, (r.1.peers.get? k).map Derp.DerpPeer.tcp =
    (st.peers.get? k).map Derp.DerpPeer.tcp

theorem relaySilent_refl (st : Derp.ServeState) : RelaySilent st (st, []) :=
  ⟨rfl, fun _ => rfl⟩

section Relay

variable (C : Crypto) (F : Features) (env : Derp.FrameDraws) {inner : Bytes}

theorem handleInner_inert (h : NotIpv4 inner)
    (hno : ¬ (F.icmp = true ∧ EchoRequestV6 inner)) (p : Derp.DerpPeer) (src : Key) :
    Derp.handleInner C F env p src inner = (p, []) := by
  have hreply : (if F.icmp then echoReplyAny inner else none) = none := by
    by_cases hicmp : F.icmp = true
    · rw [if_pos hicmp]
      cases hr : echoReplyAny inner with
      | none => rfl
      | some reply =>
          have hsome : (echoReplyAny inner).isSome = true := by rw [hr]; rfl
          exact absurd ⟨hicmp, (echoReplyAny_isSome_iff h).mp hsome⟩ hno
    · rw [if_neg hicmp]
  rw [Derp.handleInner, hreply]
  simp only [serverHandle_inert h, Derp.relayAll]
  split <;> rfl

theorem handleInner_echo (h : NotIpv4 inner) (hyes : F.icmp = true ∧ EchoRequestV6 inner)
    (p : Derp.DerpPeer) (src : Key) : (Derp.handleInner C F env p src inner).2 ≠ [] := by
  obtain ⟨reply, hreply⟩ :=
    Option.isSome_iff_exists.mp ((echoReplyAny_isSome_iff h).mpr hyes.2)
  rw [Derp.handleInner, if_pos hyes.1, hreply]
  exact List.cons_ne_nil _ _

/-- The relay plane on a packet the filter stops. -/
theorem serveTransport_stopped {id : Identity}
    (hdeny : srcAllowed id.allowedSrcs inner = false)
    {st : Derp.ServeState} {k : Key} {p : Derp.DerpPeer} {pkt : Bytes}
    (hp : st.peers.get? k = some p) (hdec : p.tun.decrypt C pkt = .ok inner) :
    RelaySilent st (Derp.serveTransport C F env id st k pkt) := by
  rw [Derp.serveTransport, hp]
  simp only [hdec]
  rw [if_neg (by rw [hdeny]; exact fun h => Bool.false_ne_true h.2)]
  exact relaySilent_refl st

/-- The relay plane on a packet without an IPv4 source. -/
theorem serveTransport_silent_iff {id : Identity} (h : ¬ HasIpv4Source inner)
    {st : Derp.ServeState} {k : Key} {p : Derp.DerpPeer} {pkt : Bytes}
    (hp : st.peers.get? k = some p) (hdec : p.tun.decrypt C pkt = .ok inner) :
    RelaySilent st (Derp.serveTransport C F env id st k pkt) ↔
      ¬ (F.icmp = true ∧ EchoRequestV6 inner) := by
  rw [Derp.serveTransport, hp]
  simp only [hdec]
  by_cases hne : inner = []
  · subst hne
    rw [if_neg (fun h => h.1 rfl)]
    refine ⟨?_, ?_⟩
    · rintro - ⟨-, hlen, -⟩
      cases hlen
    · intro _
      exact relaySilent_refl st
  · have hnot : NotIpv4 inner := notIpv4_of_no_source h
    rw [if_pos ⟨hne, srcAllowed_no_source h _⟩]
    refine ⟨?_, ?_⟩
    · intro hsilent hboth
      exact handleInner_echo C F env hnot hboth p k hsilent.noReply
    · intro hno
      have hself : (st.peers.modify k fun _ => p) = st.peers := by
        apply Table.modify_eq_self
        intro p' hp'
        exact Option.some.inj (hp.symm.trans hp')
      simp only [handleInner_inert C F env hnot hno, hself]
      exact relaySilent_refl st

end Relay

section DenyAll

/-- `ping6` with an empty body: IPv6, next header 58, type 128. -/
def ping6 : Bytes :=
  [0x60, 0, 0, 0, 0, 8, 58, 64] ++ zeros 15 ++ [1] ++ zeros 15 ++ [2]
    ++ [128, 0, 0, 0, 0, 1, 0, 1]

/-- A node whose netmap admits nobody. -/
def denyAll : Identity := { zeroIdentity with allowedSrcs := some [] }

def oneTunnel : State := { State.empty with
  tunnels := Table.empty.insert 7
    ⟨zeroTunnel 1 7, .v4 (Arr.zero 4) 9, Arr.zero 32, TcpServer.new⟩ }

/-- A node that admits 100.64.0.0/10. -/
def admitsTailnet : Identity :=
  { zeroIdentity with allowedSrcs := some [(0x64400000, 0xffc00000)] }

/-- An echo request from 192.168.1.8 to 100.64.0.17, with a full header. -/
def ping4 : Bytes :=
  [0x45, 0, 0, 28, 0, 0, 0, 0, 64, 1, 0, 0, 192, 168, 1, 8, 100, 64, 0, 17]
    ++ [8, 0, 0, 0, 0, 1, 0, 1]

end DenyAll

end TailscaleRust.Proofs
