import TailscaleRust.Firmware.Mdns
import TailscaleRust.Proofs.Padding
import TailscaleRust.Proofs.Roaming
import TailscaleRust.Proofs.Segments
import Mathlib.Data.List.DropRight

/-!
# The mDNS bridge

What crosses the bridge is what a host said: a payload is captured whole,
goes through the UDP builder, the padding of the tunnel and the UDP parser,
and comes out as it was. It does not come back, because a reflector hears
its own multicast under its own address. The invariant of a run follows a
payload through its stations: the channel to the data plane, the datagrams on
their way, the channel from the data plane, the other LAN. At each of them
there is nothing that was not captured from a host on the side it came from.
-/

namespace TailscaleRust.Proofs

open TailscaleRust.Lib TailscaleRust.Lib.Pairing TailscaleRust.Core TailscaleRust.Core.Wg
open TailscaleRust.Core.Icmp (ihlOf totalOf versionOf)
open TailscaleRust.Core.Outbound
open TailscaleRust.Firmware TailscaleRust.Firmware.Dataplane
open TailscaleRust.Firmware.Mdns

/-! ## Through the tunnel and out -/

section Codec

variable (src dst : Ipv4Addr) (sport dport : UInt16) (payload : Bytes)

/-- A UDP header and its payload. -/
def udpSegment (sum : UInt16) : Bytes :=
  be16 sport ++ (be16 dport ++ (be16 (UInt16.ofNat (8 + payload.length)) ++
    (be16 sum ++ payload)))

theorem udpDatagram_eq : ∃ sum, udpDatagram src dst sport dport payload =
    ipv4Packet src dst protoUdp (udpSegment sport dport payload sum) := by
  refine ⟨l4Checksum src dst protoUdp (be16 sport ++ be16 dport ++
    be16 (UInt16.ofNat (8 + payload.length)) ++ [0, 0] ++ payload), ?_⟩
  rw [udpDatagram]
  congr 1
  rw [copyAt_eq]
  · rfl
  · simp only [List.length_append, length_be16, List.length_cons, List.length_nil]
    omega

theorem length_udpSegment (sum : UInt16) :
    (udpSegment sport dport payload sum).length = 8 + payload.length := by
  simp only [udpSegment, List.length_append, length_be16]
  omega

/-- What `mdns_drain` puts in, `udp_payload_to_port` takes out, asked for the
right port. -/
theorem udpPayloadToPort_udpDatagram (h : 28 + payload.length ≤ 65535) (port : UInt16) :
    udpPayloadToPort (udpDatagram src dst sport dport payload) port =
      if port = dport then some payload else none := by
  obtain ⟨sum, heq⟩ := udpDatagram_eq src dst sport dport payload
  have hlen := length_udpSegment sport dport payload sum
  obtain ⟨hversion, hihl, htotal, hproto, -, -⟩ := ipv4Packet_header src dst protoUdp
    (udpSegment sport dport payload sum) (by omega)
  have hpkt := length_ipv4Packet src dst protoUdp (udpSegment sport dport payload sum)
  have hbody := ipv4Packet_body src dst protoUdp (udpSegment sport dport payload sum)
  have hport : u16be (udpSegment sport dport payload sum) 2 = dport := u16be_of_slice rfl
  rw [heq, udpPayloadToPort, if_neg]
  · simp only [hihl, htotal, hbody, hport]
    rw [if_neg (by omega)]
    by_cases hsame : port = dport
    · rw [if_neg (not_not.mpr hsame.symm), if_pos hsame]
      rfl
    · rw [if_pos (Ne.symm hsame), if_neg hsame]
  · rintro (hshort | hver | hpro)
    · omega
    · exact hver hversion
    · exact hpro hproto

theorem udpDatagram_length (h : 28 + payload.length ≤ 65535) :
    (udpDatagram src dst sport dport payload).length = 28 + payload.length ∧
    totalOf (udpDatagram src dst sport dport payload) = 28 + payload.length := by
  obtain ⟨sum, heq⟩ := udpDatagram_eq src dst sport dport payload
  have hlen := length_udpSegment sport dport payload sum
  obtain ⟨-, -, htotal, -⟩ := ipv4Packet_header src dst protoUdp
    (udpSegment sport dport payload sum) (by omega)
  rw [heq]
  exact ⟨by rw [length_ipv4Packet]; omega, by rw [htotal]; omega⟩

/-- The padding of the tunnel does not get into it. -/
theorem udpPayloadToPort_padded (h : 28 + payload.length ≤ 65535) :
    udpPayloadToPort (pad16 16 (udpDatagram src dst sport dport payload)) dport =
      some payload := by
  obtain ⟨hlen, htotal⟩ := udpDatagram_length src dst sport dport payload h
  obtain ⟨m, hpad, -⟩ := pad16_padded (udpDatagram src dst sport dport payload)
  rw [hpad, udpPayloadToPort_append (zeros m) (by omega) (by omega),
    udpPayloadToPort_udpDatagram src dst sport dport payload h, if_pos rfl]

end Codec

/-! ## The window of hashes -/

/-- The window is the end of everything that was remembered. -/
theorem remember_rtake (log : List UInt64) (h : UInt64) :
    remember (log.rtake dedupMax) h = (log ++ [h]).rtake dedupMax := by
  have hall : (log ++ [h]).length = log.length + 1 := by simp
  have hwindow : (log.rtake dedupMax).length = log.length - (log.length - dedupMax) := by
    rw [List.rtake, List.length_drop]
  rw [remember, hwindow, List.rtake, List.rtake, hall]
  split
  · next hfull =>
      have hnext : log.length + 1 - dedupMax = log.length - dedupMax + 1 := by omega
      have hle : log.length - dedupMax + 1 ≤ log.length := by
        rw [dedupMax] at hfull ⊢
        omega
      rw [List.tail_drop, hnext, List.drop_append_of_le_length hle]
  · next hroom =>
      have hnone : log.length - dedupMax = 0 := by omega
      have hnext : log.length + 1 - dedupMax = 0 := by omega
      rw [hnone, hnext, List.drop_zero, List.drop_zero]

theorem length_rtake_le (log : List UInt64) (n : Nat) : (log.rtake n).length ≤ n := by
  rw [List.rtake, List.length_drop]
  omega

/-! ## What the two ends of the tunnel do -/

/-- What is sealed under the key for the index can be opened as mDNS of the
partner. -/
def Opens (st : State) (index : UInt32) (key : Key) : Prop :=
  ∃ f, st.tunnels.get? index = some f ∧ f.tun.recvKey = key ∧ f.peerNode = st.mdnsPartner

/-- The same tunnels under the same keys, and the same partner. -/
structure SameLinks (st st' : State) : Prop where
  partner : st'.mdnsPartner = st.mdnsPartner
  tunnels : ∀ i, (st'.tunnels.get? i).map linkPart = (st.tunnels.get? i).map linkPart

theorem SameLinks.refl (st : State) : SameLinks st st := ⟨rfl, fun _ => rfl⟩

theorem Frame.sameLinks {st st' : State} (h : Frame st st') : SameLinks st st' :=
  ⟨h.partner, fun i => map_linkPart (h.tunnels i)⟩

theorem Opens.of_sameLinks {st st' : State} (h : SameLinks st st') {index : UInt32} {key : Key}
    (ho : Opens st index key) : Opens st' index key := by
  obtain ⟨f, hf, hkey, hpeer⟩ := ho
  have hi := h.tunnels index
  rw [hf] at hi
  obtain ⟨f', hf', hlink⟩ := Option.map_eq_some_iff.mp hi
  refine ⟨f', hf', ?_, ?_⟩
  · rw [← hkey]
    exact congrArg (fun l => l.1.recvKey) hlink
  · rw [h.partner, ← hpeer]
    exact congrArg (fun l => l.2) hlink

section Ends

variable (C : Crypto)

/-- `mdns_drain` sends the payloads, sealed for the partner, and nothing else. -/
theorem mdnsDrain_sends (ourIp partnerIp : Ipv4Addr) (partnerNode : Key) (payloads : List Bytes)
    (st : State) :
    (mdnsDrain C ourIp partnerIp partnerNode payloads st).1.mdnsReinject = st.mdnsReinject ∧
    ∀ d ∈ (mdnsDrain C ourIp partnerIp partnerNode payloads st).2,
      ∃ payload ∈ payloads, ∃ i e tun, st.tunnels.get? i = some e ∧ e.peerNode = partnerNode ∧
        keyPart tun = keyPart e.tun ∧
        d.bytes =
          (Tunnel.encrypt C tun (udpDatagram ourIp partnerIp fwdPort fwdPort payload)).1 := by
  induction payloads generalizing st with
  | nil => exact ⟨rfl, fun d hd => by cases hd⟩
  | cons payload rest ih =>
      rw [mdnsDrain]
      split
      · obtain ⟨hsame, hsends⟩ := ih st
        refine ⟨hsame, fun d hd => ?_⟩
        obtain ⟨p, hp, hsent⟩ := hsends d hd
        exact ⟨p, List.mem_cons_of_mem _ hp, hsent⟩
      · next i e hfind =>
          obtain ⟨he, hpeer⟩ := Table.find?_some hfind
          have hframe := sendInner_frame C st i e.addr
            [udpDatagram ourIp partnerIp fwdPort fwdPort payload]
          obtain ⟨hsame, hsends⟩ := ih (st.sendInner C i e.addr
            [udpDatagram ourIp partnerIp fwdPort fwdPort payload]).1
          refine ⟨hsame.trans ?_, fun d hd => ?_⟩
          · rw [State.sendInner, he]
          · rcases List.mem_append.mp hd with hd | hd
            · rw [State.sendInner, he] at hd
              cases List.mem_singleton.mp hd
              exact ⟨payload, List.mem_cons_self, i, e, e.tun, he, of_decide_eq_true hpeer, rfl,
                rfl⟩
            · obtain ⟨p, hp, j, e', tun, he', hpeer', hkey, hbytes⟩ := hsends d hd
              have hj := hframe.tunnels j
              rw [he'] at hj
              obtain ⟨e₀, he₀, hfix⟩ := Option.map_eq_some_iff.mp hj.symm
              refine ⟨p, List.mem_cons_of_mem _ hp, j, e₀, tun, he₀, ?_, ?_, hbytes⟩
              · rw [← hpeer']
                exact congrArg (fun e => e.peerNode) hfix
              · rw [hkey]
                exact (congrArg (fun e => e.tun) hfix).symm

/-- A packet of the partner with mDNS in it is filtered, or its payload goes
to the reflector; nothing is sent. -/
theorem handleDecrypted_mdns {F : Features} (hF : F.mdnsForward = true) (env : Draws)
    (id : Identity) {st : State} {i : UInt32} {f : TunnelEntry} (hf : st.tunnels.get? i = some f)
    (hpeer : f.peerNode = st.mdnsPartner) {inner payload : Bytes}
    (hinner : udpPayloadToPort inner fwdPort = some payload) (src : SocketAddr) :
    (handleDecrypted C F env id st i inner src).2 = [] ∧
    SameLinks st (handleDecrypted C F env id st i inner src).1 ∧
    ((handleDecrypted C F env id st i inner src).1.mdnsReinject = st.mdnsReinject ∨
      (handleDecrypted C F env id st i inner src).1.mdnsReinject =
        st.mdnsReinject.map fun q => q ++ [payload]) := by
  have hget : (st.tunnels.modify i fun e => { e with addr := src }).get? i =
      some { f with addr := src } := by
    rw [Table.get?_modify, if_pos rfl, hf]
    rfl
  have hlinks : SameLinks st (handleDecrypted C F env id st i inner src).1 :=
    ⟨(handleDecrypted_frame C F env id st i inner src hf).partner,
      (handleDecrypted_steady C F env id st i inner src).tunnels⟩
  have hmdns : mdnsInput F { st with
        tunnels := st.tunnels.modify i fun e => { e with addr := src } } i inner =
      some { st with
        tunnels := st.tunnels.modify i fun e => { e with addr := src }
        mdnsReinject := st.mdnsReinject.map fun q => q ++ [payload] } := by
    rw [mdnsInput, if_pos ⟨hF, by rw [hget, Option.map_some, hpeer]⟩, hinner]
  refine ⟨?_, hlinks, ?_⟩
  · simp only [handleDecrypted, hf]
    split
    · rfl
    · split
      · rfl
      · rw [serviceInput, hmdns]
  · simp only [handleDecrypted, hf]
    split
    · exact .inl rfl
    · split
      · exact .inl rfl
      · rw [serviceInput, hmdns]
        exact .inr rfl

end Ends

/-- A datagram the partner sealed arrives, at either entry. -/
theorem step_arrival {H : Host} (hC : H.crypto.Lawful) (hF : H.features.mdnsForward = true)
    {s : NodeState} {tun : Tunnel} (ho : Opens s.st tun.theirIndex tun.sendKey)
    (ip partnerIp : Ipv4Addr) {payload : Bytes} (hlen : payload.length ≤ bufLen)
    (dualcore : Bool) (tick : UInt32) (src : SocketAddr) (env : Draws) :
    let r := H.step s (Bridge.arrival dualcore tick
      (Tunnel.encrypt H.crypto tun (udpDatagram ip partnerIp fwdPort fwdPort payload)).1 src env)
    r.2 = [] ∧ SameLinks s.st r.1.st ∧
    (r.1.st.mdnsReinject = s.st.mdnsReinject ∨
      r.1.st.mdnsReinject = s.st.mdnsReinject.map fun q => q ++ [payload]) := by
  obtain ⟨f, hf, hkey, hpeer⟩ := ho
  -- what is in the datagram, and what it is opened to
  let inner := udpDatagram ip partnerIp fwdPort fwdPort payload
  let pkt := (Tunnel.encrypt H.crypto tun inner).1
  have hindex : u32le pkt 4 = tun.theirIndex := u32le_of_slice (encrypt_index ..)
  obtain ⟨-, hopen⟩ := decrypt_encrypt hC (t := tun) (x := inner) hkey
  have hopens : opensAt H.crypto s.st pkt = true := by
    rw [opensAt_iff, hindex]
    exact ⟨f, _, hf, hopen⟩
  obtain ⟨hhead, hlong⟩ := head_of_opensAt hopens
  have hpayload : udpPayloadToPort (pad16 16 inner) fwdPort = some payload := by
    rw [bufLen] at hlen
    exact udpPayloadToPort_padded ip partnerIp fwdPort fwdPort payload (by omega)
  have htransport : handleWgTransport H.crypto H.features env H.identity s.st pkt src =
      handleDecrypted H.crypto H.features env H.identity s.st tun.theirIndex (pad16 16 inner)
        src := by
    rw [handleWgTransport_eq H.crypto H.features env H.identity s.st pkt src (by omega), hindex,
      hf, Option.bind_some]
    simp only [pkt, hopen]
  have hspec := handleDecrypted_mdns H.crypto hF env H.identity hf hpeer hpayload src
  rw [← htransport] at hspec
  intro r
  cases dualcore with
  | true =>
      have hstep : processPacket H.crypto H.features env H.identity s.lp.targets s.st tick pkt src =
          handleWgTransport H.crypto H.features env H.identity s.st pkt src :=
        processPacket_transport H.crypto H.features env H.identity s.lp.targets s.st tick src hhead
          (by omega)
      rw [← hstep] at hspec
      exact hspec
  | false =>
      have hstep := handlePacket_transport H.crypto H.features env H.identity s.lp.targets s.st
        tick src hhead (by omega)
      split at hstep
      · -- the index spells the STUN cookie
        have hnone : H.step s (.packet tick pkt src env) = (s, []) := by
          rw [Host.step, hstep]
        have hr : r = (s, []) := hnone
        rw [hr]
        exact ⟨rfl, SameLinks.refl s.st, .inl rfl⟩
      · rw [← hstep] at hspec
        exact hspec

/-! ## The invariant -/

/-- The run captured the payload on this side, from a host. -/
def Captured (B : Bridge) (evs : List Event) (x : Side) (payload : Bytes) : Prop :=
  ∃ m, Event.capture x m ∈ evs ∧ m.payload = payload ∧ m.source ≠ B.lanIp x ∧ m.ours = false ∧
    payload.length ≤ bufLen

/-- A payload that a host multicasts fits the socket's buffer. -/
def Fits : Event → Prop
  | .host _ _ payload => payload.length ≤ bufLen
  | _ => True

instance : DecidablePred Fits
  | .host _ _ payload => inferInstanceAs (Decidable (payload.length ≤ bufLen))
  | .capture .. => .isTrue trivial
  | .forward .. => .isTrue trivial
  | .deliver .. => .isTrue trivial
  | .reinject _ => .isTrue trivial

/-- One side: what is on its channels and on its LAN, and what it remembers. -/
structure SideOk (B : Bridge) (evs : List Event) (x : Side) (r : Reflector) : Prop where
  fwd : ∀ p ∈ r.fwd, Captured B evs x p
  reinject : ∀ q, r.node.st.mdnsReinject = some q → ∀ p ∈ q, Captured B evs x.other p
  ours : ∀ m ∈ r.air, m.ours = true → m.source = B.lanIp x ∧ Captured B evs x.other m.payload
  hosts : ∀ m ∈ r.air, m.ours = false → m.payload.length ≤ bufLen
  seen : r.seen = (r.handled.map Mdns.hash).rtake dedupMax

/-- A datagram that carries a captured payload to where it can be opened. -/
def Bears (B : Bridge) (evs : List Event) (x : Side) (other : State) (pkt : Bytes) : Prop :=
  ∃ payload tun, Captured B evs x payload ∧ Opens other tun.theirIndex tun.sendKey ∧
    pkt = (Tunnel.encrypt B.crypto tun
      (udpDatagram (B.ip x) (B.ip x.other) fwdPort fwdPort payload)).1

structure BridgeOk (B : Bridge) (evs : List Event) (w : Side → Reflector) : Prop where
  matching : B.Matching w
  side : ∀ x, SideOk B evs x (w x)
  wire : ∀ x, ∀ pkt ∈ (w x).wire, Bears B evs x (w x.other).node.st pkt

section Invariant

variable {B : Bridge} {evs : List Event} {w : Side → Reflector} {x : Side}

theorem Captured.append {payload : Bytes} (h : Captured B evs x payload) (ev : Event) :
    Captured B (evs ++ [ev]) x payload := by
  obtain ⟨m, hm, hrest⟩ := h
  exact ⟨m, List.mem_append_left _ hm, hrest⟩

theorem SideOk.append {r : Reflector} (h : SideOk B evs x r) (ev : Event) :
    SideOk B (evs ++ [ev]) x r where
  fwd p hp := (h.fwd p hp).append ev
  reinject q hq p hp := (h.reinject q hq p hp).append ev
  ours m hm ho := ⟨(h.ours m hm ho).1, (h.ours m hm ho).2.append ev⟩
  hosts := h.hosts
  seen := h.seen

theorem Bears.append {st st' : State} {pkt : Bytes} (h : Bears B evs x st pkt)
    (hlinks : SameLinks st st') (ev : Event) : Bears B (evs ++ [ev]) x st' pkt := by
  obtain ⟨payload, tun, hcap, ho, hpkt⟩ := h
  exact ⟨payload, tun, hcap.append ev, ho.of_sameLinks hlinks, hpkt⟩

/-- A step changes one side. It keeps the invariant if it keeps the links, if
that side is well, and if what it adds to the wire bears a payload. -/
theorem BridgeOk.update (h : BridgeOk B evs w) (ev : Event) {r : Reflector}
    (hlinks : SameLinks (w x).node.st r.node.st) (hside : SideOk B (evs ++ [ev]) x r)
    (hwire : ∀ pkt ∈ r.wire, pkt ∈ (w x).wire ∨ Bears B (evs ++ [ev]) x (w x.other).node.st pkt) :
    BridgeOk B (evs ++ [ev]) (Function.update w x r) := by
  have hnode : ∀ y, SameLinks (w y).node.st (Function.update w x r y).node.st := by
    intro y
    by_cases hy : y = x
    · subst hy
      rw [Function.update_self]
      exact hlinks
    · rw [Function.update_of_ne hy]
      exact SameLinks.refl _
  constructor
  case matching =>
    intro y i e' he' hpeer
    obtain ⟨e, he, hlink⟩ := get?_of_linkPart (hnode y).tunnels he'
    have hpeer' : e.peerNode = e'.peerNode := congrArg (fun l => l.2) hlink.symm
    have hindex : e'.tun.theirIndex = e.tun.theirIndex := congrArg (fun l => l.1.theirIndex) hlink
    have hkey : e'.tun.sendKey = e.tun.sendKey := congrArg (fun l => l.1.sendKey) hlink
    have ho : Opens (w y.other).node.st e.tun.theirIndex e.tun.sendKey :=
      h.matching y i e he (hpeer'.trans hpeer)
    rw [hindex, hkey]
    exact ho.of_sameLinks (hnode y.other)
  case side =>
    intro y
    by_cases hy : y = x
    · subst hy
      rw [Function.update_self]
      exact hside
    · rw [Function.update_of_ne hy]
      exact (h.side y).append ev
  case wire =>
    intro y pkt hpkt
    by_cases hy : y = x
    · subst hy
      rw [Function.update_self] at hpkt
      rw [Function.update_of_ne (Side.other_ne y)]
      rcases hwire pkt hpkt with hold | hnew
      · exact (h.wire y pkt hold).append (SameLinks.refl _) ev
      · exact hnew
    · rw [Function.update_of_ne hy] at hpkt
      exact (h.wire y pkt hpkt).append (hnode y.other) ev

/-! ## One step -/

theorem bridgeOk_host (h : BridgeOk B evs w) {source : Ipv4Addr} {payload : Bytes}
    (hfits : payload.length ≤ bufLen) :
    BridgeOk B (evs ++ [.host x source payload]) (Function.update w x
      { w x with air := (w x).air ++ [⟨source, payload, false⟩] }) := by
  have hx := (h.side x).append (.host x source payload)
  refine h.update _ (SameLinks.refl _) ?_ fun pkt hpkt => .inl hpkt
  constructor
  case fwd => exact hx.fwd
  case reinject => exact hx.reinject
  case ours =>
    intro m hm ho
    rcases List.mem_append.mp hm with hm | hm
    · exact hx.ours m hm ho
    · rw [List.mem_singleton.mp hm] at ho
      cases ho
  case hosts =>
    intro m hm ho
    rcases List.mem_append.mp hm with hm | hm
    · exact hx.hosts m hm ho
    · rw [List.mem_singleton.mp hm]
      exact hfits
  case seen => exact hx.seen

/-- Capture: what was heard, if it is not the reflector's own and not in the
window, goes on whole. -/
theorem bridgeOk_capture (h : BridgeOk B evs w) {m : Multicast} (hm : m ∈ (w x).air) :
    BridgeOk B (evs ++ [.capture x m]) (Function.update w x (B.hears x (w x) m)) := by
  have hx := (h.side x).append (.capture x m)
  refine h.update _ (SameLinks.refl _) ?_ fun pkt hpkt => .inl hpkt
  by_cases hsource : m.source = B.lanIp x
  · have hnone : B.hears x (w x) m = w x := by
      simp [Bridge.hears, Mdns.capture, hsource]
    rw [hnone]
    exact hx
  · by_cases hseen : Mdns.hash (m.payload.take bufLen) ∈ (w x).seen
    · have hnone : B.hears x (w x) m = w x := by
        simp [Bridge.hears, Mdns.capture, hsource, hseen]
      rw [hnone]
      exact hx
    · have hhears : B.hears x (w x) m = { w x with
          seen := remember (w x).seen (Mdns.hash (m.payload.take bufLen))
          fwd := (w x).fwd ++ [m.payload.take bufLen]
          handled := (w x).handled ++ [m.payload.take bufLen] } := by
        simp [Bridge.hears, Mdns.capture, hsource, hseen]
      -- the multicast is a host's, so it was read whole
      have hhost : m.ours = false := by
        rw [← Bool.not_eq_true]
        exact fun ho => hsource (hx.ours m hm ho).1
      have hfits := hx.hosts m hm hhost
      rw [List.take_of_length_le hfits] at hhears
      rw [hhears]
      constructor
      case fwd =>
        intro p hp
        rcases List.mem_append.mp hp with hp | hp
        · exact hx.fwd p hp
        · rw [List.mem_singleton.mp hp]
          exact ⟨m, List.mem_append_right _ (List.mem_singleton_self _), rfl, hsource, hhost,
            hfits⟩
      case reinject => exact hx.reinject
      case ours => exact hx.ours
      case hosts => exact hx.hosts
      case seen =>
        rw [hx.seen, remember_rtake, List.map_append]
        rfl

/-- `mdns_drain`: the payloads leave the channel for the wire, sealed under a
tunnel that the partner can open. -/
theorem bridgeOk_forward (h : BridgeOk B evs w) (n : Nat) :
    BridgeOk B (evs ++ [.forward x n]) (Function.update w x
      { B.nodeStep x (w x) (.drain ((w x).fwd.take n)) with fwd := (w x).fwd.drop n }) := by
  have hx := (h.side x).append (.forward x n)
  obtain ⟨hsame, hsends⟩ := mdnsDrain_sends B.crypto (B.ip x) (B.ip x.other)
    (B.ident x.other).nodePub ((w x).fwd.take n) (w x).node.st
  refine h.update _ (mdnsDrain_frame B.crypto (B.ip x) (B.ip x.other) (B.ident x.other).nodePub
    ((w x).fwd.take n) (w x).node.st).sameLinks ?_ ?_
  · constructor
    case fwd => exact fun p hp => hx.fwd p (List.mem_of_mem_drop hp)
    case reinject => exact fun q hq => hx.reinject q (hsame.symm.trans hq)
    case ours => exact hx.ours
    case hosts => exact hx.hosts
    case seen => exact hx.seen
  · intro pkt hpkt
    rcases List.mem_append.mp hpkt with hold | hnew
    · exact .inl hold
    · obtain ⟨d, hd, rfl⟩ := List.mem_map.mp hnew
      obtain ⟨payload, hp, i, e, tun, he, hpeer, hkey, hbytes⟩ := hsends d hd
      refine .inr ⟨payload, tun, hx.fwd payload (List.mem_of_mem_take hp), ?_, hbytes⟩
      have hindex : tun.theirIndex = e.tun.theirIndex := congrArg (fun t => t.theirIndex) hkey
      have hsend : tun.sendKey = e.tun.sendKey := congrArg (fun t => t.sendKey) hkey
      rw [hindex, hsend]
      exact h.matching x i e he hpeer

/-- A datagram of the other side arrives: what was captured there is next in
line for this LAN, or nothing happens. -/
theorem bridgeOk_deliver (hC : B.crypto.Lawful) (hF : B.features.mdnsForward = true)
    (h : BridgeOk B evs w) (dualcore : Bool) (tick : UInt32) {pkt : Bytes} (src : SocketAddr)
    (env : Draws) (hpkt : pkt ∈ (w x.other).wire) :
    BridgeOk B (evs ++ [.deliver x dualcore tick pkt src env]) (Function.update w x
      (B.nodeStep x (w x) (Bridge.arrival dualcore tick pkt src env))) := by
  have hx := (h.side x).append (.deliver x dualcore tick pkt src env)
  obtain ⟨payload, tun, hcap, ho, rfl⟩ := h.wire x.other pkt hpkt
  have hfits : payload.length ≤ bufLen := by
    obtain ⟨m, -, -, -, -, hlen⟩ := hcap
    exact hlen
  rw [Side.other_other] at ho
  obtain ⟨hsilent, hlinks, hqueue⟩ := step_arrival (H := B.host x) hC hF ho (B.ip x.other)
    (B.ip x.other.other) hfits dualcore tick src env
  refine h.update _ hlinks ?_ ?_
  · constructor
    case fwd => exact hx.fwd
    case reinject =>
      intro q hq p hp
      rcases hqueue with hold | hnew
      · exact hx.reinject q (hold.symm.trans hq) p hp
      · obtain ⟨q₀, hq₀, rfl⟩ := Option.map_eq_some_iff.mp (hnew.symm.trans hq)
        rcases List.mem_append.mp hp with hp | hp
        · exact hx.reinject q₀ hq₀ p hp
        · rw [List.mem_singleton.mp hp]
          exact hcap.append _
    case ours => exact hx.ours
    case hosts => exact hx.hosts
    case seen => exact hx.seen
  · intro p hp
    have hwire := congrArg (fun out : List Datagram => (w x).wire ++ out.map Datagram.bytes) hsilent
    rw [List.map_nil, List.append_nil] at hwire
    exact .inl ((congrArg (p ∈ ·) hwire).mp hp)

theorem bridgeOk_reinject (h : BridgeOk B evs w) {payload : Bytes} {rest : List Bytes}
    (hq : (w x).node.st.mdnsReinject = some (payload :: rest)) :
    BridgeOk B (evs ++ [.reinject x]) (Function.update w x
      { w x with
        node := { (w x).node with st := { (w x).node.st with mdnsReinject := some rest } }
        seen := Mdns.reinject (w x).seen payload
        air := (w x).air ++ [⟨B.lanIp x, payload, true⟩]
        handled := (w x).handled ++ [payload] }) := by
  have hx := (h.side x).append (.reinject x)
  refine h.update _ ⟨rfl, fun _ => rfl⟩ ?_ fun pkt hpkt => .inl hpkt
  constructor
  case fwd => exact hx.fwd
  case reinject =>
    intro q heq p hp
    cases heq
    exact hx.reinject _ hq p (List.mem_cons_of_mem _ hp)
  case ours =>
    intro m hm ho
    rcases List.mem_append.mp hm with hm | hm
    · exact hx.ours m hm ho
    · rw [List.mem_singleton.mp hm]
      exact ⟨rfl, hx.reinject _ hq payload List.mem_cons_self⟩
  case hosts =>
    intro m hm ho
    rcases List.mem_append.mp hm with hm | hm
    · exact hx.hosts m hm ho
    · rw [List.mem_singleton.mp hm] at ho
      cases ho
  case seen =>
    rw [Mdns.reinject, hx.seen, remember_rtake, List.map_append]
    rfl

theorem bridgeOk_step (hC : B.crypto.Lawful) (hF : B.features.mdnsForward = true) {ev : Event}
    {w' : Side → Reflector} (h : BridgeOk B evs w) (hfits : Fits ev) (hstep : B.Steps w ev w') :
    BridgeOk B (evs ++ [ev]) w' := by
  rw [Bridge.Steps] at hstep
  cases ev with
  | host x source payload =>
      cases hstep
      exact bridgeOk_host h hfits
  | capture x m =>
      obtain ⟨hm, heq⟩ := Option.ite_none_right_eq_some.mp hstep
      cases heq
      exact bridgeOk_capture h hm
  | forward x n =>
      cases hstep
      exact bridgeOk_forward h n
  | deliver x dualcore tick pkt src env =>
      obtain ⟨hpkt, heq⟩ := Option.ite_none_right_eq_some.mp hstep
      cases heq
      exact bridgeOk_deliver hC hF h dualcore tick src env hpkt
  | reinject x =>
      rw [Bridge.step] at hstep
      split at hstep
      · next payload rest hq =>
          cases hstep
          exact bridgeOk_reinject h hq
      · cases hstep

/-! ## Whole runs -/

theorem bridgeOk_start (h : B.Start w) : BridgeOk B [] w := by
  refine ⟨h.matching, fun x => ?_, fun x pkt hpkt => ?_⟩
  · obtain ⟨hfwd, hqueue⟩ := h.channels x
    obtain ⟨hair, -⟩ := h.silent x
    obtain ⟨hseen, hhandled⟩ := h.seen x
    constructor
    case fwd =>
      intro p hp
      rw [hfwd] at hp
      cases hp
    case reinject =>
      intro q hq p hp
      rw [hqueue q hq] at hp
      cases hp
    case ours =>
      intro m hm
      rw [hair] at hm
      cases hm
    case hosts =>
      intro m hm
      rw [hair] at hm
      cases hm
    case seen =>
      rw [hseen, hhandled]
      rfl
  · rw [(h.silent x).2] at hpkt
    cases hpkt

theorem bridgeOk_run (hC : B.crypto.Lawful) (hF : B.features.mdnsForward = true)
    {w' : Side → Reflector} (hstart : B.Start w)
    (hrun : Run (Guarded (fun _ ev => Fits ev) B.Steps) w evs w') : BridgeOk B evs w' :=
  hrun.history (bridgeOk_start hstart) fun h hstep => bridgeOk_step hC hF h hstep.1 hstep.2

/-- What is on the channel to the data plane, or was put there, is not there
because the reflector multicast it; and what is in the window does not get
there. -/
theorem BridgeOk.capture_idle {w' : Side → Reflector} (h : BridgeOk B evs w) {m : Multicast}
    (hm : m.ours = true ∨ Mdns.hash m.payload ∈ (w x).seen)
    (hstep : B.Steps w (.capture x m) w') : w' = w := by
  obtain ⟨hair, heq⟩ := Option.ite_none_right_eq_some.mp hstep
  have hidle : B.hears x (w x) m = w x := by
    by_cases hsource : m.source = B.lanIp x
    · simp [Bridge.hears, Mdns.capture, hsource]
    · have hhost : m.ours = false := by
        rw [← Bool.not_eq_true]
        exact fun ho => hsource ((h.side x).ours m hair ho).1
      rw [hhost] at hm
      have hseen := hm.resolve_left Bool.false_ne_true
      have htake := List.take_of_length_le ((h.side x).hosts m hair hhost)
      simp [Bridge.hears, Mdns.capture, hsource, htake, hseen]
  rw [hidle, Function.update_eq_self] at heq
  exact (Option.some.inj heq).symm

end Invariant

/-- What is multicast on one LAN for the other was captured there, byte for
byte, from a host. Hearing it again changes nothing. The window has the
hashes of the last 64 payloads multicast or forwarded, and what is in it is
not forwarded. -/
theorem bridge_exact_loopFree (B : Bridge) (hC : B.crypto.Lawful)
    (hF : B.features.mdnsForward = true) (w w' : Side → Reflector) (evs : List Event)
    (hstart : B.Start w) (hrun : Run (Guarded (fun _ ev => Fits ev) B.Steps) w evs w')
    (x : Side) :
    (∀ m ∈ (w' x).air, m.ours = true → ∃ m', Event.capture x.other m' ∈ evs ∧
      m'.payload = m.payload ∧ m'.source ≠ B.lanIp x.other ∧ m'.ours = false) ∧
    (∀ m w'', m.ours = true → B.Steps w' (.capture x m) w'' → w'' = w') ∧
    (∀ p ∈ (w' x).fwd, ∃ m, Event.capture x m ∈ evs ∧ m.payload = p ∧ m.ours = false) ∧
    (w' x).seen = ((w' x).handled.map Mdns.hash).rtake dedupMax ∧
    (w' x).seen.length ≤ dedupMax ∧
    (∀ m w'', Mdns.hash m.payload ∈ (w' x).seen → B.Steps w' (.capture x m) w'' →
      w'' = w') := by
  have hok := bridgeOk_run hC hF hstart hrun
  have hx := hok.side x
  refine ⟨?_, fun m w'' ho => hok.capture_idle (.inl ho), ?_, hx.seen, ?_,
    fun m w'' hseen => hok.capture_idle (.inr hseen)⟩
  · intro m hm ho
    obtain ⟨m', hev, hpayload, hsource, hhost, -⟩ := (hx.ours m hm ho).2
    exact ⟨m', hev, hpayload, hsource, hhost⟩
  · intro p hp
    obtain ⟨m, hev, hpayload, -, hhost, -⟩ := hx.fwd p hp
    exact ⟨m, hev, hpayload, hhost⟩
  · rw [hx.seen]
    exact length_rtake_le _ _

section Example

def twoLans : Bridge where
  crypto := transparent
  features := defaultFeatures
  ident := duo.ident
  ip x := ⟨[100, 64, 0, sideByte x], rfl⟩
  lanIp x := ⟨[192, 168, sideByte x, 1], rfl⟩

/-- Both nodes have the tunnel to the other, and nothing else. -/
def linked (x : Side) : Reflector where
  node :=
    { st := { State.empty with
        tunnels := Table.empty.insert (sideByte x).toUInt32
          ⟨zeroTunnel (sideByte x.other).toUInt32 (sideByte x).toUInt32, duo.addr x.other,
            (duo.ident x.other).nodePub, Tcp.TcpServer.new⟩
        mdnsReinject := some []
        mdnsPartner := (duo.ident x.other).nodePub }
      lp := ⟨[], Table.empty, 0, 0, 0⟩ }
  seen := []
  fwd := []
  air := []
  wire := []
  handled := []

theorem twoLans_start : twoLans.Start linked where
  matching x i e he hpeer := by
    obtain ⟨rfl, rfl⟩ : i = (sideByte x).toUInt32 ∧ _ = e := by
      simpa [linked, Table.get?_insert] using he
    exact ⟨_, (Table.get?_insert ..).trans (if_pos rfl), rfl, rfl⟩
  channels x := ⟨rfl, fun q hq => (Option.some.inj hq).symm⟩
  silent _ := ⟨rfl, rfl⟩
  seen _ := ⟨rfl, rfl⟩

/-- A query of a host on the left. -/
def query : Multicast := ⟨⟨[192, 168, 3, 7], rfl⟩, [1, 2, 3], false⟩

/-- It crosses to the right, where the reflector hears itself. -/
def crossing : List Event :=
  [.host .left query.source query.payload, .capture .left query, .forward .left 1,
    .deliver .right false 0 (Tunnel.encrypt transparent (zeroTunnel 5 3) (udpDatagram
      (twoLans.ip .left) (twoLans.ip .right) fwdPort fwdPort query.payload)).1
      (duo.addr .left) zeroDraws,
    .reinject .right, .capture .right ⟨twoLans.lanIp .right, query.payload, true⟩]

theorem bridge_exact_loopFree_twoLans :
    ∃ w, Run (Guarded (fun _ ev => Fits ev) twoLans.Steps) linked crossing w ∧
      (w .right).air = [⟨twoLans.lanIp .right, query.payload, true⟩] ∧ (w .right).fwd = [] ∧
      ∃ m, Event.capture .left m ∈ crossing ∧ m.payload = query.payload ∧ m.ours = false := by
  have heval : ((evalRun (fun _ ev => decide (Fits ev)) twoLans.step linked crossing).map
      fun w => ((w .right).air, (w .right).fwd)) =
      some ([⟨twoLans.lanIp .right, query.payload, true⟩], []) := by
    decide +kernel
  obtain ⟨w, hw, heq⟩ := Option.map_eq_some_iff.mp heval
  obtain ⟨hair, hfwd⟩ := Prod.mk.inj heq
  have hrun : Run (Guarded (fun _ ev => Fits ev) twoLans.Steps) linked crossing w :=
    run_of_evalRun (fun _ _ h => of_decide_eq_true h) hw
  obtain ⟨hexact, -⟩ := bridge_exact_loopFree twoLans transparent_lawful rfl linked w crossing
    twoLans_start hrun .right
  obtain ⟨m, hev, hpayload, -, hhost⟩ := hexact _ (hair ▸ List.mem_singleton_self _) rfl
  exact ⟨w, hrun, hair, hfwd, m, hev, hpayload, hhost⟩

end Example

end TailscaleRust.Proofs
