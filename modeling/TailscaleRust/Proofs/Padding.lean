import TailscaleRust.Firmware.Dataplane
import TailscaleRust.Proofs.Session

/-!
# The padding of a transport packet is never read

The receiver of a packet gets it back with up to fifteen zero bytes behind
it, and hands it to six parsers as it is. Each of them cuts at the length
the header declares, so what follows the packet makes no difference, whatever
it is. This is shown for any bytes behind a packet.

A packet needs its whole fixed header for that. The parsers ask for a length
before they read, and a shorter packet passes the test with the padding of
which it would fail it without.
-/

namespace TailscaleRust.Proofs

open TailscaleRust.Lib TailscaleRust.Core TailscaleRust.Core.Wg
open TailscaleRust.Core.Icmp TailscaleRust.Core.Outbound
open TailscaleRust.Core.Tcp (parseSegment TcpServer Segment)
open TailscaleRust.Firmware TailscaleRust.Firmware.Dataplane

/-- The length the header declares is the length of the packet. -/
def DeclaresLength (p : Bytes) : Prop :=
  (versionOf p = 4 ∧ ihlOf p ≤ totalOf p ∧ totalOf p = p.length) ∨
    (versionOf p = 6 ∧ 40 + (u16be p 4).toNat = p.length)

/-- All six handlers do with one packet what they do with the other. -/
structure HandledAlike (p q : Bytes) : Prop where
  filter : ∀ allowed, srcAllowed allowed q = srcAllowed allowed p
  echo : echoReplyAny q = echoReplyAny p
  segment : parseSegment q = parseSegment p
  server : ∀ (srv : TcpServer) iss, srv.handle q iss = srv.handle p iss
  proxy : ∀ (px : Proxy.TcpProxy) port lanFetch iss,
    px.handle port lanFetch q iss = px.handle port lanFetch p iss
  lanRequest : ∀ (px : Proxy.TcpProxy) port, px.lanRequest port q = px.lanRequest port p
  client : ∀ c : TcpClient, c.onInner q = c.onInner p
  udp : ∀ port, udpPayloadToPort q port = udpPayloadToPort p port

/-- What is taken out of the packet or made from it has no byte from behind
the first packet in it. -/
structure CutAt (p q : Bytes) : Prop where
  echo : ∀ r, echoReplyAny q = some r → r.length = p.length
  segment : ∀ s : Segment, parseSegment q = some s → s.payload <:+ p
  udp : ∀ port x, udpPayloadToPort q port = some x → x <:+ p

/-! ## Any bytes behind a packet -/

section Append

variable {p : Bytes} (r : Bytes)

theorem u16be_append_left {i : Nat} (h : i + 2 ≤ p.length) : u16be (p ++ r) i = u16be p i := by
  rw [u16be, u16be, slice_append_left h]

theorem header_append (h : 20 ≤ p.length) :
    versionOf (p ++ r) = versionOf p ∧ ihlOf (p ++ r) = ihlOf p ∧ totalOf (p ++ r) = totalOf p ∧
      byteAt (p ++ r) 9 = byteAt p 9 := by
  have hfirst : byteAt (p ++ r) 0 = byteAt p 0 := byteAt_append_left (by omega)
  refine ⟨?_, ?_, ?_, byteAt_append_left (by omega)⟩
  · rw [versionOf, versionOf, hfirst]
  · rw [ihlOf, ihlOf, hfirst]
  · rw [totalOf, totalOf, u16be_append_left r (by omega)]

theorem srcAllowed_append (h : 20 ≤ p.length) (allowed : Option (List Peers.Cidr)) :
    srcAllowed allowed (p ++ r) = srcAllowed allowed p := by
  have hlen : (p ++ r).length = p.length + r.length := List.length_append
  have hfirst : byteAt (p ++ r) 0 = byteAt p 0 := byteAt_append_left (by omega)
  have hsrc : u32be (p ++ r) 12 = u32be p 12 := by
    rw [u32be, u32be, slice_append_left (by omega)]
  have hlong : (p ++ r).length < 16 ↔ p.length < 16 := by omega
  cases allowed with
  | none => rfl
  | some cidrs => simp only [srcAllowed, hfirst, hsrc, hlong]

section V4

variable (h20 : 20 ≤ p.length) (htotal : totalOf p = p.length)

include h20 htotal

theorem echoReply_append : echoReply (p ++ r) = echoReply p := by
  obtain ⟨hver, hihl, htot, hproto⟩ := header_append r h20
  have hlen : (p ++ r).length = p.length + r.length := List.length_append
  have hshort : (p ++ r).length < 20 ↔ p.length < 20 := by omega
  have hover : totalOf p > (p ++ r).length ↔ totalOf p > p.length := by omega
  rw [echoReply, echoReply]
  simp only [hver, hihl, htot, hproto, hshort, hover,
    slice_append_left (b := r) (Nat.le_of_eq htotal)]

theorem parseSegment_append : parseSegment (p ++ r) = parseSegment p := by
  obtain ⟨hver, hihl, htot, hproto⟩ := header_append r h20
  have hlen : (p ++ r).length = p.length + r.length := List.length_append
  have hshort : (p ++ r).length < 20 ↔ p.length < 20 := by omega
  have hover : totalOf p > (p ++ r).length ↔ totalOf p > p.length := by omega
  have hips : arrAt (p ++ r) 12 4 = arrAt p 12 4 ∧ arrAt (p ++ r) 16 4 = arrAt p 16 4 := by
    have harr : ∀ i, i + 4 ≤ p.length → arrAt (p ++ r) i 4 = arrAt p i 4 := by
      intro i hi
      have hfour : (slice p i (i + 4)).length = 4 := by rw [length_slice hi]; omega
      have hp : arrAt p i 4 = ⟨slice p i (i + 4), hfour⟩ := arrAt_eq rfl
      rw [hp]
      exact arrAt_eq (slice_append_left hi)
    exact ⟨harr 12 (by omega), harr 16 (by omega)⟩
  rw [parseSegment, parseSegment]
  simp only [hver, hihl, htot, hproto, hshort, hover, hips.1, hips.2,
    slice_append_left (b := r) (Nat.le_of_eq htotal)]

theorem udpPayloadToPort_append (port : UInt16) :
    udpPayloadToPort (p ++ r) port = udpPayloadToPort p port := by
  obtain ⟨hver, hihl, htot, hproto⟩ := header_append r h20
  have hlen : (p ++ r).length = p.length + r.length := List.length_append
  have hshort : (p ++ r).length < 20 ↔ p.length < 20 := by omega
  have hover : totalOf p > (p ++ r).length ↔ totalOf p > p.length := by omega
  rw [udpPayloadToPort, udpPayloadToPort]
  simp only [hver, hihl, htot, hproto, hshort, hover,
    slice_append_left (b := r) (Nat.le_of_eq htotal)]

/-- A packet too short for its ports is no segment, even where `owns` finds
ports in the bytes behind it. -/
theorem onInner_append (c : TcpClient) : c.onInner (p ++ r) = c.onInner p := by
  obtain ⟨hver, hihl, htot, hproto⟩ := header_append r h20
  have hlen : (p ++ r).length = p.length + r.length := List.length_append
  have hshort : (p ++ r).length < 20 ↔ p.length < 20 := by omega
  have hover : totalOf p > (p ++ r).length ↔ totalOf p > p.length := by omega
  by_cases hports : p.length < ihlOf p + 4
  · have hnone : ∀ q : Bytes, ihlOf q = ihlOf p → totalOf q = totalOf p →
        c.onInner q = ([], c) := by
      intro q hq hqt
      rw [TcpClient.onInner]
      split
      · rfl
      · simp only [hq, hqt]
        rw [if_pos (.inl (by omega))]
    rw [hnone p rfl rfl, hnone (p ++ r) hihl htot]
  · have howns : c.owns (p ++ r) = c.owns p := by
      have hfits : (p ++ r).length < ihlOf p + 4 ↔ p.length < ihlOf p + 4 := by omega
      rw [TcpClient.owns, TcpClient.owns, hihl, hver, hproto,
        u16be_append_left r (show ihlOf p + 2 + 2 ≤ p.length by omega)]
      simp only [hshort, hfits]
    rw [TcpClient.onInner, TcpClient.onInner, howns]
    simp only [hihl, htot, hover, slice_append_left (b := r) (Nat.le_of_eq htotal)]

end V4

/-- An IPv6 packet concerns the echo responder only. -/
theorem echoReplyV6_append (hlen6 : 40 + (u16be p 4).toNat = p.length) :
    echoReplyV6 (p ++ r) = echoReplyV6 p := by
  have hlen : (p ++ r).length = p.length + r.length := List.length_append
  have hshort : (p ++ r).length < 40 ↔ p.length < 40 := by omega
  have hpay : u16be (p ++ r) 4 = u16be p 4 := u16be_append_left r (by omega)
  have hover : 40 + (u16be p 4).toNat > (p ++ r).length ↔
      40 + (u16be p 4).toNat > p.length := by omega
  obtain ⟨hver, -⟩ := header_append r (p := p) (by omega)
  have hnext : byteAt (p ++ r) 6 = byteAt p 6 := byteAt_append_left (by omega)
  rw [echoReplyV6, echoReplyV6]
  simp only [hver, hnext, hshort, hpay, hover, slice_append_left (b := r) (Nat.le_of_eq hlen6)]
  by_cases h8 : (u16be p 4).toNat < 8
  · simp only [h8, true_or, if_true]
  · have htype : byteAt (p ++ r) 40 = byteAt p 40 := byteAt_append_left (by omega)
    simp only [htype]

theorem handledAlike_append (hp : DeclaresLength p) (h20 : 20 ≤ p.length) :
    HandledAlike p (p ++ r) := by
  have hfirst : (p ++ r).head? = p.head? := by
    cases p with
    | nil => simp at h20
    | cons x xs => rfl
  obtain ⟨hver, -⟩ := header_append r h20
  have hhead : p.head? = some (byteAt p 0) := head?_eq_byteAt (by omega)
  rcases hp with ⟨hv, -, htotal⟩ | ⟨hv, hlen6⟩
  · have hseg := parseSegment_append r h20 htotal
    refine ⟨srcAllowed_append r h20, ?_, hseg, fun srv iss => ?_,
      fun px port lanFetch iss => ?_, fun px port => ?_, onInner_append r h20 htotal,
      udpPayloadToPort_append r h20 htotal⟩
    · rw [echoReplyAny, echoReplyAny, hfirst, hhead]
      simp only [show byteAt p 0 >>> 4 = 4 from hv, if_true]
      exact echoReply_append r h20 htotal
    · rw [TcpServer.handle, TcpServer.handle, hseg]
    · rw [Proxy.TcpProxy.handle, Proxy.TcpProxy.handle, hseg]
    · rw [Proxy.TcpProxy.lanRequest, Proxy.TcpProxy.lanRequest, hseg]
  · -- everything but the echo responder passes over what is not IPv4
    have hnot : ∀ q : Bytes, versionOf q = 6 → ¬versionOf q = 4 := by
      intro q hq h4
      rw [hq] at h4
      cases h4
    have hseg : ∀ q : Bytes, versionOf q = 6 → parseSegment q = none := fun q hq => by
      rw [parseSegment, if_pos (.inr (.inl (hnot q hq)))]
    have hudp : ∀ (q : Bytes) port, versionOf q = 6 → udpPayloadToPort q port = none :=
      fun q port hq => by rw [udpPayloadToPort, if_pos (.inr (.inl (hnot q hq)))]
    have hclient : ∀ (q : Bytes) (c : TcpClient), versionOf q = 6 → c.onInner q = ([], c) := by
      intro q c hq
      have howns : c.owns q = false := by
        rw [TcpClient.owns, if_pos (.inr (.inl (hnot q hq)))]
      rw [TcpClient.onInner, howns, if_pos (.inl rfl)]
    have hv' : versionOf (p ++ r) = 6 := hver.trans hv
    refine ⟨srcAllowed_append r h20, ?_, (hseg _ hv').trans (hseg p hv).symm,
      fun srv iss => ?_, fun px port lanFetch iss => ?_, fun px port => ?_, fun c => ?_,
      fun port => ?_⟩
    · have h6 : byteAt p 0 >>> 4 = 6 := hv
      have h4 : ¬byteAt p 0 >>> 4 = 4 := hnot p hv
      rw [echoReplyAny, echoReplyAny, hfirst, hhead]
      simp only [if_neg h4, if_pos h6]
      exact echoReplyV6_append r hlen6
    · rw [TcpServer.handle, TcpServer.handle, hseg p hv, hseg _ hv']
    · rw [Proxy.TcpProxy.handle, Proxy.TcpProxy.handle, hseg p hv, hseg _ hv']
    · rw [Proxy.TcpProxy.lanRequest, Proxy.TcpProxy.lanRequest, hseg p hv, hseg _ hv']
    · rw [hclient p c hv, hclient _ c hv']
    · rw [hudp p port hv, hudp _ port hv']

end Append

/-! ## Where the handlers cut -/

section Cut

variable {p : Bytes}

theorem slice_suffix {i j : Nat} (h : p.length ≤ j) : slice p i j <:+ p := by
  rw [slice, List.take_of_length_le (by rw [List.length_drop]; omega)]
  exact List.drop_suffix i p

theorem length_echoReply {r : Bytes} (h : echoReply p = some r) : r.length = totalOf p := by
  rw [echoReply] at h
  split at h
  · cases h
  · simp only [] at h
    split at h
    · cases h
    · next hlen =>
        split at h
        · cases h
        · split at h
          · cases h
          · cases h
            simp only [length_copyAt]
            rw [length_slice (by omega), Nat.sub_zero]

theorem length_echoReplyV6 {r : Bytes} (h : echoReplyV6 p = some r) :
    r.length = 40 + (u16be p 4).toNat := by
  rw [echoReplyV6] at h
  split at h
  · cases h
  · simp only [] at h
    split at h
    · cases h
    · next hlen =>
        split at h
        · cases h
        · cases h
          simp only [length_copyAt]
          rw [length_slice (by omega), Nat.sub_zero]

theorem DeclaresLength.total (hp : DeclaresLength p) (h4 : versionOf p = 4) :
    totalOf p = p.length := by
  rcases hp with ⟨-, -, htotal⟩ | ⟨h6, -⟩
  · exact htotal
  · rw [h6] at h4
    cases h4

theorem length_echoReplyAny (hp : DeclaresLength p) {r : Bytes} (hr : echoReplyAny p = some r) :
    r.length = p.length := by
  rw [echoReplyAny] at hr
  split at hr
  · cases hr
  · next b hb =>
      have hfirst : byteAt p 0 = b := by
        cases p with
        | nil => cases hb
        | cons y ys => exact Option.some.inj hb
      have hvb : versionOf p = b >>> 4 := by rw [versionOf, hfirst]
      rw [← hvb] at hr
      split at hr
      · next h4 => rw [length_echoReply hr, hp.total h4]
      · next h4 =>
          split at hr
          · rcases hp with ⟨hv, -⟩ | ⟨-, hlen6⟩
            · exact absurd hv h4
            · rw [length_echoReplyV6 hr, hlen6]
          · cases hr

theorem parseSegment_suffix (hp : DeclaresLength p) {s : Segment} (hs : parseSegment p = some s) :
    s.payload <:+ p := by
  rw [parseSegment] at hs
  split at hs
  · cases hs
  · next hv =>
      have htotal := hp.total (not_not.mp (not_or.mp (not_or.mp hv).2).1)
      simp only [] at hs
      split at hs
      · cases hs
      · split at hs
        · cases hs
        · cases hs
          exact (List.drop_suffix _ _).trans (slice_suffix (by omega))

theorem udpPayloadToPort_suffix (hp : DeclaresLength p) {port : UInt16} {x : Bytes}
    (hx : udpPayloadToPort p port = some x) : x <:+ p := by
  rw [udpPayloadToPort] at hx
  split at hx
  · cases hx
  · next hv =>
      have htotal := hp.total (not_not.mp (not_or.mp (not_or.mp hv).2).1)
      simp only [] at hx
      split at hx
      · cases hx
      · split at hx
        · cases hx
        · cases hx
          exact (List.drop_suffix _ _).trans (slice_suffix (by omega))

theorem cutAt_self (hp : DeclaresLength p) : CutAt p p where
  echo _ hr := length_echoReplyAny hp hr
  segment _ hs := parseSegment_suffix hp hs
  udp _ _ hx := udpPayloadToPort_suffix hp hx

theorem HandledAlike.cutAt {q : Bytes} (h : HandledAlike p q) (hcut : CutAt p p) :
    CutAt p q where
  echo r hr := hcut.echo r (h.echo ▸ hr)
  segment s hs := hcut.segment s (h.segment ▸ hs)
  udp port x hx := hcut.udp port x (h.udp port ▸ hx)

end Cut

/-! ## What the receiver gets -/

/-- A packet with its whole fixed header is handled, once it has gone through
a tunnel, as it would be without. -/
theorem padding_transparent (C : Crypto) (hC : C.Lawful) (tA tB : Tunnel)
    (hkey : tB.recvKey = tA.sendKey) (p : Bytes) (hp : DeclaresLength p) (h20 : 20 ≤ p.length) :
    ∃ q, tB.decrypt C (tA.encrypt C p).1 = .ok q ∧ Padded p q ∧ HandledAlike p q ∧
      CutAt p q := by
  obtain ⟨hdec, -⟩ := decrypt_encrypt hC (x := p) hkey
  have hpad := pad16_padded p
  refine ⟨_, hdec, hpad, ?_⟩
  obtain ⟨m, hm, -⟩ := hpad
  rw [hm]
  have halike := handledAlike_append (zeros m) hp h20
  exact ⟨halike, halike.cutAt (cutAt_self hp)⟩

/-- Four bytes that declare a header of no words and a length of four. -/
def stub : Bytes := [0x40, 0, 0, 4]

/-- A tunnel whose two directions have the same key. -/
def loopTunnel : Tunnel := ⟨Arr.zero 32, Arr.zero 32, 0, 0, 0⟩

/-- Alone it is not looked at, and padded it has a source of zeros. -/
theorem stub_handled_otherwise :
    DeclaresLength stub ∧
    ∃ q, loopTunnel.decrypt transparent (loopTunnel.encrypt transparent stub).1 = .ok q ∧
      ¬HandledAlike stub q := by
  obtain ⟨hdec, -⟩ := decrypt_encrypt transparent_lawful (t := loopTunnel) (x := stub)
    (r := loopTunnel) rfl
  refine ⟨.inl (by decide), _, hdec, fun h => ?_⟩
  have hfilter := h.filter (some [])
  revert hfilter
  decide

/-- An echo request of 28 bytes, which is padded by four. -/
def ping28 : Bytes :=
  Outbound.icmpEchoRequest ⟨[100, 64, 0, 1], rfl⟩ ⟨[100, 64, 0, 2], rfl⟩ 1 1 []

theorem padding_transparent_ping :
    ∃ q, loopTunnel.decrypt transparent (loopTunnel.encrypt transparent ping28).1 = .ok q ∧
      q ≠ ping28 ∧ echoReplyAny q = echoReplyAny ping28 ∧ (echoReplyAny q).isSome = true := by
  have hlen : ping28.length = 28 := by decide
  obtain ⟨q, hdec, ⟨m, hq, hdvd, -⟩, halike, -⟩ := padding_transparent transparent
    transparent_lawful loopTunnel loopTunnel rfl ping28 (.inl (by decide)) (by omega)
  refine ⟨q, hdec, fun heq => ?_, halike.echo, ?_⟩
  · have hl := congrArg List.length (heq.symm.trans hq)
    simp only [List.length_append, length_zeros] at hl
    omega
  · rw [halike.echo]
    decide

end TailscaleRust.Proofs
