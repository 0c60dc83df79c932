import TailscaleRust.Firmware.Dataplane
import TailscaleRust.Proofs.TcpClient
import TailscaleRust.Proofs.TcpServers

/-!
# Packets whose header is too short

An IPv4 header has at least five words. The echo responder, the server and
the proxy check this and ignore a packet that declares fewer. The client and
the lookup of UDP payloads have all the other checks but not this one. They
take the transport header from where the short header claims to end, so
bytes of the IP header itself are read as ports, sequence numbers and
payload.

For these two it is said exactly which packets they act on, by the bytes
they read. The five parsers together are inert on a short header just when
the client and the lookup are.
-/

namespace TailscaleRust.Proofs

open TailscaleRust.Lib TailscaleRust.Core TailscaleRust.Core.Icmp TailscaleRust.Core.Outbound
open TailscaleRust.Core.Tcp (fin syn protoTcp parseSegment TcpServer)
open TailscaleRust.Firmware TailscaleRust.Firmware.Dataplane

/-! ## The parsers that check -/

section Checked

variable {inner : Bytes} (h : ihlOf inner < 20)

include h

theorem parseSegment_short : parseSegment inner = none := by
  rw [parseSegment]
  split
  · rfl
  · exact if_pos (.inl h)

theorem echoReply_short : echoReply inner = none := by
  rw [echoReply]
  split
  · rfl
  · exact if_pos (.inl h)

theorem server_short (server : TcpServer) (iss : UInt32) :
    server.handle inner iss = ([], server) := by
  rw [TcpServer.handle, parseSegment_short h]

theorem proxy_short (listenPort : UInt16) (lanFetch : Bytes → Bytes) (proxy : Proxy.TcpProxy)
    (iss : UInt32) :
    proxy.handle listenPort lanFetch inner iss = ([], proxy) ∧
      proxy.lanRequest listenPort inner = none := by
  refine proxy_other fun s hs => ?_
  rw [parseSegment_short h] at hs
  cases hs

end Checked

/-! ## The ones that do not -/

/-- The bytes taken for the data offset of a TCP header. -/
def dataOffsetAt (inner : Bytes) : Nat := (byteAt inner (ihlOf inner + 12) >>> 4).toNat * 4

/-- The byte taken for the TCP flags. -/
def flagsAt (inner : Bytes) : UInt8 := byteAt inner (ihlOf inner + 13)

/-- The packet is long enough, its bytes are taken for a TCP header with our
port in it, and the lengths agree. -/
def Readable (c : TcpClient) (inner : Bytes) : Prop :=
  20 ≤ inner.length ∧ byteAt inner 9 = protoTcp ∧ u16be inner (ihlOf inner + 2) = c.sport ∧
    ihlOf inner + 20 ≤ totalOf inner ∧ totalOf inner ≤ inner.length ∧
    20 ≤ dataOffsetAt inner ∧ ihlOf inner + dataOffsetAt inner ≤ totalOf inner

/-- What an open client answers: the first SYN-ACK, data, a FIN. -/
def Answered (c : TcpClient) (flags : UInt8) (hasData : Prop) : Prop :=
  (flags &&& syn ≠ 0 ∧ flags &&& Tcp.ack ≠ 0 ∧ c.established = false) ∨ hasData ∨
    flags &&& fin ≠ 0

/-- The client acts on the packet. -/
def ClientTakes (c : TcpClient) (inner : Bytes) : Prop :=
  Readable c inner ∧ c.done = false ∧
    Answered c (flagsAt inner) (ihlOf inner + dataOffsetAt inner < totalOf inner)

/-- The lookup finds a payload in the packet. -/
def UdpTakes (port : UInt16) (inner : Bytes) : Prop :=
  20 ≤ inner.length ∧ byteAt inner 9 = protoUdp ∧ u16be inner (ihlOf inner + 2) = port ∧
    ihlOf inner + 8 ≤ totalOf inner ∧ totalOf inner ≤ inner.length

section Client

variable {c : TcpClient} {inner : Bytes}

theorem u16be_slice {b : Bytes} {i j k : Nat} (h : i + (k + 2) ≤ j) :
    u16be (slice b i j) k = u16be b (i + k) := by
  rw [u16be, u16be, slice_slice h, Nat.add_assoc]

theorem owns_iff (hv : versionOf inner = 4) : c.owns inner = true ↔
    20 ≤ inner.length ∧ byteAt inner 9 = protoTcp ∧ ihlOf inner + 4 ≤ inner.length ∧
      u16be inner (ihlOf inner + 2) = c.sport := by
  rw [TcpClient.owns]
  split
  · next hno =>
      simp only [hv, ne_eq, not_true, false_or] at hno
      simp only [Bool.false_eq_true, false_iff]
      rintro ⟨hlen, hproto, -, -⟩
      rcases hno with hshort | hother
      · omega
      · exact hother hproto
  · next hhead =>
      simp only [hv, ne_eq, not_true, false_or, not_or, Nat.not_lt, not_not] at hhead
      split
      · next hshort =>
          simp only [Bool.false_eq_true, false_iff]
          rintro ⟨-, -, hlen, -⟩
          omega
      · next hlen =>
          rw [decide_eq_true_eq]
          exact ⟨fun hport => ⟨hhead.1, hhead.2, by omega, hport⟩, fun h => h.2.2.2⟩

theorem hears_of_readable (hv : versionOf inner = 4) (h : Readable c inner) :
    ∃ x, hears c inner = some x ∧ x.flags = flagsAt inner ∧
      x.payload.length = totalOf inner - (ihlOf inner + dataOffsetAt inner) := by
  obtain ⟨hlen, hproto, hport, hroom, hfits, hlow, hhigh⟩ := h
  have howns : c.owns inner = true := (owns_iff hv).mpr ⟨hlen, hproto, by omega, hport⟩
  have hoff : (byteAt (slice inner (ihlOf inner) (totalOf inner)) 12 >>> 4).toNat * 4 =
      dataOffsetAt inner := by
    rw [byteAt_slice (by omega), dataOffsetAt]
  have htcp : (slice inner (ihlOf inner) (totalOf inner)).length =
      totalOf inner - ihlOf inner := length_slice hfits
  rw [hears, howns, if_neg (by decide)]
  simp only []
  rw [if_neg (by omega), hoff, if_neg (by omega)]
  refine ⟨_, rfl, byteAt_slice (by omega), ?_⟩
  rw [List.length_drop, htcp]
  omega

theorem readable_of_hears (hv : versionOf inner = 4) {x : Heard} (h : hears c inner = some x) :
    Readable c inner := by
  rw [hears] at h
  split at h
  · cases h
  · next howns =>
      rw [Bool.not_eq_true, Bool.not_eq_false', owns_iff hv] at howns
      obtain ⟨hlen, hproto, -, hport⟩ := howns
      simp only [] at h
      split at h
      · cases h
      · next hlens =>
          rw [byteAt_slice (by omega), ← dataOffsetAt, length_slice (by omega)] at h
          split at h
          · cases h
          · exact ⟨hlen, hproto, hport, by omega, by omega, by omega, by omega⟩

/-- The client leaves a segment without an answer exactly if it is closed or
there is nothing to answer; then it also stays as it is. -/
theorem reactsTo_inert_iff (x : Heard) :
    reactsTo c x = ([], c) ↔ ¬(c.done = false ∧ Answered c x.flags (x.payload ≠ [])) := by
  rw [reactsTo, Answered]
  split
  · next hdone => simp [hdone]
  · next hopen =>
      rw [Bool.not_eq_true] at hopen
      split
      · next hsyn =>
          have hest : c.established = false := by simpa using hsyn.2.2
          simp [hopen, hsyn.1, hsyn.2.1, hest]
      · next hsyn =>
          have hno : ¬(x.flags &&& syn ≠ 0 ∧ x.flags &&& Tcp.ack ≠ 0 ∧ c.established = false) := by
            simpa using hsyn
          -- data and FIN each put a segment out, whatever else they do
          by_cases hdata : x.payload = []
          · have hnone : c.onData x.seq x.payload = ([], c) := if_pos hdata
            rw [hnone]
            by_cases hfin : x.flags &&& fin ≠ 0
            · simp [TcpClient.onFin, hopen, hfin]
            · simp [TcpClient.onFin, hopen, hfin, hdata, hno]
          · simp [TcpClient.onData, hopen, hdata]

theorem onInner_inert_iff (hv : versionOf inner = 4) :
    c.onInner inner = ([], c) ↔ ¬ClientTakes c inner := by
  rw [onInner_eq, ClientTakes]
  by_cases hread : Readable c inner
  · obtain ⟨x, hx, hflags, hlen⟩ := hears_of_readable hv hread
    have hdata : x.payload ≠ [] ↔ ihlOf inner + dataOffsetAt inner < totalOf inner := by
      rw [ne_eq, ← List.length_eq_zero_iff, hlen]
      omega
    simp only [hx, reactsTo_inert_iff, hflags, hdata, hread, true_and]
  · cases hx : hears c inner with
    | none => simp [hread]
    | some x => exact absurd (readable_of_hears hv hx) hread

theorem udpPayloadToPort_none_iff (port : UInt16) (hv : versionOf inner = 4) :
    udpPayloadToPort inner port = none ↔ ¬UdpTakes port inner := by
  rw [udpPayloadToPort, UdpTakes]
  split
  · next hno =>
      simp only [hv, ne_eq, not_true, false_or] at hno
      simp only [true_iff]
      rintro ⟨hlen, hproto, -⟩
      rcases hno with hshort | hother
      · omega
      · exact hother hproto
  · next hhead =>
      simp only [hv, ne_eq, not_true, false_or, not_or, Nat.not_lt, not_not] at hhead
      simp only []
      split
      · next hlens =>
          simp only [true_iff]
          rintro ⟨-, -, -, hroom, hfits⟩
          omega
      · next hlens =>
          rw [u16be_slice (by omega)]
          split
          · next hport =>
              simp only [true_iff]
              rintro ⟨-, -, heq, -⟩
              exact hport heq
          · next hport =>
              simp only [reduceCtorEq, false_iff, not_not]
              exact ⟨hhead.1, hhead.2, not_not.mp hport, by omega, by omega⟩

end Client

/-! ## All of them -/

/-- Nothing comes of the packet: no reply, no request to the LAN, no payload
found, and every state as it was. -/
def Inert (server : TcpServer) (listenPort : UInt16) (lanFetch : Bytes → Bytes)
    (proxy : Proxy.TcpProxy) (c : TcpClient) (port : UInt16) (iss : UInt32) (inner : Bytes) :
    Prop :=
  echoReply inner = none ∧ server.handle inner iss = ([], server) ∧
    (proxy.handle listenPort lanFetch inner iss = ([], proxy) ∧
      proxy.lanRequest listenPort inner = none) ∧
    c.onInner inner = ([], c) ∧ udpPayloadToPort inner port = none

/-- A packet with a short header is inert, in any state, exactly if neither the
client nor the lookup takes bytes of it for a transport header. -/
theorem short_header_inert_iff (inner : Bytes) (hv : versionOf inner = 4)
    (h : ihlOf inner < 20) (server : TcpServer) (listenPort : UInt16)
    (lanFetch : Bytes → Bytes) (proxy : Proxy.TcpProxy) (c : TcpClient) (port : UInt16)
    (iss : UInt32) :
    Inert server listenPort lanFetch proxy c port iss inner ↔
      ¬ClientTakes c inner ∧ ¬UdpTakes port inner := by
  rw [Inert, onInner_inert_iff hv, udpPayloadToPort_none_iff port hv]
  refine ⟨fun hall => hall.2.2.2, fun htake => ?_⟩
  exact ⟨echoReply_short h, server_short h server iss, proxy_short h listenPort lanFetch proxy iss,
    htake⟩

section Examples

/-- A header of four words. The last two bytes of the destination, 10.0.20.234,
are taken for the port of forwarded mDNS. -/
private def shortUdp : Bytes :=
  [0x44, 0, 0, 26, 0, 0, 0, 0, 64, 17, 0, 0, 10, 0, 0, 1, 10, 0, 20, 234, 0, 0, 0, 0, 1, 2]

/-- The same with the port of a client, and behind it a SYN-ACK. -/
private def shortTcp : Bytes :=
  [0x44, 0, 0, 36, 0, 0, 0, 0, 64, 6, 0, 0, 10, 0, 0, 1, 10, 0, 156, 64, 0, 0, 0, 9, 0, 0, 0, 0,
    0x50, 0x12, 0, 0, 0, 0, 0, 0]

private def openedClient : TcpClient :=
  TcpClient.new (Arr.zero 4) (Arr.zero 4) 40000 80 (ascii "GET") 0

/-- A UDP payload is found behind a header of four words, and a client takes a
sequence number from behind one and sends its request. -/
theorem short_header_acted_on :
    (versionOf shortUdp = 4 ∧ ihlOf shortUdp < 20 ∧
      udpPayloadToPort shortUdp fwdPort = some [1, 2]) ∧
    (versionOf shortTcp = 4 ∧ ihlOf shortTcp < 20 ∧
      (openedClient.onInner shortTcp).1.length = 2 ∧
      (openedClient.onInner shortTcp).2.established = true ∧
      (openedClient.onInner shortTcp).2.rcvNxt = 10) ∧
    ¬∀ inner, versionOf inner = 4 → ihlOf inner < 20 →
      Inert TcpServer.new 80 id Proxy.TcpProxy.new openedClient fwdPort 0 inner := by
  have hfound : udpPayloadToPort shortUdp fwdPort = some [1, 2] := by decide
  refine ⟨⟨by decide, by decide, hfound⟩, ⟨by decide, by decide, by decide, by decide, by decide⟩,
    fun hall => ?_⟩
  have hnone := (hall shortUdp (by decide) (by decide)).2.2.2.2
  rw [hfound] at hnone
  cases hnone

/-- Cut off before the payload the packet is inert. -/
theorem short_header_inert_cut :
    (versionOf (shortUdp.take 24) = 4 ∧ ihlOf (shortUdp.take 24) < 20) ∧
      Inert TcpServer.new 80 id Proxy.TcpProxy.new openedClient fwdPort 0 (shortUdp.take 24) := by
  refine ⟨⟨by decide, by decide⟩, ?_⟩
  refine (short_header_inert_iff (shortUdp.take 24) (by decide) (by decide) TcpServer.new 80 id
    Proxy.TcpProxy.new openedClient fwdPort 0).mpr ⟨?_, ?_⟩
  · intro htakes
    exact absurd htakes.1.2.1 (by decide)
  · intro htakes
    exact absurd htakes.2.2.2.2 (by decide)

end Examples

end TailscaleRust.Proofs
