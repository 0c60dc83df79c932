import TailscaleRust.Proofs.Bridge
import TailscaleRust.Proofs.Echo
import TailscaleRust.Proofs.TcpExchange

/-!
# Built packets against a checking receiver

A receiver that trusts nothing reads the header length, the total length, the
protocol and the addresses from the packet itself and adds up what they say:
the header alone, and the rest with the pseudo-header it puts together from
the fields. The five builders write their fields and their sums at offsets of
their own; this receiver takes all five, and the parsers of the repository
read back what was put in.
-/

namespace TailscaleRust.Proofs

open TailscaleRust.Lib TailscaleRust.Lib.OnesComplement TailscaleRust.Core
open TailscaleRust.Core.Icmp (ihlOf totalOf versionOf protoIcmp echoReply)
open TailscaleRust.Core.Outbound TailscaleRust.Core.Tcp
open TailscaleRust.Firmware TailscaleRust.Firmware.Dataplane

/-! ## The receiver -/

/-- The pseudo-header that goes with a packet, from its own fields. -/
def pseudoHeaderOf (pkt : Bytes) : Bytes :=
  slice pkt 12 16 ++ slice pkt 16 20 ++ [0, byteAt pkt 9] ++
    be16 (UInt16.ofNat (totalOf pkt - ihlOf pkt))

/-- What a checking receiver asks of a packet. Only ICMP has no pseudo-header. -/
structure ChecksOut (pkt : Bytes) : Prop where
  version : versionOf pkt = 4
  ihl : 20 ≤ ihlOf pkt
  total : totalOf pkt = pkt.length
  header : Verifies (slice pkt 0 (ihlOf pkt))
  body : Verifies
    ((if byteAt pkt 9 = protoIcmp then [] else pseudoHeaderOf pkt) ++ pkt.drop (ihlOf pkt))

section Packet

variable (src dst : Ipv4Addr) (proto : UInt8) (l4 : Bytes)

/-- The header checksum verifies, whatever the header is for. -/
theorem verifies_ipv4Header (total : Nat) : Verifies (ipv4Header src dst proto total) := by
  have hassoc : ∀ sum : Bytes, [0x45, 0] ++ be16 (UInt16.ofNat total)
      ++ [0, 0, 0x40, 0, 64, proto] ++ sum ++ src.1 ++ dst.1 =
      ([0x45, 0] ++ be16 (UInt16.ofNat total) ++ [0, 0, 0x40, 0, 64, proto]) ++ sum ++
        (src.1 ++ dst.1) := by
    intro sum
    rw [List.append_assoc _ src.1 dst.1]
  simp only [ipv4Header, hassoc]
  exact verifies_finish (by simp) (by simp [src.2, dst.2])

theorem pseudoHeaderOf_ipv4Packet (h : 20 + l4.length ≤ 65535) :
    pseudoHeaderOf (ipv4Packet src dst proto l4) = pseudoHeader src dst proto l4.length := by
  obtain ⟨-, hihl, htotal, hproto, hsrc, hdst⟩ := ipv4Packet_header src dst proto l4 h
  rw [pseudoHeaderOf, hihl, htotal, hproto, hsrc, hdst, Nat.add_sub_cancel_left]
  rfl

/-- A packet checks out as soon as its body does. -/
theorem checksOut_ipv4Packet (h : 20 + l4.length ≤ 65535)
    (hbody : Verifies ((if proto = protoIcmp then [] else pseudoHeader src dst proto l4.length)
      ++ l4)) : ChecksOut (ipv4Packet src dst proto l4) := by
  obtain ⟨hversion, hihl, htotal, hproto, -, -⟩ := ipv4Packet_header src dst proto l4 h
  have hlen := length_ipv4Header src dst proto (20 + l4.length)
  have hdrop : (ipv4Packet src dst proto l4).drop 20 = l4 := List.drop_left' hlen
  refine ⟨hversion, by omega, by rw [htotal, length_ipv4Packet], ?_, ?_⟩
  · rw [hihl, ipv4Packet, slice_append_left (by omega), slice_self (by omega)]
    exact verifies_ipv4Header src dst proto _
  · rwa [hihl, hdrop, hproto, pseudoHeaderOf_ipv4Packet src dst proto l4 h]

end Packet

/-! ## The bodies -/

/-- A sum over the pseudo-header and then the segment is the sum over both
together, so the checksum in its field makes both together verify. -/
theorem verifies_pseudo {src dst : Ipv4Addr} {proto : UInt8} {a b : Bytes} {len : Nat}
    (ha : a.length % 2 = 0) (hlen : a.length + 2 + b.length ≤ 65535) :
    Verifies (pseudoHeader src dst proto len ++ (a ++ be16 (finish (sum16 (a ++ [0, 0] ++ b)
      (sum16 (pseudoHeader src dst proto len) 0))) ++ b)) := by
  have hpseudo := length_pseudoHeader src dst proto len
  have hassoc : ∀ c : Bytes, pseudoHeader src dst proto len ++ (a ++ c ++ b) =
      (pseudoHeader src dst proto len ++ a) ++ c ++ b := by
    intro c
    simp only [List.append_assoc]
  rw [← sum16_append (by rw [hpseudo]), hassoc, hassoc]
  refine verifies_finish ?_ ?_
  · rw [List.length_append, hpseudo]
    omega
  · rw [List.length_append, hpseudo]
    omega

section Bodies

variable (src dst : Ipv4Addr) (sport dport : UInt16) (seq ackNo : UInt32) (flags : UInt8)
  (payload : Bytes)

theorem verifies_tcpSegment (h : 20 + payload.length ≤ 65535) :
    Verifies (pseudoHeader src dst protoTcp (20 + payload.length) ++
      tcpSegment src dst sport dport seq ackNo flags payload) := by
  have hassoc : ∀ sum : Bytes, be16 sport ++ be16 dport ++ be32 seq ++ be32 ackNo ++ [0x50, flags]
      ++ be16 64240 ++ sum ++ [0, 0] ++ payload =
      (be16 sport ++ be16 dport ++ be32 seq ++ be32 ackNo ++ [0x50, flags] ++ be16 64240) ++ sum
        ++ ([0, 0] ++ payload) := by
    intro sum
    rw [List.append_assoc _ [0, 0] payload]
  have hbare : ((be16 sport ++ be16 dport ++ be32 seq ++ be32 ackNo ++ [0x50, flags]
      ++ be16 64240) ++ [0, 0] ++ ([0, 0] ++ payload)).length = 20 + payload.length := by
    simp
    omega
  simp only [tcpSegment, hassoc, hbare]
  refine verifies_pseudo (by simp) ?_
  simp
  omega

end Bodies

/-- A field that was zero, written behind what stands before it. -/
theorem copyAt_field {a b : Bytes} {off : Nat} (h : a.length = off) (x : UInt16) :
    copyAt (a ++ [0, 0] ++ b) off (be16 x) = a ++ be16 x ++ b := by
  subst h
  have hlen : a.length + (be16 x).length ≤ (a ++ [0, 0] ++ b).length := by
    rw [length_be16, List.length_append, List.length_append]
    exact Nat.le_add_right _ _
  have hdrop : (a ++ [0, 0] ++ b).drop (a.length + 2) = b :=
    List.drop_left' (List.length_append ..)
  rw [copyAt_eq hlen, length_be16, hdrop, List.append_assoc a [0, 0] b,
    List.take_left]

section Datagrams

variable (src dst : Ipv4Addr) (sport dport ident seq : UInt16) (payload : Bytes)

theorem checksOut_udpDatagram (h : 28 + payload.length ≤ 65535) :
    ChecksOut (udpDatagram src dst sport dport payload) := by
  have hfront : (be16 sport ++ be16 dport ++ be16 (UInt16.ofNat (8 + payload.length))).length =
      6 := by
    simp
  have hlen : ∀ c : Bytes, c.length = 2 → (be16 sport ++ be16 dport ++
      be16 (UInt16.ofNat (8 + payload.length)) ++ c ++ payload).length = 8 + payload.length := by
    intro c hc
    rw [List.length_append, List.length_append, hfront, hc]
  rw [udpDatagram, l4Checksum, copyAt_field hfront, hlen _ rfl]
  apply checksOut_ipv4Packet
  · rw [hlen _ (length_be16 _)]
    omega
  · rw [if_neg (by decide), hlen _ (length_be16 _)]
    exact verifies_pseudo (by rw [hfront]) (by rw [hfront]; omega)

theorem icmpEchoRequest_eq : ∃ sum, icmpEchoRequest src dst ident seq payload =
      ipv4Packet src dst protoIcmp ([8, 0] ++ be16 sum ++ (be16 ident ++ be16 seq ++ payload)) ∧
    (8 + payload.length ≤ 65535 →
      Verifies ([8, 0] ++ be16 sum ++ (be16 ident ++ be16 seq ++ payload))) := by
  have hassoc : [8, 0, 0, 0] ++ be16 ident ++ be16 seq ++ payload =
      [8, 0] ++ [0, 0] ++ (be16 ident ++ be16 seq ++ payload) := by
    simp only [List.append_assoc, List.cons_append, List.nil_append]
  refine ⟨Outbound.checksum ([8, 0] ++ [0, 0] ++ (be16 ident ++ be16 seq ++ payload)), ?_, ?_⟩
  · rw [icmpEchoRequest, hassoc, copyAt_field (show ([8, 0] : Bytes).length = 2 from rfl)]
  · intro h
    refine verifies_finish rfl ?_
    simp
    omega

theorem checksOut_icmpEchoRequest (h : 28 + payload.length ≤ 65535) :
    ChecksOut (icmpEchoRequest src dst ident seq payload) := by
  obtain ⟨sum, heq, hverifies⟩ := icmpEchoRequest_eq src dst ident seq payload
  rw [heq]
  apply checksOut_ipv4Packet
  · simp
    omega
  · rw [if_pos rfl, List.nil_append]
    exact hverifies (by omega)

/-- The bridge's parser, asked for any port, and the fields it does not
look at. -/
theorem udpDatagram_reads (h : 28 + payload.length ≤ 65535) :
    let pkt := udpDatagram src dst sport dport payload
    slice pkt 12 16 = src.1 ∧ slice pkt 16 20 = dst.1 ∧ u16be pkt 20 = sport ∧
      ∀ port, udpPayloadToPort pkt port = if port = dport then some payload else none := by
  intro pkt
  obtain ⟨sum, heq⟩ := udpDatagram_eq src dst sport dport payload
  have hlen := length_udpSegment sport dport payload sum
  obtain ⟨-, -, -, -, hsrc, hdst⟩ := ipv4Packet_header src dst protoUdp
    (udpSegment sport dport payload sum) (by omega)
  have hbody := ipv4Packet_body src dst protoUdp (udpSegment sport dport payload sum)
  have hsport : u16be pkt 20 = sport := by
    have hslice := slice_slice (b := pkt) (i := 20) (j := 28 + payload.length) (k := 0) (l := 2)
      (by omega)
    rw [show pkt = _ from heq, show 28 + payload.length = 20 + (udpSegment sport dport payload
      sum).length by omega, hbody] at hslice
    rw [show pkt = _ from heq]
    exact u16be_of_slice hslice.symm
  have hport := udpPayloadToPort_udpDatagram src dst sport dport payload h
  rw [← heq] at hsrc hdst
  exact ⟨hsrc, hdst, hsport, hport⟩

/-- What `echo_reply` makes of a request is sent back to where it came from,
with the identifier, the sequence number and the payload of the request. -/
theorem echoReply_icmpEchoRequest (h : 28 + payload.length ≤ 65535) :
    ∃ r, echoReply (icmpEchoRequest src dst ident seq payload) = some r ∧
      slice r 12 16 = dst.1 ∧ slice r 16 20 = src.1 ∧ slice r 20 22 = [0, 0] ∧
      u16be r 24 = ident ∧ u16be r 26 = seq ∧ r.drop 28 = payload := by
  obtain ⟨sum, heq, -⟩ := icmpEchoRequest_eq src dst ident seq payload
  have hlen : ([8, 0] ++ be16 sum ++ (be16 ident ++ be16 seq ++ payload)).length =
      8 + payload.length := by
    simp
    omega
  obtain ⟨hversion, hihl, htotal, hproto, hsrc, hdst⟩ := ipv4Packet_header src dst protoIcmp
    ([8, 0] ++ be16 sum ++ (be16 ident ++ be16 seq ++ payload)) (by omega)
  have hpkt := length_ipv4Packet src dst protoIcmp
    ([8, 0] ++ be16 sum ++ (be16 ident ++ be16 seq ++ payload))
  have hdrop : (ipv4Packet src dst protoIcmp
      ([8, 0] ++ be16 sum ++ (be16 ident ++ be16 seq ++ payload))).drop 20 = _ :=
    List.drop_left' (length_ipv4Header src dst protoIcmp _)
  rw [← heq] at hversion hihl htotal hproto hsrc hdst hpkt hdrop
  rw [hlen] at htotal hpkt
  generalize icmpEchoRequest src dst ident seq payload = pkt at *
  have hfour : pkt.drop 24 = be16 ident ++ be16 seq ++ payload := by
    rw [show 24 = 20 + 4 from rfl, ← List.drop_drop, hdrop]
    rfl
  have hrequest : PingRequestV4 pkt := by
    refine ⟨hversion, ?_, by omega, by omega, hproto, ?_⟩
    · rw [ihlOf] at hihl
      omega
    · rw [hihl, byteAt_eq_of_drop (b := zeros 20 ++ (8 :: _)) hdrop]
      rfl
  obtain ⟨r, hr⟩ := Option.isSome_iff_exists.mp
    (show (echoReply pkt).isSome by rw [echoReply_eq hrequest]; rfl)
  obtain ⟨hrlen, hrsrc, hrdst, htype, hothers, -, -⟩ := echoReplyV4_correct hrequest hr
  rw [hihl, htotal] at *
  have hrest : r.drop 24 = be16 ident ++ be16 seq ++ payload := by
    rw [← hfour]
    refine drop_eq_of_byteAt (by omega) ?_
    intro i hi hlt
    exact hothers i (by omega) (by omega) (by omega) (by omega)
  refine ⟨r, hr, by rw [hrsrc, hdst], by rw [hrdst, hsrc], ?_, ?_, ?_, ?_⟩
  · have hcode : byteAt r 21 = 0 := by
      have hone : pkt.drop 21 = (zeros 21 ++ (0 :: (be16 sum ++ (be16 ident ++ be16 seq ++
          payload)))).drop 21 := by
        rw [show 21 = 20 + 1 from rfl, ← List.drop_drop, hdrop]
        rfl
      rw [hothers 21 (by omega) (by omega) (by omega) (by omega), byteAt_eq_of_drop hone]
      rfl
    rw [← slice_slice_append (show 20 ≤ 21 by omega) (by omega), byteAt_eq_slice (by omega),
      byteAt_eq_slice (by omega), htype, hcode]
    rfl
  · apply u16be_of_slice
    show (r.drop 24).take 2 = be16 ident
    rw [hrest]
    rfl
  · apply u16be_of_slice
    show (r.drop (24 + 2)).take 2 = be16 seq
    rw [← List.drop_drop, hrest]
    rfl
  · rw [show 28 = 24 + 4 from rfl, ← List.drop_drop, hrest]
    rfl

end Datagrams

section Segments

variable (src dst : Ipv4Addr) (sport dport : UInt16) (seq ackNo : UInt32) (flags : UInt8)
  (payload : Bytes)

theorem checksOut_tcpPacket (h : 40 + payload.length ≤ 65535) :
    ChecksOut (tcpPacket src dst sport dport seq ackNo flags payload) := by
  have hlen := length_tcpSegment src dst sport dport seq ackNo flags payload
  rw [tcpPacket_eq]
  apply checksOut_ipv4Packet
  · omega
  · rw [if_neg (by decide), hlen]
    exact verifies_tcpSegment src dst sport dport seq ackNo flags payload (by omega)

/-- The readers of a TCP segment get these fields. -/
structure TcpReads (pkt : Bytes) : Prop where
  parsed : parseSegment pkt = some ⟨src, dst, sport, dport, seq, flags, payload⟩
  heard : ∀ c : TcpClient, c.sport = dport → hears c pkt = some ⟨seq, flags, payload⟩

theorem tcpReads_tcpPacket (h : 40 + payload.length ≤ 65535) :
    TcpReads src dst sport dport seq flags payload
      (tcpPacket src dst sport dport seq ackNo flags payload) := by
  refine ⟨parseSegment_tcpPacket h, ?_⟩
  intro c hport
  subst hport
  exact hears_tcpPacket c h

end Segments

/-- Every builder, for every content that fits a packet: the receiver's checks
hold, and the parser for it recovers the content. -/
theorem built_packets_check_out :
    (∀ src dst ident seq payload, 28 + payload.length ≤ 65535 →
      ChecksOut (icmpEchoRequest src dst ident seq payload) ∧
      ∃ r, echoReply (icmpEchoRequest src dst ident seq payload) = some r ∧
        slice r 12 16 = dst.1 ∧ slice r 16 20 = src.1 ∧ slice r 20 22 = [0, 0] ∧
        u16be r 24 = ident ∧ u16be r 26 = seq ∧ r.drop 28 = payload) ∧
    (∀ src dst sport dport payload, 28 + payload.length ≤ 65535 →
      ChecksOut (udpDatagram src dst sport dport payload) ∧
      slice (udpDatagram src dst sport dport payload) 12 16 = src.1 ∧
      slice (udpDatagram src dst sport dport payload) 16 20 = dst.1 ∧
      u16be (udpDatagram src dst sport dport payload) 20 = sport ∧
      ∀ port, udpPayloadToPort (udpDatagram src dst sport dport payload) port =
        if port = dport then some payload else none) ∧
    (∀ (c : TcpClient) flags payload, 40 + payload.length ≤ 65535 →
      ChecksOut (c.segment flags payload) ∧
      TcpReads c.src c.dst c.sport c.dport c.sndNxt flags payload (c.segment flags payload)) ∧
    (∀ (s : TcpServer) flags payload, 40 + payload.length ≤ 65535 →
      ChecksOut (s.segment flags payload) ∧
      TcpReads s.conn.ourIp s.conn.clientIp httpPort s.conn.clientPort s.conn.sndNxt flags payload
        (s.segment flags payload)) ∧
    (∀ listenPort (c : Proxy.Conn) flags payload, 40 + payload.length ≤ 65535 →
      ChecksOut (c.segment listenPort flags payload) ∧
      TcpReads c.ourIp c.clientIp listenPort c.clientPort c.sndNxt flags payload
        (c.segment listenPort flags payload)) := by
  refine ⟨?_, ?_, ?_, ?_, ?_⟩
  · intro src dst ident seq payload h
    exact ⟨checksOut_icmpEchoRequest src dst ident seq payload h,
      echoReply_icmpEchoRequest src dst ident seq payload h⟩
  · intro src dst sport dport payload h
    exact ⟨checksOut_udpDatagram src dst sport dport payload h,
      udpDatagram_reads src dst sport dport payload h⟩
  · intro c flags payload h
    rw [clientSegment_eq]
    exact ⟨checksOut_tcpPacket _ _ _ _ _ _ _ _ h, tcpReads_tcpPacket _ _ _ _ _ _ _ _ h⟩
  · intro s flags payload h
    exact ⟨checksOut_tcpPacket _ _ _ _ _ _ _ _ h, tcpReads_tcpPacket _ _ _ _ _ _ _ _ h⟩
  · intro listenPort c flags payload h
    exact ⟨checksOut_tcpPacket _ _ _ _ _ _ _ _ h, tcpReads_tcpPacket _ _ _ _ _ _ _ _ h⟩

theorem built_ping_checks_out :
    28 + ([1, 2, 3] : Bytes).length ≤ 65535 ∧
    ChecksOut (icmpEchoRequest (Arr.zero 4) (Arr.zero 4) 7 1 [1, 2, 3]) ∧
    40 + ([] : Bytes).length ≤ 65535 ∧ ChecksOut (TcpServer.new.segment syn []) :=
  ⟨by decide, (built_packets_check_out.1 (Arr.zero 4) (Arr.zero 4) 7 1 [1, 2, 3] (by decide)).1,
    by decide, (built_packets_check_out.2.2.2.1 TcpServer.new syn [] (by decide)).1⟩

end TailscaleRust.Proofs
