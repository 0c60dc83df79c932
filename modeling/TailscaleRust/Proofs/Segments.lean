import TailscaleRust.Core.Outbound
import TailscaleRust.Firmware.Proxy

/-!
# The layout of a TCP segment in its packet

Client, server and proxy build their packets by three functions and read
them by two. All three write one layout, `tcpPacket`, and both readers get
back from it what was put in, as long as the packet's length fits the length
field. What a machine does with a packet is then a function of the fields
read, and is stated as one.
-/

namespace TailscaleRust.Proofs

open TailscaleRust.Lib TailscaleRust.Core TailscaleRust.Core.Icmp
open TailscaleRust.Core.Outbound TailscaleRust.Core.Tcp
open TailscaleRust.Firmware

/-! ## One layout -/

/-- A segment in an IPv4 packet, as all three machines build it. -/
def tcpPacket (src dst : Ipv4Addr) (sport dport : UInt16) (seq ackNo : UInt32) (flags : UInt8)
    (payload : Bytes) : Bytes :=
  ipv4Header src dst protoTcp (40 + payload.length)
    ++ tcpSegment src dst sport dport seq ackNo flags payload

section Layout

variable (src dst : Ipv4Addr) (sport dport : UInt16) (seq ackNo : UInt32) (flags : UInt8)
  (payload : Bytes)

theorem ipv4Header_eq (proto : UInt8) (total : Nat) :
    ∃ sum : UInt16, ipv4Header src dst proto total =
      [0x45, 0] ++ (be16 (UInt16.ofNat total) ++ ([0, 0, 0x40, 0, 64] ++ (proto ::
        (be16 sum ++ (src.1 ++ dst.1))))) := by
  have hassoc : ∀ sum : Bytes, [0x45, 0] ++ be16 (UInt16.ofNat total)
      ++ [0, 0, 0x40, 0, 64, proto] ++ sum ++ src.1 ++ dst.1 =
      [0x45, 0] ++ (be16 (UInt16.ofNat total) ++ ([0, 0, 0x40, 0, 64] ++ (proto ::
        (sum ++ (src.1 ++ dst.1))))) := by
    intro sum
    simp only [List.append_assoc, List.cons_append, List.nil_append]
  exact ⟨_, hassoc _⟩

theorem tcpSegment_eq :
    ∃ sum : UInt16, tcpSegment src dst sport dport seq ackNo flags payload =
      be16 sport ++ (be16 dport ++ (be32 seq ++ (be32 ackNo ++ (0x50 :: flags ::
        (be16 64240 ++ (be16 sum ++ ([0, 0] ++ payload))))))) := by
  have hassoc : ∀ sum : Bytes, be16 sport ++ be16 dport ++ be32 seq ++ be32 ackNo ++ [0x50, flags]
      ++ be16 64240 ++ sum ++ [0, 0] ++ payload =
      be16 sport ++ (be16 dport ++ (be32 seq ++ (be32 ackNo ++ (0x50 :: flags ::
        (be16 64240 ++ (sum ++ ([0, 0] ++ payload))))))) := by
    intro sum
    simp only [List.append_assoc, List.cons_append, List.nil_append]
  exact ⟨_, hassoc _⟩

theorem length_ipv4Header (proto : UInt8) (total : Nat) :
    (ipv4Header src dst proto total).length = 20 := by
  obtain ⟨sum, h⟩ := ipv4Header_eq src dst proto total
  simp [h, src.2, dst.2]

theorem length_tcpSegment :
    (tcpSegment src dst sport dport seq ackNo flags payload).length = 20 + payload.length := by
  obtain ⟨sum, h⟩ := tcpSegment_eq src dst sport dport seq ackNo flags payload
  simp [h]
  omega

theorem length_tcpPacket :
    (tcpPacket src dst sport dport seq ackNo flags payload).length = 40 + payload.length := by
  rw [tcpPacket, List.length_append, length_ipv4Header, length_tcpSegment]
  omega

/-- What a reader takes from the header of a packet we build. -/
theorem ipv4Packet_header (proto : UInt8) (l4 : Bytes) (h : 20 + l4.length ≤ 65535) :
    let inner := ipv4Packet src dst proto l4
    versionOf inner = 4 ∧ ihlOf inner = 20 ∧ totalOf inner = 20 + l4.length ∧
      byteAt inner 9 = proto ∧ slice inner 12 16 = src.1 ∧ slice inner 16 20 = dst.1 := by
  obtain ⟨sum, hhead⟩ := ipv4Header_eq src dst proto (20 + l4.length)
  obtain ⟨s0, s1, s2, s3, hsrc⟩ := arr4_bytes src
  obtain ⟨d0, d1, d2, d3, hdst⟩ := arr4_bytes dst
  intro inner
  -- every field of the header is a known number of bytes, so reads compute
  have hinner : inner = [0x45, 0] ++ (be16 (UInt16.ofNat (20 + l4.length)) ++
      ([0, 0, 0x40, 0, 64] ++ (proto :: (be16 sum ++ ([s0, s1, s2, s3] ++ ([d0, d1, d2, d3] ++
        l4)))))) := by
    simp only [inner, ipv4Packet, hhead, hsrc, hdst, List.append_assoc, List.cons_append]
  have htotal : u16be inner 2 = UInt16.ofNat (20 + l4.length) := by
    rw [hinner]
    exact u16be_of_slice rfl
  have hfirst : byteAt inner 0 = 0x45 := by
    rw [hinner]
    rfl
  refine ⟨?_, ?_, ?_, ?_, ?_, ?_⟩
  · rw [versionOf, hfirst]
    decide
  · rw [ihlOf, hfirst]
    decide
  · rw [totalOf, htotal]
    exact UInt16.toNat_ofNat_of_lt' (by simpa using Nat.lt_succ_of_le h)
  · rw [hinner]
    rfl
  · rw [hinner, hsrc]
    rfl
  · rw [hinner, hdst]
    rfl

theorem length_ipv4Packet (proto : UInt8) (l4 : Bytes) :
    (ipv4Packet src dst proto l4).length = 20 + l4.length := by
  rw [ipv4Packet, List.length_append, length_ipv4Header]

theorem ipv4Packet_body (proto : UInt8) (l4 : Bytes) :
    slice (ipv4Packet src dst proto l4) 20 (20 + l4.length) = l4 := by
  rw [slice, ipv4Packet, List.drop_left' (length_ipv4Header src dst proto _)]
  exact List.take_of_length_le (by omega)

theorem tcpPacket_eq : tcpPacket src dst sport dport seq ackNo flags payload =
    ipv4Packet src dst protoTcp (tcpSegment src dst sport dport seq ackNo flags payload) := by
  rw [tcpPacket, ipv4Packet, length_tcpSegment, ← Nat.add_assoc]

/-- What both readers take from the IP header. -/
theorem tcpPacket_header (h : 40 + payload.length ≤ 65535) :
    let inner := tcpPacket src dst sport dport seq ackNo flags payload
    versionOf inner = 4 ∧ ihlOf inner = 20 ∧ totalOf inner = 40 + payload.length ∧
      byteAt inner 9 = protoTcp ∧ slice inner 12 16 = src.1 ∧ slice inner 16 20 = dst.1 := by
  have hlen := length_tcpSegment src dst sport dport seq ackNo flags payload
  have hheader := ipv4Packet_header src dst protoTcp
    (tcpSegment src dst sport dport seq ackNo flags payload) (by omega)
  rw [hlen, ← Nat.add_assoc, ← tcpPacket_eq] at hheader
  exact hheader

theorem tcpPacket_body :
    slice (tcpPacket src dst sport dport seq ackNo flags payload) 20 (40 + payload.length) =
      tcpSegment src dst sport dport seq ackNo flags payload := by
  have hbody := ipv4Packet_body src dst protoTcp
    (tcpSegment src dst sport dport seq ackNo flags payload)
  rwa [← tcpPacket_eq, length_tcpSegment, ← Nat.add_assoc] at hbody

/-- What both readers take from the TCP header. -/
theorem tcpSegment_fields :
    let tcp := tcpSegment src dst sport dport seq ackNo flags payload
    u16be tcp 0 = sport ∧ u16be tcp 2 = dport ∧ u32be tcp 4 = seq ∧ u32be tcp 8 = ackNo ∧
      byteAt tcp 12 = 0x50 ∧ byteAt tcp 13 = flags ∧ tcp.drop 20 = payload := by
  obtain ⟨sum, htcp⟩ := tcpSegment_eq src dst sport dport seq ackNo flags payload
  intro tcp
  rw [show tcp = _ from htcp]
  exact ⟨u16be_of_slice rfl, u16be_of_slice rfl, u32be_of_slice rfl, u32be_of_slice rfl, rfl, rfl,
    rfl⟩

end Layout

/-! ## The two readers -/

section Readers

variable {src dst : Ipv4Addr} {sport dport : UInt16} {seq ackNo : UInt32} {flags : UInt8}
  {payload : Bytes}

theorem parseSegment_tcpPacket (h : 40 + payload.length ≤ 65535) :
    parseSegment (tcpPacket src dst sport dport seq ackNo flags payload) =
      some ⟨src, dst, sport, dport, seq, flags, payload⟩ := by
  obtain ⟨hversion, hihl, htotal, hproto, hsrc, hdst⟩ :=
    tcpPacket_header src dst sport dport seq ackNo flags payload h
  obtain ⟨hsport, hdport, hseq, -, hoff, hflags, hpayload⟩ :=
    tcpSegment_fields src dst sport dport seq ackNo flags payload
  have hlen := length_tcpPacket src dst sport dport seq ackNo flags payload
  have hbody := tcpPacket_body src dst sport dport seq ackNo flags payload
  have htcpLen := length_tcpSegment src dst sport dport seq ackNo flags payload
  have hsrcIp : arrAt (tcpPacket src dst sport dport seq ackNo flags payload) 12 4 = src :=
    arrAt_eq hsrc
  have hdstIp : arrAt (tcpPacket src dst sport dport seq ackNo flags payload) 16 4 = dst :=
    arrAt_eq hdst
  have hdataOff : ((0x50 : UInt8) >>> 4).toNat * 4 = 20 := by decide
  have hok : ¬((tcpPacket src dst sport dport seq ackNo flags payload).length < 20 ∨
      versionOf (tcpPacket src dst sport dport seq ackNo flags payload) ≠ 4 ∨
      byteAt (tcpPacket src dst sport dport seq ackNo flags payload) 9 ≠ protoTcp) := by
    rw [hversion, hproto, hlen]
    simp only [ne_eq, not_true, or_false, Nat.not_lt]
    omega
  rw [parseSegment, if_neg hok]
  simp only [hihl, htotal, hbody, hlen, hoff, hdataOff, htcpLen, hsport, hdport, hseq, hflags,
    hpayload, hsrcIp, hdstIp]
  rw [if_neg (by omega), if_neg (by omega)]

/-- The acknowledgement number of a packet. -/
def ackNumber (inner : Bytes) : UInt32 := u32be (slice inner (ihlOf inner) (totalOf inner)) 8

theorem ackNumber_tcpPacket (h : 40 + payload.length ≤ 65535) :
    ackNumber (tcpPacket src dst sport dport seq ackNo flags payload) = ackNo := by
  obtain ⟨-, hihl, htotal, -⟩ := tcpPacket_header src dst sport dport seq ackNo flags payload h
  rw [ackNumber, hihl, htotal, tcpPacket_body]
  exact (tcpSegment_fields src dst sport dport seq ackNo flags payload).2.2.2.1

end Readers

end TailscaleRust.Proofs
