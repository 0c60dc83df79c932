import TailscaleRust.Proofs.Checksums
import TailscaleRust.Proofs.Padding
import TailscaleRust.Proofs.Segments
import TailscaleRust.Proofs.TcpServers
import TailscaleRust.Strict.Packets

/-!
# The packet code does not panic

Each function of the packet code, run with its checks, is `.ok` of the total
function the other results are about. The guards differ from parser to
parser, so each has an argument of its own about what its guards leave; what
they share are the rules of `Checked` and the bound on the checksums. A sum
of 16-bit words fits 32 bits as long as there are no more words than an IP
packet has.
-/

namespace TailscaleRust.Proofs

open TailscaleRust.Lib TailscaleRust.Lib.Checked TailscaleRust.Core
open TailscaleRust.Core.Icmp (ihlOf totalOf versionOf)
open TailscaleRust.Core.Tcp TailscaleRust.Core.Outbound
open TailscaleRust.Firmware TailscaleRust.Firmware.Dataplane

/-! ## Checksums -/

/-- The word at an offset, as the loop of the total model adds it. -/
theorem u16be_toUInt32 {b : Bytes} {i : Nat} (h : i + 1 < b.length) :
    (u16be b i).toUInt32 = (byteAt b i).toUInt32 <<< 8 + (byteAt b (i + 1)).toUInt32 := by
  have hx := (byteAt b i).toNat_lt
  have hy := (byteAt b (i + 1)).toNat_lt
  have hword : beNat [byteAt b i, byteAt b (i + 1)] =
      (byteAt b (i + 1)).toNat + 256 * (byteAt b i).toNat := by
    simp [beNat, leNat]
  apply UInt32.toNat_inj.mp
  rw [u16be, slice_two h, hword]
  simp [Nat.shiftLeft_eq]
  omega

theorem sum16_le (data : Bytes) (sum : UInt32) :
    (sum16 data sum).toNat ≤ sum.toNat + (data.length + 1) * 32768 := by
  induction data, sum using sum16.induct with
  | case1 a b rest sum ih =>
      have hstep : (sum + (a.toUInt32 <<< 8) + b.toUInt32).toNat ≤ sum.toNat + 65535 := by
        have ha := a.toNat_lt
        have hb := b.toNat_lt
        simp [Nat.shiftLeft_eq]
        omega
      rw [sum16, List.length_cons, List.length_cons]
      refine Nat.le_trans ih ?_
      generalize (sum + (a.toUInt32 <<< 8) + b.toUInt32).toNat = next at hstep ⊢
      omega
  | case2 a sum =>
      have hstep : (sum + (a.toUInt32 <<< 8)).toNat ≤ sum.toNat + 65535 := by
        have ha := a.toNat_lt
        simp [Nat.shiftLeft_eq]
        omega
      rw [sum16, List.length_singleton]
      exact Nat.le_trans hstep (by omega)
  | case3 sum =>
      rw [sum16]
      omega

/-- The loop from an offset on. The bound leaves room for every word that
is still to come. -/
theorem sum16Loop_safe {data : Bytes} (hdata : data.length < 2 ^ 31) {fuel i : Nat}
    {sum : UInt32} (hfuel : data.length ≤ i + 2 * fuel) (hi : i ≤ data.length)
    (hsum : sum.toNat + (data.length - i + 1) * 32768 < 2 ^ 32) :
    Strict.sum16Loop data fuel i sum = .ok (sum16 (data.drop i) sum) := by
  induction fuel generalizing i sum with
  | zero =>
      rw [List.drop_eq_nil_of_le (by omega)]
      rfl
  | succ fuel ih =>
      rw [Strict.sum16Loop, addUsize_ok (by omega), ok_bind]
      split
      · next hword =>
          have hlt : (u16be data i).toUInt32.toNat < 65536 := by
            rw [UInt16.toNat_toUInt32]
            exact (u16be data i).toNat_lt
          have hadd : sum.toNat + (u16be data i).toUInt32.toNat < 2 ^ 32 := by
            generalize (u16be data i).toUInt32.toNat = word at hlt ⊢
            omega
          have hroom : (sum + (u16be data i).toUInt32).toNat +
              (data.length - (i + 2) + 1) * 32768 < 2 ^ 32 := by
            rw [UInt32.toNat_add, Nat.mod_eq_of_lt hadd]
            generalize (u16be data i).toUInt32.toNat = word at hlt hadd ⊢
            omega
          rw [ok_bind, u16Of_ok rfl hword, ok_bind, addU32_ok hadd, ok_bind,
            addUsize_ok (by omega), ok_bind, ih (by omega) (by omega) hroom,
            drop_eq_byteAt_cons (show i < data.length by omega), drop_eq_byteAt_cons hword, sum16,
            u16be_toUInt32 hword, UInt32.add_assoc]
      · next hword =>
          split
          · next hlast =>
              have hx := (byteAt data i).toNat_lt
              have hadd : sum.toNat + ((byteAt data i).toUInt32 <<< 8).toNat < 2 ^ 32 := by
                simp [Nat.shiftLeft_eq]
                omega
              rw [index_ok hlast, ok_bind, addU32_ok hadd, drop_eq_byteAt_cons hlast,
                List.drop_eq_nil_of_le (by omega), sum16]
          · next hend =>
              rw [List.drop_eq_nil_of_le (by omega)]
              rfl

theorem sum16_safe {data : Bytes} {sum : UInt32}
    (hsum : sum.toNat + (data.length + 1) * 32768 < 2 ^ 32) :
    Strict.sum16 data sum = .ok (sum16 data sum) := by
  rw [Strict.sum16, sum16Loop_safe (by omega) (by omega) (by omega) (by omega), List.drop_zero]

theorem foldCarries_safe (fuel : Nat) (sum : UInt32) :
    Strict.foldCarries fuel sum = .ok (foldCarries fuel sum) := by
  induction fuel generalizing sum with
  | zero => rfl
  | succ fuel ih =>
      have hlow : (sum &&& (0xffff : UInt32)).toNat ≤ 65535 := by
        rw [UInt32.toNat_and]
        exact Nat.and_le_right
      have hhigh : (sum >>> 16).toNat ≤ 65535 := by
        have hs := sum.toNat_lt
        simp [Nat.shiftRight_eq_div_pow]
        omega
      rw [Strict.foldCarries, foldCarries]
      split
      · rw [addU32_ok (by omega), ok_bind, ih, foldCarry]
      · rfl

theorem finish_safe (sum : UInt32) : Strict.finish sum = .ok (finish sum) := by
  rw [Strict.finish, foldCarries_safe, ok_bind, pure_eq, finish]

theorem checksum_safe {data : Bytes} (h : data.length ≤ 65535) :
    Strict.checksum data = .ok (Icmp.checksum data) := by
  have hsum : (0 : UInt32).toNat + (data.length + 1) * 32768 < 2 ^ 32 := by
    rw [UInt32.toNat_zero]
    omega
  rw [Strict.checksum, sum16_safe hsum, ok_bind, finish_safe, Icmp.checksum]

theorem l4Checksum_safe (src dst : Ipv4Addr) (proto : UInt8) {l4 : Bytes}
    (h : l4.length ≤ 65535) :
    Strict.l4Checksum src dst proto l4 = .ok (l4Checksum src dst proto l4) := by
  obtain ⟨s0, s1, s2, s3, hsrc⟩ := arr4_bytes src
  obtain ⟨d0, d1, d2, d3, hdst⟩ := arr4_bytes dst
  obtain ⟨n0, n1, hlen⟩ := be16_bytes (UInt16.ofNat l4.length)
  have hph := length_pseudoHeader src dst proto l4.length
  have hhead : Strict.sum16 (pseudoHeader src dst proto l4.length) 0 =
      .ok (sum16 (pseudoHeader src dst proto l4.length) 0) := by
    apply sum16_safe
    rw [hph]
    decide
  have hbound := sum16_le (pseudoHeader src dst proto l4.length) 0
  rw [hph, UInt32.toNat_zero] at hbound
  have hbody : Strict.sum16 l4 (sum16 (pseudoHeader src dst proto l4.length) 0) =
      .ok (sum16 l4 (sum16 (pseudoHeader src dst proto l4.length) 0)) := by
    apply sum16_safe
    generalize (sum16 (pseudoHeader src dst proto l4.length) 0).toNat = sum at hbound ⊢
    omega
  -- the writes put the pseudo-header together
  have hwrites : copyAt (copyAt (copyAt (copyAt (zeros 12) 0 src.1) 4 dst.1) 9 [proto]) 10
      (be16 (UInt16.ofNat l4.length)) = pseudoHeader src dst proto l4.length := by
    rw [pseudoHeader, hsrc, hdst, hlen]
    rfl
  rw [Strict.l4Checksum, copyInto_ok (by rw [src.2]) (by simp), ok_bind,
    copyInto_ok (by rw [dst.2]) (by simp), ok_bind, setAt_ok (by simp), ok_bind,
    copyInto_ok (by simp) (by simp), ok_bind, hwrites, hhead, ok_bind, hbody, ok_bind,
    finish_safe, l4Checksum]

theorem toNat_add_le (a b : UInt32) : (a + b).toNat ≤ a.toNat + b.toNat := by
  rw [UInt32.toNat_add]
  exact Nat.mod_le _ _

theorem toNat_and_le (a : UInt32) : (a &&& (0xffff : UInt32)).toNat ≤ 65535 := by
  rw [UInt32.toNat_and]
  exact Nat.and_le_right

theorem icmpv6Checksum_safe (src dst : Arr 16) {msg : Bytes} (h : msg.length ≤ 65535) :
    Strict.icmpv6Checksum src dst msg = .ok (Icmp.icmpv6Checksum src.1 dst.1 msg) := by
  have hsrc := sum16_le src.1 0
  rw [src.2, UInt32.toNat_zero] at hsrc
  have hdst := sum16_le dst.1 (sum16 src.1 0)
  rw [dst.2] at hdst
  have hhigh := toNat_and_le (UInt32.ofNat msg.length >>> 16)
  have hlow := toNat_and_le (UInt32.ofNat msg.length)
  have hhdr : Icmp.nextHdrIcmpv6.toUInt32.toNat = 58 := by decide
  have hfirst : Strict.sum16 src.1 0 = .ok (sum16 src.1 0) := by
    apply sum16_safe
    rw [src.2]
    decide
  have hsecond : Strict.sum16 dst.1 (sum16 src.1 0) = .ok (sum16 dst.1 (sum16 src.1 0)) := by
    apply sum16_safe
    rw [dst.2]
    generalize (sum16 src.1 0).toNat = n at hsrc ⊢
    omega
  -- each addition starts from a sum far below the bound
  rw [Strict.icmpv6Checksum, hfirst, ok_bind, hsecond, ok_bind]
  dsimp only
  have hsum : (sum16 dst.1 (sum16 src.1 0)).toNat ≤ 2 ^ 21 := by omega
  rw [Icmp.icmpv6Checksum]
  generalize sum16 dst.1 (sum16 src.1 0) = sum at hsum ⊢
  have hsum1 := toNat_add_le sum ((UInt32.ofNat msg.length >>> 16) &&& 0xffff)
  rw [addU32_ok (by omega), ok_bind]
  generalize sum + ((UInt32.ofNat msg.length >>> 16) &&& 0xffff) = sum1 at hsum1 ⊢
  have hsum2 := toNat_add_le sum1 (UInt32.ofNat msg.length &&& 0xffff)
  rw [addU32_ok (by omega), ok_bind]
  generalize sum1 + (UInt32.ofNat msg.length &&& 0xffff) = sum2 at hsum2 ⊢
  have hsum3 := toNat_add_le sum2 Icmp.nextHdrIcmpv6.toUInt32
  rw [addU32_ok (by omega), ok_bind, sum16_safe (by omega), ok_bind, finish_safe]

/-! ## Builders -/

theorem zeros_add (n k : Nat) : zeros (n + k) = zeros k ++ zeros n := by
  rw [Nat.add_comm]
  exact List.replicate_add k n 0

section Builders

variable (src dst : Ipv4Addr) (proto : UInt8)

/-- The writes put the header in front of what is still empty. -/
theorem fillIpv4_safe (total n : Nat) :
    Strict.fillIpv4 (zeros (n + 20)) src dst proto total =
      .ok (ipv4Header src dst proto total ++ zeros n) := by
  obtain ⟨s0, s1, s2, s3, hsrc⟩ := arr4_bytes src
  obtain ⟨d0, d1, d2, d3, hdst⟩ := arr4_bytes dst
  obtain ⟨t0, t1, htotal⟩ := be16_bytes (UInt16.ofNat total)
  let head (sum : Bytes) : Bytes :=
    [0x45, 0] ++ be16 (UInt16.ofNat total) ++ [0, 0, 0x40, 0, 64, proto] ++ sum ++ src.1 ++ dst.1
  have hwrites : copyAt (copyAt (copyAt (copyAt (copyAt (copyAt (copyAt (zeros (n + 20)) 0
      [0x45]) 2 (be16 (UInt16.ofNat total))) 6 [0x40]) 8 [64]) 9 [proto]) 12 src.1) 16 dst.1 =
      head [0, 0] ++ zeros n := by
    rw [zeros_add, copyAt_append (by simp), copyAt_append (by simp), copyAt_append (by simp),
      copyAt_append (by simp), copyAt_append (by simp), copyAt_append (by simp [src.2]),
      copyAt_append (by simp [dst.2])]
    simp only [head, hsrc, hdst, htotal]
    rfl
  have hlen : (head [0, 0]).length = 20 := by simp [head, src.2, dst.2]
  have hread : slice (head [0, 0] ++ zeros n) 0 20 = head [0, 0] := by
    rw [slice_append_left (by omega), slice_self (by omega)]
  have hsum : ∀ sum : UInt16, copyAt (head [0, 0]) 10 (be16 sum) = head (be16 sum) := by
    intro sum
    obtain ⟨c0, c1, hc⟩ := be16_bytes sum
    simp only [head, hsrc, hdst, htotal, hc]
    rfl
  rw [Strict.fillIpv4, setAt_ok (by simp), ok_bind, copyInto_ok (by simp) (by simp), ok_bind,
    setAt_ok (by simp), ok_bind, setAt_ok (by simp), ok_bind, setAt_ok (by simp), ok_bind,
    copyInto_ok (by rw [src.2]) (by simp), ok_bind, copyInto_ok (by rw [dst.2]) (by simp), ok_bind,
    hwrites, range_ok (by omega) (by rw [List.length_append]; omega), ok_bind, hread,
    checksum_safe (by omega), ok_bind, copyInto_ok (by simp) (by rw [List.length_append]; omega),
    copyAt_append (by rw [length_be16]; omega), hsum]
  rfl

theorem ipv4Packet_safe {l4 : Bytes} (h : l4.length ≤ 65535) :
    Strict.ipv4Packet src dst proto l4 = .ok (ipv4Packet src dst proto l4) := by
  have hhead := length_ipv4Header src dst proto (l4.length + 20)
  have hl4 : l4.length = (zeros l4.length).length := length_zeros.symm
  have htail := copyAt_tail (ipv4Header src dst proto (l4.length + 20)) hl4
  rw [hhead] at htail
  rw [Strict.ipv4Packet, addUsize_ok (by omega), ok_bind, Nat.add_comm 20 l4.length, fillIpv4_safe,
    ok_bind, copyInto_ok (by rw [List.length_append, hhead, length_zeros]) (Nat.le_refl _), htail,
    ipv4Packet, Nat.add_comm 20 l4.length]

variable (sport dport : UInt16) (seq ackNo : UInt32) (flags : UInt8) (payload : Bytes)

/-- A segment with the given checksum bytes. -/
def tcpBytes (sum : Bytes) : Bytes :=
  be16 sport ++ be16 dport ++ be32 seq ++ be32 ackNo ++ [0x50, flags] ++ be16 64240 ++ sum
    ++ [0, 0] ++ payload

theorem length_tcpBytes (sum : Bytes) (h : sum.length = 2) :
    (tcpBytes sport dport seq ackNo flags payload sum).length = payload.length + 20 := by
  simp [tcpBytes, h]
  omega

theorem fillTcp_safe :
    Strict.fillTcp (zeros (payload.length + 20)) sport dport seq ackNo flags payload =
      .ok (tcpBytes sport dport seq ackNo flags payload [0, 0]) := by
  obtain ⟨a0, a1, hsport⟩ := be16_bytes sport
  obtain ⟨b0, b1, hdport⟩ := be16_bytes dport
  obtain ⟨q0, q1, q2, q3, hseq⟩ := be32_bytes seq
  obtain ⟨k0, k1, k2, k3, hack⟩ := be32_bytes ackNo
  let head : Bytes := be16 sport ++ be16 dport ++ be32 seq ++ be32 ackNo ++ [0x50, flags] ++
    be16 64240 ++ [0, 0] ++ [0, 0]
  have hwrites : copyAt (copyAt (copyAt (copyAt (copyAt (copyAt (copyAt
      (zeros (payload.length + 20)) 0 (be16 sport)) 2 (be16 dport)) 4 (be32 seq)) 8 (be32 ackNo))
      12 [0x50]) 13 [flags]) 14 (be16 64240) = head ++ zeros payload.length := by
    rw [zeros_add, copyAt_append (by simp), copyAt_append (by simp), copyAt_append (by simp),
      copyAt_append (by simp), copyAt_append (by simp), copyAt_append (by simp),
      copyAt_append (by simp)]
    simp only [head, hsport, hdport, hseq, hack]
    rfl
  have hlen : head.length = 20 := by simp [head]
  have hzeros : payload.length = (zeros payload.length).length := length_zeros.symm
  have htail := copyAt_tail head hzeros
  rw [hlen] at htail
  rw [Strict.fillTcp, copyInto_ok (by simp) (by simp), ok_bind, copyInto_ok (by simp) (by simp),
    ok_bind, copyInto_ok (by simp) (by simp), ok_bind, copyInto_ok (by simp) (by simp), ok_bind,
    setAt_ok (by simp), ok_bind, setAt_ok (by simp), ok_bind, copyInto_ok (by simp) (by simp),
    ok_bind, hwrites, copyInto_ok (by rw [List.length_append, hlen, length_zeros]) (Nat.le_refl _),
    htail]
  rfl

/-- The checksum goes where two zero bytes were left. -/
theorem copyAt_tcpBytes (sum : UInt16) :
    copyAt (tcpBytes sport dport seq ackNo flags payload [0, 0]) 16 (be16 sum) =
      tcpBytes sport dport seq ackNo flags payload (be16 sum) := by
  obtain ⟨a0, a1, hsport⟩ := be16_bytes sport
  obtain ⟨b0, b1, hdport⟩ := be16_bytes dport
  obtain ⟨q0, q1, q2, q3, hseq⟩ := be32_bytes seq
  obtain ⟨k0, k1, k2, k3, hack⟩ := be32_bytes ackNo
  obtain ⟨c0, c1, hsum⟩ := be16_bytes sum
  rw [tcpBytes, tcpBytes, copyAt_append (by simp)]
  simp only [hsport, hdport, hseq, hack, hsum]
  rfl

/-- The checksum of a segment is over the segment with zeros for it. -/
theorem tcpSegment_eq_tcpBytes : tcpSegment src dst sport dport seq ackNo flags payload =
    tcpBytes sport dport seq ackNo flags payload (be16 (l4Checksum src dst protoTcp
      (tcpBytes sport dport seq ackNo flags payload [0, 0]))) := rfl

theorem connSegment_safe (h : 40 + payload.length ≤ 65535) :
    Strict.connSegment src dst sport dport seq ackNo flags payload =
      .ok (tcpPacket src dst sport dport seq ackNo flags payload) := by
  have hhead := length_ipv4Header src dst protoTcp (40 + payload.length)
  have hbare := length_tcpBytes sport dport seq ackNo flags payload [0, 0] rfl
  have htotal : 20 + (20 + payload.length) = payload.length + 20 + 20 := by omega
  have htotal' : 40 + payload.length = payload.length + 20 + 20 := by omega
  rw [htotal'] at hhead
  have hsum : ∀ sum : UInt16,
      copyAt (ipv4Header src dst protoTcp (payload.length + 20 + 20) ++
        tcpBytes sport dport seq ackNo flags payload [0, 0]) 36 (be16 sum) =
      ipv4Header src dst protoTcp (payload.length + 20 + 20) ++
        tcpBytes sport dport seq ackNo flags payload (be16 sum) := by
    intro sum
    have hright := copyAt_append_right (ipv4Header src dst protoTcp (payload.length + 20 + 20))
      (tcpBytes sport dport seq ackNo flags payload [0, 0]) 16 (be16 sum)
    rwa [hhead, copyAt_tcpBytes] at hright
  rw [Strict.connSegment, addUsize_ok (by omega), ok_bind, addUsize_ok (by omega), ok_bind, htotal,
    fillIpv4_safe, ok_bind, rangeFrom_ok (by rw [List.length_append]; omega), ok_bind,
    List.drop_append_of_le_length (by omega), List.drop_eq_nil_of_le (by omega), List.nil_append,
    fillTcp_safe, ok_bind, slice_append_left (by omega), slice_self (by omega)]
  dsimp only
  rw [rangeFrom_ok (by rw [List.length_append]; omega), ok_bind,
    List.drop_append_of_le_length (by omega), List.drop_eq_nil_of_le (by omega), List.nil_append,
    l4Checksum_safe _ _ _ (by omega), ok_bind,
    copyInto_ok (by simp) (by rw [List.length_append]; omega), hsum, tcpPacket,
    tcpSegment_eq_tcpBytes, htotal']

theorem clientSegment_safe (self : TcpClient) (h : 40 + payload.length ≤ 65535) :
    Strict.TcpClient.segment self flags payload = .ok (self.segment flags payload) := by
  have hbare := length_tcpBytes self.sport self.dport self.sndNxt self.rcvNxt flags payload
    [0, 0] rfl
  rw [Strict.TcpClient.segment, addUsize_ok (by omega), ok_bind, Nat.add_comm 20 payload.length]
  dsimp only
  rw [fillTcp_safe, ok_bind, l4Checksum_safe _ _ _ (by omega), ok_bind,
    copyInto_ok (by simp) (by omega), ok_bind, copyAt_tcpBytes,
    ipv4Packet_safe _ _ _ (by rw [length_tcpBytes _ _ _ _ _ _ _ (length_be16 _)]; omega)]
  rfl

end Builders

/-! ## Parsers -/

section Parsers

variable (inner : Bytes)

theorem ihlOf_le : ihlOf inner ≤ 60 := by
  have hand : (byteAt inner 0 &&& 0x0f).toNat ≤ 15 := by
    rw [UInt8.toNat_and]
    exact Nat.and_le_right
  rw [ihlOf]
  omega

theorem totalOf_lt : totalOf inner < 65536 := (u16be inner 2).toNat_lt

variable {inner}

theorem ihlOf_safe (h : 0 < inner.length) : Strict.ihlOf inner = .ok (ihlOf inner) := by
  have hle := ihlOf_le inner
  rw [ihlOf] at hle
  rw [Strict.ihlOf, index_ok h, ok_bind, mulUsize_ok (by omega), ihlOf]

theorem totalOf_safe (h : 4 ≤ inner.length) : Strict.totalOf inner = .ok (totalOf inner) := by
  rw [Strict.totalOf, u16Of_ok rfl (by omega), ok_bind, pure_eq, totalOf]

/-- What every parser reads of a packet that has a header. -/
theorem header_reads (h : ¬inner.length < 20) :
    index inner 0 = .ok (byteAt inner 0) ∧ index inner 9 = .ok (byteAt inner 9) ∧
      Strict.ihlOf inner = .ok (ihlOf inner) ∧ Strict.totalOf inner = .ok (totalOf inner) :=
  ⟨index_ok (by omega), index_ok (by omega), ihlOf_safe (by omega), totalOf_safe (by omega)⟩

variable (inner)

/-- The offsets just behind a header fit. -/
theorem addIhl_ok {k : Nat} (h : k ≤ 20) :
    addUsize (ihlOf inner) k = .ok (ihlOf inner + k) := by
  have hihl := ihlOf_le inner
  exact addUsize_ok (by omega)

theorem srcAllowed_safe (allowed : Option (List Peers.Cidr)) :
    Strict.srcAllowed allowed inner = .ok (srcAllowed allowed inner) := by
  cases allowed with
  | none => rfl
  | some cidrs =>
      simp only [Strict.srcAllowed, srcAllowed, ite_or]
      by_cases hlen : inner.length < 16
      · simp only [if_pos hlen]
        rfl
      · simp only [if_neg hlen]
        rw [index_ok (by omega), ok_bind]
        split
        · rfl
        · rw [u32beOf_ok (by omega)]
          rfl

theorem udpPayloadToPort_safe (port : UInt16) :
    Strict.udpPayloadToPort inner port = .ok (udpPayloadToPort inner port) := by
  simp only [Strict.udpPayloadToPort, udpPayloadToPort, versionOf, ite_or]
  by_cases hlen : inner.length < 20
  · simp only [if_pos hlen]
    rfl
  obtain ⟨hfirst, hproto, hihl, htotal⟩ := header_reads hlen
  simp only [if_neg hlen, hfirst, hproto, hihl, htotal, ok_bind,
    addIhl_ok inner (show 8 ≤ 20 by decide)]
  split
  · rfl
  split
  · rfl
  split
  · rfl
  split
  · rfl
  rename_i hshort hfits
  have hudp : (slice inner (ihlOf inner) (totalOf inner)).length =
      totalOf inner - ihlOf inner := length_slice (by omega)
  rw [range_ok (by omega) (by omega), ok_bind, u16Of_ok rfl (by omega), ok_bind]
  split
  · rfl
  rw [rangeFrom_ok (by omega)]
  rfl

theorem parseSegment_safe : Strict.parseSegment inner = .ok (parseSegment inner) := by
  simp only [Strict.parseSegment, parseSegment, versionOf, ite_or]
  by_cases hlen : inner.length < 20
  · simp only [if_pos hlen]
    rfl
  obtain ⟨hfirst, hproto, hihl, htotal⟩ := header_reads hlen
  simp only [if_neg hlen, hfirst, hproto, hihl, htotal, ok_bind,
    addIhl_ok inner (show 20 ≤ 20 by decide)]
  split
  · rfl
  split
  · rfl
  split
  · rfl
  split
  · rfl
  split
  · rfl
  rename_i hshort hfits
  have htcp : (slice inner (ihlOf inner) (totalOf inner)).length =
      totalOf inner - ihlOf inner := length_slice (by omega)
  have hoff := (byteAt (slice inner (ihlOf inner) (totalOf inner)) 12 >>> 4).toNat_lt
  rw [range_ok (by omega) (by omega), ok_bind, toArray_slice rfl (by omega), ok_bind,
    range_ok (by omega) (by omega), ok_bind, toArray_slice rfl (by omega), ok_bind,
    range_ok (by omega) (by omega), ok_bind, u16Of_ok rfl (by omega), ok_bind,
    u16Of_ok rfl (by omega), ok_bind, u32beOf_ok (by omega), ok_bind, index_ok (by omega), ok_bind,
    mulUsize_ok (by omega), ok_bind, index_ok (by omega), ok_bind]
  split
  · rfl
  split
  · rfl
  rw [rangeFrom_ok (by omega)]
  rfl

theorem owns_safe (self : TcpClient) :
    Strict.TcpClient.owns self inner = .ok (self.owns inner) := by
  rw [Strict.TcpClient.owns, TcpClient.owns, ite_or, ite_or, versionOf]
  by_cases hlen : inner.length < 20
  · simp only [if_pos hlen]
    rfl
  obtain ⟨hfirst, hproto, hihl, -⟩ := header_reads hlen
  simp only [if_neg hlen, hfirst, hproto, hihl, ok_bind, addIhl_ok inner (show 4 ≤ 20 by decide),
    addIhl_ok inner (show 2 ≤ 20 by decide), addIhl_ok inner (show 3 ≤ 20 by decide)]
  split
  · rfl
  split
  · rfl
  split
  · rfl
  rw [u16Of_ok rfl (by omega)]
  rfl

/-- A client takes only packets long enough to have the fields it reads. -/
theorem length_of_owns {self : TcpClient} (h : self.owns inner = true) : 20 ≤ inner.length := by
  rw [TcpClient.owns] at h
  split at h
  · cases h
  · next hguard => omega

end Parsers

/-! ## Echo -/

section Echo

variable (inner : Bytes)

theorem echoReply_safe : Strict.echoReply inner = .ok (Icmp.echoReply inner) := by
  simp only [Strict.echoReply, Icmp.echoReply, versionOf, ite_or]
  by_cases hlen : inner.length < 20
  · simp only [if_pos hlen]
    rfl
  have htot := totalOf_lt inner
  obtain ⟨hfirst, hproto, hihl, htotal⟩ := header_reads hlen
  simp only [if_neg hlen, hfirst, hproto, hihl, htotal, ok_bind,
    addIhl_ok inner (show 4 ≤ 20 by decide), addIhl_ok inner (show 2 ≤ 20 by decide),
    addIhl_ok inner (show 3 ≤ 20 by decide)]
  split
  · rfl
  split
  · rfl
  split
  · rfl
  split
  · rfl
  split
  · rfl
  rename_i hmin hle hfits hicmpProto
  have hicmp : (slice inner (ihlOf inner) (totalOf inner)).length =
      totalOf inner - ihlOf inner := length_slice (by omega)
  rw [range_ok (by omega) (by omega), ok_bind]
  split
  · rfl
  rw [index_ok (by omega), ok_bind]
  split
  · rfl
  -- the guards leave room for the ICMP header; from here on the packet is rewritten in place
  have hpkt : (slice inner 0 (totalOf inner)).length = totalOf inner := length_slice (by omega)
  rw [range_ok (by omega) (by omega), ok_bind]
  generalize slice inner 0 (totalOf inner) = pkt at hpkt ⊢
  have hsrc : (slice pkt 12 16).length = 4 := length_slice (by omega)
  have hdst : (slice pkt 16 20).length = 4 := length_slice (by omega)
  rw [range_ok (by omega) (by omega), ok_bind, toArray_ok hsrc, ok_bind,
    range_ok (by omega) (by omega), ok_bind, toArray_ok hdst, ok_bind,
    copyInto_ok (by rw [hdst]) (by omega), ok_bind,
    copyInto_ok (by rw [hsrc]) (by rw [length_copyAt]; omega), ok_bind,
    setAt_ok (by simp only [length_copyAt]; omega), ok_bind,
    setAt_ok (by simp only [length_copyAt]; omega), ok_bind,
    setAt_ok (by simp only [length_copyAt]; omega), ok_bind, copyAt_pair,
    range_ok (by omega) (by simp only [length_copyAt]; omega), ok_bind,
    checksum_safe (by rw [length_slice (by simp only [length_copyAt]; omega)]; omega), ok_bind,
    copyInto_ok (by rw [length_be16]) (by simp only [length_copyAt]; omega), ok_bind,
    setAt_ok (by simp only [length_copyAt]; omega), ok_bind,
    setAt_ok (by simp only [length_copyAt]; omega), ok_bind, copyAt_pair,
    range_ok (by omega) (by simp only [length_copyAt]; omega), ok_bind,
    checksum_safe (by rw [length_slice (by simp only [length_copyAt]; omega)]; omega), ok_bind,
    copyInto_ok (by rw [length_be16]) (by simp only [length_copyAt]; omega), ok_bind, pure_eq]

theorem echoReplyV6_safe : Strict.echoReplyV6 inner = .ok (Icmp.echoReplyV6 inner) := by
  simp only [Strict.echoReplyV6, Icmp.echoReplyV6, versionOf, ite_or]
  by_cases hlen : inner.length < 40
  · simp only [if_pos hlen]
    rfl
  have hpay := (u16be inner 4).toNat_lt
  simp only [if_neg hlen, index_ok (show 0 < inner.length by omega), ok_bind,
    index_ok (show 6 < inner.length by omega), u16Of_ok rfl (show 5 < inner.length by omega),
    addUsize_ok (show 40 + (u16be inner 4).toNat < 2 ^ 32 by omega)]
  split
  · rfl
  split
  · rfl
  split
  · rfl
  split
  · rfl
  rename_i hmin hfits
  rw [index_ok (by omega), ok_bind]
  split
  · rfl
  have hpkt : (slice inner 0 (40 + (u16be inner 4).toNat)).length = 40 + (u16be inner 4).toNat :=
    length_slice (by omega)
  rw [range_ok (by omega) (by omega), ok_bind]
  generalize slice inner 0 (40 + (u16be inner 4).toNat) = pkt at hpkt ⊢
  have hsrc : (slice pkt 8 24).length = 16 := length_slice (by omega)
  have hdst : (slice pkt 24 40).length = 16 := length_slice (by omega)
  rw [range_ok (by omega) (by omega), ok_bind, toArray_ok hsrc, ok_bind,
    range_ok (by omega) (by omega), ok_bind, toArray_ok hdst, ok_bind,
    copyInto_ok (by rw [hdst]) (by omega), ok_bind,
    copyInto_ok (by rw [hsrc]) (by rw [length_copyAt]; omega), ok_bind,
    setAt_ok (by simp only [length_copyAt]; omega), ok_bind,
    setAt_ok (by simp only [length_copyAt]; omega), ok_bind,
    setAt_ok (by simp only [length_copyAt]; omega), ok_bind, copyAt_pair,
    range_ok (by omega) (by simp only [length_copyAt]; omega), ok_bind,
    toArray_ok (by rw [length_slice (by simp only [length_copyAt]; omega)]), ok_bind,
    range_ok (by omega) (by simp only [length_copyAt]; omega), ok_bind,
    toArray_ok (by rw [length_slice (by simp only [length_copyAt]; omega)]), ok_bind,
    range_ok (by omega) (by simp only [length_copyAt]; omega), ok_bind,
    icmpv6Checksum_safe _ _ (by rw [length_slice (by simp only [length_copyAt]; omega)]; omega),
    ok_bind, copyInto_ok (by rw [length_be16]) (by simp only [length_copyAt]; omega), ok_bind,
    pure_eq]

theorem echoReplyAny_safe : Strict.echoReplyAny inner = .ok (Icmp.echoReplyAny inner) := by
  rw [Strict.echoReplyAny, Icmp.echoReplyAny]
  cases inner.head? with
  | none => rfl
  | some b =>
      dsimp only
      split
      · exact echoReply_safe inner
      · split
        · exact echoReplyV6_safe inner
        · rfl

/-- A reply is as long as the packet declared itself to be. -/
theorem length_echoReplyAny_le {reply : Bytes} (h : Icmp.echoReplyAny inner = some reply) :
    reply.length ≤ 65575 := by
  have htot := totalOf_lt inner
  have hpay := (u16be inner 4).toNat_lt
  rw [Icmp.echoReplyAny] at h
  split at h
  · cases h
  · split at h
    · rw [length_echoReply h]
      omega
    · split at h
      · rw [length_echoReplyV6 h]
        omega
      · cases h

end Echo

end TailscaleRust.Proofs
