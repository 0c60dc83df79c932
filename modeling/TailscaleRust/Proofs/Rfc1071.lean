import TailscaleRust.Proofs.Echo
import TailscaleRust.Proofs.SafePackets

/-!
# Every checksum routine computes the internet checksum

The source has the checksum in five places. Each is measured here against
one definition, the complement of the one's-complement sum of the words, with
the pseudo-header in front of the data where the routine has one. Of each
routine three things are said at once, in `Computes`: its value, that none of
its 32-bit additions overflows, and that its value makes the data verify once
it is stored.

All of it rests on the bound on the data. The carries need none: folding a
32-bit sum ends after at most three passes whatever it is, so a loop that is
allowed more passes returns the same.
-/

namespace TailscaleRust.Proofs

open TailscaleRust.Lib TailscaleRust.Lib.OnesComplement TailscaleRust.Lib.Checked
open TailscaleRust.Core TailscaleRust.Firmware

/-- The checksum of RFC 1071. -/
def rfc1071 (b : Bytes) : UInt16 := ~~~ UInt16.ofNat (OnesComplement.sum 65535 (words b))

theorem rfc1071_toNat (b : Bytes) :
    (rfc1071 b).toNat = 65535 - residue 65535 (wordSum b) := by
  have hsum : OnesComplement.sum 65535 (words b) = residue 65535 (wordSum b) :=
    sum_eq_residue (by decide) fun w hw => le_of_mem_words hw
  have hle := residue_le (show 0 < 65535 by decide) (wordSum b)
  have hnot : ∀ x : UInt16, (~~~ x).toNat = 65535 - x.toNat := fun x => UInt16.toNat_not x
  rw [rfc1071, hsum, hnot, UInt16.toNat_ofNat', Nat.mod_eq_of_lt (by omega)]

/-- The loop over all the data, and then the carries. -/
theorem finish_sum16 {b : Bytes} (h : b.length ≤ 131000) : finish (sum16 b 0) = rfc1071 b := by
  have hle := wordSum_le b
  apply UInt16.toNat_inj.mp
  rw [finish_toNat, sum16_toNat (by rw [UInt32.toNat_zero]; omega), UInt32.toNat_zero,
    Nat.zero_add, rfc1071_toNat]

/-- Stored in an aligned field that was zero, the checksum makes the whole
verify. -/
theorem verifies_rfc1071 {ph data : Bytes} {off : Nat} (hp : ph.length % 2 = 0)
    (heven : off % 2 = 0) (hfit : off + 2 ≤ data.length)
    (hzero : slice data off (off + 2) = [0, 0]) :
    Verifies (ph ++ copyAt data off (be16 (rfc1071 (ph ++ data)))) := by
  -- the zero field cuts the data in two
  have hdata : ph ++ data = (ph ++ data.take off) ++ [0, 0] ++ data.drop (off + 2) := by
    have hfront := slice_slice_append (b := data) (Nat.zero_le off) (Nat.le_add_right off 2)
    rw [hzero, slice, slice, List.drop_zero, Nat.sub_zero, Nat.sub_zero] at hfront
    rw [List.append_assoc ph, hfront, List.append_assoc, List.take_append_drop]
  have hwrite : ∀ x : UInt16, ph ++ copyAt data off (be16 x) =
      (ph ++ data.take off) ++ be16 x ++ data.drop (off + 2) := by
    intro x
    rw [copyAt_eq (by rw [length_be16]; exact hfit), length_be16]
    simp only [List.append_assoc]
  have hsum := rfc1071_toNat (ph ++ data)
  rw [wordSum, hdata] at hsum
  rw [hwrite, hdata]
  refine verifies_of_complement ?_ hsum
  rw [List.length_append, List.length_take, Nat.min_eq_left (by omega)]
  omega

/-- What is said of a routine on some data. `checked` is the same routine with
an error for an overflow, and `ph` the pseudo-header it takes in. -/
structure Computes (routine : Bytes → UInt16) (checked : Bytes → Checked UInt16) (ph : Bytes)
    (data : Bytes) : Prop where
  value : routine data = rfc1071 (ph ++ data)
  safe : checked data = .ok (routine data)
  stored : ∀ off, off % 2 = 0 → off + 2 ≤ data.length → slice data off (off + 2) = [0, 0] →
    Verifies (ph ++ copyAt data off (be16 (routine data)))

/-- The value decides what a stored checksum does. -/
theorem Computes.of_value {routine : Bytes → UInt16} {checked : Bytes → Checked UInt16}
    {ph data : Bytes} (hp : ph.length % 2 = 0) (hvalue : routine data = rfc1071 (ph ++ data))
    (hsafe : checked data = .ok (routine data)) : Computes routine checked ph data := by
  refine ⟨hvalue, hsafe, fun off heven hfit hzero => ?_⟩
  rw [hvalue]
  exact verifies_rfc1071 hp heven hfit hzero

/-! ## The routines -/

section Routines

variable {data : Bytes} (h : data.length ≤ 65535)

include h

theorem checksum_computes : Computes Icmp.checksum Strict.checksum [] data :=
  .of_value rfl (finish_sum16 (by omega)) (checksum_safe h)

theorem l4Checksum_computes (src dst : Ipv4Addr) (proto : UInt8) :
    Computes (Outbound.l4Checksum src dst proto) (Strict.l4Checksum src dst proto)
      (pseudoHeader src dst proto data.length) data := by
  have hph := length_pseudoHeader src dst proto data.length
  refine .of_value (by rw [hph]) ?_ (l4Checksum_safe src dst proto h)
  rw [Outbound.l4Checksum, ← sum16_append (by rw [hph]), finish_sum16]
  rw [List.length_append, hph]
  omega

theorem icmpv6Checksum_computes (src dst : Arr 16) :
    Computes (Icmp.icmpv6Checksum src.1 dst.1) (Strict.icmpv6Checksum src dst)
      (pseudoHeaderV6 src.1 dst.1 data.length) data := by
  refine .of_value ?_ ?_ (icmpv6Checksum_safe src dst h)
  · simp [pseudoHeaderV6, src.2, dst.2]
  · apply UInt16.toNat_inj.mp
    rw [icmpv6Checksum_toNat src.2 dst.2 h, rfc1071_toNat]

end Routines

/-- The proxy's loop over two slices is two loops, one after the other. -/
theorem proxyTcpChecksum_eq (src dst : Ipv4Addr) (tcp : Bytes) :
    Strict.proxyTcpChecksum src dst tcp = Strict.l4Checksum src dst Tcp.protoTcp tcp := by
  simp [Strict.proxyTcpChecksum, Strict.l4Checksum]

/-- More passes than three change nothing, and then no carry is left. -/
theorem foldCarries_settles (sum : UInt32) :
    foldCarries 3 sum >>> 16 = 0 ∧ ∀ fuel ≥ 3, foldCarries fuel sum = foldCarries 3 sum := by
  have hlt := foldCarries_lt sum
  refine ⟨?_, fun fuel hfuel => ?_⟩
  · have hno : ¬(foldCarries 3 sum >>> 16 ≠ 0) := by
      rw [shiftRight_ne_zero_iff]
      omega
    exact not_not.mp hno
  · obtain ⟨k, rfl⟩ := Nat.exists_eq_add_of_le hfuel
    rw [foldCarries_add, foldCarries_of_lt k hlt]

/-- The routines of all modules compute the checksum of RFC 1071, the carry
loop ends and overflows nothing, and the copies of a routine agree, on data
of any length. -/
theorem checksums_compute_rfc1071 (src dst : Ipv4Addr) (proto : UInt8) (src6 dst6 : Arr 16)
    (data : Bytes) (h : data.length ≤ 65535) :
    (Computes Icmp.checksum Strict.checksum [] data ∧
      Computes Tcp.checksum Strict.checksum [] data ∧
      Computes Outbound.checksum Strict.checksum [] data) ∧
    (Computes (Tcp.tcpChecksum src dst) (Strict.l4Checksum src dst Tcp.protoTcp)
        (pseudoHeader src dst Tcp.protoTcp data.length) data ∧
      Computes (Outbound.l4Checksum src dst proto) (Strict.l4Checksum src dst proto)
        (pseudoHeader src dst proto data.length) data ∧
      Computes (Proxy.tcpChecksum src dst) (Strict.proxyTcpChecksum src dst)
        (pseudoHeader src dst Tcp.protoTcp data.length) data) ∧
    Computes (Icmp.icmpv6Checksum src6.1 dst6.1) (Strict.icmpv6Checksum src6 dst6)
      (pseudoHeaderV6 src6.1 dst6.1 data.length) data ∧
    (∀ sum, foldCarries 3 sum >>> 16 = 0 ∧
      ∀ fuel ≥ 3, foldCarries fuel sum = foldCarries 3 sum ∧
        Strict.foldCarries fuel sum = .ok (foldCarries 3 sum)) ∧
    ∀ d, Tcp.checksum d = Icmp.checksum d ∧ Outbound.checksum d = Icmp.checksum d ∧
      Tcp.tcpChecksum src dst d = Outbound.l4Checksum src dst Tcp.protoTcp d ∧
      Proxy.tcpChecksum src dst d = Outbound.l4Checksum src dst Tcp.protoTcp d := by
  have hl4 := l4Checksum_computes h src dst Tcp.protoTcp
  have hplain := checksum_computes h
  refine ⟨⟨hplain, ⟨hplain.1, hplain.2, hplain.3⟩, ⟨hplain.1, hplain.2, hplain.3⟩⟩,
    ⟨⟨hl4.1, hl4.2, hl4.3⟩, l4Checksum_computes h src dst proto, ⟨hl4.1, ?_, hl4.3⟩⟩,
    icmpv6Checksum_computes h src6 dst6, ?_, fun d => ⟨rfl, rfl, rfl, rfl⟩⟩
  · rw [proxyTcpChecksum_eq]
    exact hl4.2
  · intro sum
    obtain ⟨hsettled, hmore⟩ := foldCarries_settles sum
    refine ⟨hsettled, fun fuel hfuel => ⟨hmore fuel hfuel, ?_⟩⟩
    rw [foldCarries_safe, hmore fuel hfuel]

/-- An ICMP message of odd length, with its checksum field at offset 2. -/
theorem checksums_compute_rfc1071_message :
    Icmp.checksum [8, 0, 0, 0, 0xff] = 0xf8fe ∧
      Icmp.checksum [8, 0, 0, 0, 0xff] = rfc1071 ([] ++ [8, 0, 0, 0, 0xff]) ∧
      Verifies ([] ++ copyAt [8, 0, 0, 0, 0xff] 2 (be16 (Icmp.checksum [8, 0, 0, 0, 0xff]))) := by
  obtain ⟨⟨hicmp, -⟩, -⟩ := checksums_compute_rfc1071 (Arr.zero 4) (Arr.zero 4) 17 (Arr.zero 16)
    (Arr.zero 16) [8, 0, 0, 0, 0xff] (by decide)
  exact ⟨by decide, hicmp.value, hicmp.stored 2 rfl (by decide) rfl⟩

end TailscaleRust.Proofs
