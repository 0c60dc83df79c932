import TailscaleRust.Proofs.Checksums

/-!
# Echo replies

A reply is the request with the two addresses exchanged, another type and
new checksums, written over the request in place. The writes do not overlap,
so each of them can be read back, and every byte outside of them is a byte
of the request. The checksum of the message is written before that of the
header, which does not reach into it.
-/

namespace TailscaleRust.Proofs

open TailscaleRust.Lib TailscaleRust.Lib.OnesComplement TailscaleRust.Core
open TailscaleRust.Core.Icmp

/-! ## What is answered, and how -/

/-- An ICMP echo request in an IPv4 packet. -/
structure PingRequestV4 (p : Bytes) : Prop where
  version : versionOf p = 4
  ihl : 5 ≤ (byteAt p 0 &&& 0x0f).toNat
  room : ihlOf p + 8 ≤ totalOf p
  fits : totalOf p ≤ p.length
  proto : byteAt p 9 = protoIcmp
  type : byteAt p (ihlOf p) = icmpEchoRequest

/-- What makes a packet the reply to an IPv4 request. Bytes 10 to 20 are the
header checksum and the addresses. -/
structure PingReplyV4 (p r : Bytes) : Prop where
  length : r.length = totalOf p
  source : slice r 12 16 = slice p 16 20
  dest : slice r 16 20 = slice p 12 16
  type : byteAt r (ihlOf p) = icmpEchoReply
  others : ∀ i, i < totalOf p → i < 10 ∨ 20 ≤ i → i ≠ ihlOf p →
    i < ihlOf p + 2 ∨ ihlOf p + 4 ≤ i → byteAt r i = byteAt p i
  header : Verifies (slice r 0 (ihlOf p))
  message : Verifies (r.drop (ihlOf p))

/-- An ICMPv6 echo request in an IPv6 packet. -/
structure PingRequestV6 (p : Bytes) : Prop where
  version : versionOf p = 6
  next : byteAt p 6 = nextHdrIcmpv6
  room : 8 ≤ (u16be p 4).toNat
  fits : 40 + (u16be p 4).toNat ≤ p.length
  type : byteAt p 40 = icmpv6EchoRequest

/-- The pseudo-header of ICMPv6: addresses, length, next header. -/
def pseudoHeaderV6 (src dst : Bytes) (len : Nat) : Bytes :=
  src ++ dst ++ be32 (UInt32.ofNat len) ++ [0, 0, 0, nextHdrIcmpv6]

/-- The same over IPv6, which has no header checksum. -/
structure PingReplyV6 (p r : Bytes) : Prop where
  length : r.length = 40 + (u16be p 4).toNat
  source : slice r 8 24 = slice p 24 40
  dest : slice r 24 40 = slice p 8 24
  type : byteAt r 40 = icmpv6EchoReply
  others : ∀ i, i < r.length → i < 8 ∨ 40 < i → i < 42 ∨ 44 ≤ i → byteAt r i = byteAt p i
  message : Verifies
    (pseudoHeaderV6 (slice r 8 24) (slice r 24 40) (u16be p 4).toNat ++ r.drop 40)

/-! ## A checksum written over zeros -/

/-- A write read back together with what stands on its two sides. -/
theorem slice_copyAt_around {b : Bytes} {i off j : Nat} {src : Bytes} (hi : i ≤ off)
    (hj : off + src.length ≤ j) (hb : j ≤ b.length) :
    slice (copyAt b off src) i j = slice b i off ++ src ++ slice b (off + src.length) j := by
  have hself : slice (copyAt b off src) off (off + src.length) = src :=
    slice_copyAt_self rfl (by omega)
  rw [← slice_slice_append (show i ≤ off + src.length by omega) hj,
    ← slice_slice_append hi (show off ≤ off + src.length by omega), hself,
    slice_copyAt_before (Nat.le_refl off), slice_copyAt_after (Nat.le_refl _)]

/-- The bytes between two offsets, with the checksum over them written at a
third one between them where there were zeros. -/
theorem verifies_slice {b : Bytes} {i off j : Nat} (hi : i ≤ off) (hj : off + 2 ≤ j)
    (hb : j ≤ b.length) (heven : (off - i) % 2 = 0) (hlen : j - i ≤ 65535) :
    Verifies (slice (copyAt (copyAt b off [0, 0]) off
      (be16 (checksum (slice (copyAt b off [0, 0]) i j)))) i j) := by
  have hzero : slice (copyAt b off [0, 0]) i j =
      slice b i off ++ [0, 0] ++ slice b (off + 2) j := slice_copyAt_around hi hj hb
  have hwrite : ∀ x : UInt16, slice (copyAt (copyAt b off [0, 0]) off (be16 x)) i j =
      slice b i off ++ be16 x ++ slice b (off + 2) j := by
    intro x
    rw [slice_copyAt_around hi (by rw [length_be16]; exact hj) (by rwa [length_copyAt]),
      length_be16, slice_copyAt_before (Nat.le_refl off),
      slice_copyAt_after (i := off + 2) (Nat.le_refl _)]
  have hleft : (slice b i off).length = off - i := length_slice (by omega)
  have hright : (slice b (off + 2) j).length = j - (off + 2) := length_slice hb
  rw [hwrite, hzero, checksum]
  exact verifies_finish (by rw [hleft]; exact heven) (by omega)

/-! ## The writes of a reply -/

/-- Two neighbouring ranges of one size exchanged. -/
def exchange (b : Bytes) (i j k : Nat) : Bytes :=
  copyAt (copyAt b i (slice b j k)) j (slice b i j)

/-- A checksum over a range written into a field of it. -/
def fillChecksum (b : Bytes) (off i j : Nat) : Bytes :=
  copyAt (copyAt b off [0, 0]) off (be16 (checksum (slice (copyAt b off [0, 0]) i j)))

theorem length_exchange (b : Bytes) (i j k : Nat) : (exchange b i j k).length = b.length := by
  rw [exchange, length_copyAt, length_copyAt]

theorem length_fillChecksum (b : Bytes) (off i j : Nat) :
    (fillChecksum b off i j).length = b.length := by
  rw [fillChecksum, length_copyAt, length_copyAt]

section Exchange

variable {b : Bytes} {i j k : Nat}

theorem slice_exchange_left (hij : i ≤ j) (hsize : k - j = j - i) (hjk : j ≤ k)
    (h : k ≤ b.length) : slice (exchange b i j k) i j = slice b j k := by
  rw [exchange, slice_copyAt_before (Nat.le_refl j),
    slice_copyAt_self (by rw [length_slice h]; omega) (by omega)]

theorem slice_exchange_right (hij : i ≤ j) (hsize : k - j = j - i) (hjk : j ≤ k)
    (h : k ≤ b.length) : slice (exchange b i j k) j k = slice b i j :=
  slice_copyAt_self (by rw [length_slice (by omega)]; omega) (by rwa [length_copyAt])

theorem byteAt_exchange (hij : i ≤ j) (hsize : k - j = j - i) (hjk : j ≤ k) (h : k ≤ b.length)
    {n : Nat} (hn : n < i ∨ k ≤ n) : byteAt (exchange b i j k) n = byteAt b n := by
  rw [exchange, byteAt_copyAt_other (by rw [length_slice (by omega)]; omega),
    byteAt_copyAt_other (by rw [length_slice h]; omega)]

end Exchange

theorem byteAt_fillChecksum {b : Bytes} {off i j n : Nat} (hn : n < off ∨ off + 2 ≤ n) :
    byteAt (fillChecksum b off i j) n = byteAt b n := by
  rw [fillChecksum, byteAt_copyAt_other (by rwa [length_be16]), byteAt_copyAt_other hn]

theorem slice_fillChecksum {b : Bytes} {off i j n m : Nat} (h : m ≤ off ∨ off + 2 ≤ n) :
    slice (fillChecksum b off i j) n m = slice b n m := by
  rw [fillChecksum]
  rcases h with h | h
  · rw [slice_copyAt_before h, slice_copyAt_before h]
  · rw [slice_copyAt_after (by rwa [length_be16]), slice_copyAt_after h]

/-! ## IPv4 -/

theorem echoReply_eq {p : Bytes} (h : PingRequestV4 p) :
    echoReply p = some (fillChecksum (fillChecksum
      (copyAt (exchange (slice p 0 (totalOf p)) 12 16 20) (ihlOf p) [icmpEchoReply])
      (ihlOf p + 2) (ihlOf p) (totalOf p)) 10 0 (ihlOf p)) := by
  obtain ⟨hversion, hihl, hroom, hfits, hproto, htype⟩ := h
  have hmin : 20 ≤ ihlOf p := by rw [ihlOf]; omega
  have hicmp : (slice p (ihlOf p) (totalOf p)).length = totalOf p - ihlOf p := length_slice hfits
  have hfirst : byteAt (slice p (ihlOf p) (totalOf p)) 0 = icmpEchoRequest := by
    rw [byteAt_slice (by omega), Nat.add_zero, htype]
  rw [echoReply, if_neg (by rw [hversion]; simp; omega)]
  simp only []
  rw [if_neg (by omega), if_neg (by simp [hproto]), if_neg (by rw [hicmp, hfirst]; simp; omega)]
  rfl

theorem echoReply_isSome {p : Bytes} (h : (echoReply p).isSome) : PingRequestV4 p := by
  rw [echoReply] at h
  split at h
  · cases h
  · next hhead =>
      simp only [not_or, ne_eq, not_not] at hhead
      simp only [] at h
      split at h
      · cases h
      · next hlen =>
          split at h
          · cases h
          · next hproto =>
              split at h
              · cases h
              · next hmsg =>
                  simp only [not_or, ne_eq, not_not] at hlen hproto hmsg
                  have hicmp := length_slice (b := p) (i := ihlOf p)
                    (show totalOf p ≤ p.length by omega)
                  have htype := hmsg.2
                  rw [byteAt_slice (by omega), Nat.add_zero] at htype
                  exact ⟨hhead.2, by rw [ihlOf] at hlen; omega, by omega, by omega, hproto, htype⟩

theorem echoReplyV4_correct {p r : Bytes} (h : PingRequestV4 p) (hr : echoReply p = some r) :
    PingReplyV4 p r := by
  rw [echoReply_eq h] at hr
  cases hr
  obtain ⟨-, hihl, hroom, hfits, -, -⟩ := h
  have hmin : 20 ≤ ihlOf p := by rw [ihlOf]; omega
  have htotal : totalOf p < 65536 := (u16be p 2).toNat_lt
  have hlen : (slice p 0 (totalOf p)).length = totalOf p := length_slice hfits
  have hcut : ∀ i j, j ≤ totalOf p → slice (slice p 0 (totalOf p)) i j = slice p i j := by
    intro i j hj
    rw [slice_slice (by omega), Nat.zero_add, Nat.zero_add]
  -- the packet before any checksum, and after that of the message
  generalize htyped : copyAt (exchange (slice p 0 (totalOf p)) 12 16 20) (ihlOf p)
    [icmpEchoReply] = typed
  have htypedLen : typed.length = totalOf p := by
    rw [← htyped, length_copyAt, length_exchange, hlen]
  generalize hsummed : fillChecksum typed (ihlOf p + 2) (ihlOf p) (totalOf p) = summed
  have hsummedLen : summed.length = totalOf p := by
    rw [← hsummed, length_fillChecksum, htypedLen]
  refine ⟨?_, ?_, ?_, ?_, ?_, ?_, ?_⟩
  · rw [length_fillChecksum, hsummedLen]
  · rw [slice_fillChecksum (by omega), ← hsummed, slice_fillChecksum (by omega), ← htyped,
      slice_copyAt_before (by omega),
      slice_exchange_left (by omega) (by omega) (by omega) (by omega), hcut _ _ (by omega)]
  · rw [slice_fillChecksum (by omega), ← hsummed, slice_fillChecksum (by omega), ← htyped,
      slice_copyAt_before (by omega),
      slice_exchange_right (by omega) (by omega) (by omega) (by omega), hcut _ _ (by omega)]
  · rw [byteAt_fillChecksum (by omega), ← hsummed, byteAt_fillChecksum (by omega), ← htyped,
      byteAt_copyAt_self (by rw [length_exchange]; omega)]
  · intro i hi hhead htype hsum
    rw [byteAt_fillChecksum (by omega), ← hsummed, byteAt_fillChecksum (by omega), ← htyped,
      byteAt_copyAt_other (by rw [List.length_singleton]; omega),
      byteAt_exchange (by omega) (by omega) (by omega) (by omega) (by omega),
      byteAt_slice (by omega), Nat.zero_add]
  · exact verifies_slice (by omega) (by omega) (by omega) rfl (by omega)
  · have hmessage : (fillChecksum summed 10 0 (ihlOf p)).drop (ihlOf p) =
        slice summed (ihlOf p) (totalOf p) := by
      have hbehind : slice (fillChecksum summed 10 0 (ihlOf p)) (ihlOf p) (totalOf p) = _ :=
        slice_fillChecksum (.inr (by omega))
      rw [← hbehind, slice,
        List.take_of_length_le (by rw [List.length_drop, length_fillChecksum, hsummedLen])]
    rw [hmessage, ← hsummed]
    exact verifies_slice (by omega) (by omega) (by omega) (by omega) (by omega)

/-! ## IPv6 -/

theorem wordSum_be32 (x : UInt32) : wordSum (be32 x) = x.toNat / 65536 + x.toNat % 65536 := by
  have hx := x.toNat_lt
  have hbytes : be32 x = [UInt8.ofNat (x.toNat / 256 / 256 / 256),
      UInt8.ofNat (x.toNat / 256 / 256), UInt8.ofNat (x.toNat / 256), UInt8.ofNat x.toNat] := rfl
  rw [hbytes, wordSum, words, words, words]
  simp
  omega

/-- The sum the IPv6 routine takes is that of the pseudo-header and the
message, one after the other. -/
theorem icmpv6Checksum_toNat {src dst msg : Bytes} (hs : src.length = 16) (hd : dst.length = 16)
    (hm : msg.length ≤ 65535) :
    (icmpv6Checksum src dst msg).toNat =
      65535 - residue 65535 (wordSum (pseudoHeaderV6 src dst msg.length ++ msg)) := by
  have hlen : (UInt32.ofNat msg.length).toNat = msg.length := by
    rw [UInt32.toNat_ofNat']
    omega
  have hhigh : (((UInt32.ofNat msg.length) >>> 16) &&& 0xffff) = (0 : UInt32) := by
    apply UInt32.toNat_inj.mp
    rw [UInt32.toNat_and, UInt32.toNat_shiftRight, hlen]
    rw [show msg.length >>> ((16 : UInt32).toNat % 32) = 0 from
      (Nat.shiftRight_eq_div_pow msg.length 16).trans (Nat.div_eq_of_lt (by omega))]
    rfl
  have hlow : ((UInt32.ofNat msg.length) &&& 0xffff).toNat = msg.length := by
    rw [UInt32.toNat_and, hlen]
    exact (Nat.and_two_pow_sub_one_eq_mod msg.length 16).trans (by omega)
  have hnext : nextHdrIcmpv6.toUInt32.toNat = 58 := rfl
  have hsrc := wordSum_le src
  have hdst := wordSum_le dst
  have hmsg := wordSum_le msg
  have hwords : wordSum (pseudoHeaderV6 src dst msg.length ++ msg) =
      wordSum src + wordSum dst + msg.length + 58 + wordSum msg := by
    have hzeros : wordSum [0, 0, 0, nextHdrIcmpv6] = 58 := rfl
    have heven : (src ++ dst).length % 2 = 0 := by rw [List.length_append, hs, hd]
    rw [pseudoHeaderV6, wordSum_append (by simp [hs, hd]), wordSum_append (by simp [hs, hd]),
      wordSum_append heven, wordSum_append (by rw [hs]), wordSum_be32, hlen, hzeros]
    omega
  have haddrs : (sum16 dst (sum16 src 0)).toNat = wordSum src + wordSum dst := by
    have h1 : (sum16 src 0).toNat = wordSum src := by
      rw [sum16_toNat (by rw [UInt32.toNat_zero]; omega), UInt32.toNat_zero, Nat.zero_add]
    rw [sum16_toNat (by omega), h1]
  have hpseudo : (sum16 dst (sum16 src 0) + (((UInt32.ofNat msg.length) >>> 16) &&& 0xffff) +
      ((UInt32.ofNat msg.length) &&& 0xffff) + nextHdrIcmpv6.toUInt32).toNat =
      wordSum src + wordSum dst + msg.length + 58 := by
    rw [hhigh, UInt32.toNat_add, UInt32.toNat_add, UInt32.toNat_add, haddrs, hlow, hnext,
      UInt32.toNat_zero]
    omega
  rw [icmpv6Checksum, finish_toNat, sum16_toNat (by omega), hpseudo, hwords]

theorem echoReplyV6_eq {p : Bytes} (h : PingRequestV6 p) :
    ∃ zeroed, zeroed = copyAt (copyAt (exchange (slice p 0 (40 + (u16be p 4).toNat)) 8 24 40) 40
        [icmpv6EchoReply]) 42 [0, 0] ∧
      echoReplyV6 p = some (copyAt zeroed 42 (be16 (icmpv6Checksum (slice zeroed 8 24)
        (slice zeroed 24 40) (slice zeroed 40 (40 + (u16be p 4).toNat))))) := by
  obtain ⟨hversion, hnext, hroom, hfits, htype⟩ := h
  refine ⟨_, rfl, ?_⟩
  rw [echoReplyV6, if_neg (by rw [hversion, hnext]; simp; omega)]
  simp only []
  rw [if_neg (by omega), if_neg (by simp [htype])]
  rfl

theorem echoReplyV6_isSome {p : Bytes} (h : (echoReplyV6 p).isSome) : PingRequestV6 p := by
  rw [echoReplyV6] at h
  split at h
  · cases h
  · next hhead =>
      simp only [not_or, ne_eq, not_not] at hhead
      simp only [] at h
      split at h
      · cases h
      · next hlen =>
          split at h
          · cases h
          · next htype =>
              exact ⟨hhead.2.1, hhead.2.2, by omega, by omega, not_not.mp htype⟩

theorem echoReplyV6_correct {p r : Bytes} (h : PingRequestV6 p) (hr : echoReplyV6 p = some r) :
    PingReplyV6 p r := by
  obtain ⟨zeroed, hzeroed, heq⟩ := echoReplyV6_eq h
  rw [heq] at hr
  cases hr
  obtain ⟨-, -, hroom, hfits, -⟩ := h
  have hpayload : (u16be p 4).toNat < 65536 := (u16be p 4).toNat_lt
  generalize htotal : 40 + (u16be p 4).toNat = total at *
  have hlen : (slice p 0 total).length = total := length_slice hfits
  have hcut : ∀ i j, j ≤ total → slice (slice p 0 total) i j = slice p i j := by
    intro i j hj
    rw [slice_slice (by omega), Nat.zero_add, Nat.zero_add]
  have hzeroedLen : zeroed.length = total := by
    rw [hzeroed, length_copyAt, length_copyAt, length_exchange, hlen]
  have hsource : slice zeroed 8 24 = slice p 24 40 := by
    rw [hzeroed, slice_copyAt_before (by omega), slice_copyAt_before (by omega),
      slice_exchange_left (by omega) (by omega) (by omega) (by omega), hcut _ _ (by omega)]
  have hdest : slice zeroed 24 40 = slice p 8 24 := by
    rw [hzeroed, slice_copyAt_before (by omega), slice_copyAt_before (by omega),
      slice_exchange_right (by omega) (by omega) (by omega) (by omega), hcut _ _ (by omega)]
  have hsum := icmpv6Checksum_toNat (length_slice (b := zeroed) (i := 8) (j := 24) (by omega))
    (length_slice (b := zeroed) (i := 24) (j := 40) (by omega))
    (show (slice zeroed 40 total).length ≤ 65535 by rw [length_slice (by omega)]; omega)
  generalize icmpv6Checksum _ _ _ = sum at hsum ⊢
  refine ⟨?_, ?_, ?_, ?_, ?_, ?_⟩
  · rw [length_copyAt, hzeroedLen, htotal]
  · rw [slice_copyAt_before (by omega), hsource]
  · rw [slice_copyAt_before (by omega), hdest]
  · rw [byteAt_copyAt_other (by omega), hzeroed, byteAt_copyAt_other (by omega),
      byteAt_copyAt_self (by rw [length_exchange]; omega)]
  · intro i hi hhead hfield
    rw [length_copyAt, hzeroedLen] at hi
    rw [byteAt_copyAt_other (by rw [length_be16]; omega), hzeroed,
      byteAt_copyAt_other (by show i < 42 ∨ 42 + 2 ≤ i; omega),
      byteAt_copyAt_other (by rw [List.length_singleton]; omega),
      byteAt_exchange (by omega) (by omega) (by omega) (by omega) (by omega),
      byteAt_slice (by omega), Nat.zero_add]
  · -- the message in three parts, with zeros or the checksum in the middle
    have hmsg : slice zeroed 40 total =
        slice zeroed 40 42 ++ [0, 0] ++ slice zeroed 44 total := by
      have hfield : slice zeroed 42 44 = [0, 0] := by
        rw [hzeroed]
        exact slice_copyAt_self rfl (by rw [length_copyAt, length_exchange]; omega)
      rw [← hfield, slice_slice_append (by omega) (by omega),
        slice_slice_append (by omega) (by omega)]
    have hdrop : (copyAt zeroed 42 (be16 sum)).drop 40 =
        slice zeroed 40 42 ++ be16 sum ++ slice zeroed 44 total := by
      have haround : slice (copyAt zeroed 42 (be16 sum)) 40 total = _ :=
        slice_copyAt_around (by omega) (by rw [length_be16]; omega) (by omega)
      rw [length_be16] at haround
      rw [← haround, slice, List.take_of_length_le
        (by rw [List.length_drop, length_copyAt, hzeroedLen])]
    have hmsgLen : (slice zeroed 40 total).length = (u16be p 4).toNat := by
      rw [length_slice (by omega)]
      omega
    rw [hmsgLen, hmsg, ← List.append_assoc, ← List.append_assoc] at hsum
    rw [hdrop, slice_copyAt_before (by omega), slice_copyAt_before (by omega),
      ← List.append_assoc, ← List.append_assoc]
    apply verifies_of_complement _ hsum
    rw [List.length_append, pseudoHeaderV6, length_slice (by omega)]
    simp [length_slice, hzeroedLen, show 24 ≤ total by omega, show 40 ≤ total by omega]

/-! ## Either version -/

theorem echoReplyAny_v4 {p : Bytes} (h : versionOf p = 4) : echoReplyAny p = echoReply p := by
  cases p with
  | nil => exact absurd h (by decide)
  | cons b p => exact if_pos h

theorem echoReplyAny_v6 {p : Bytes} (h : versionOf p = 6) : echoReplyAny p = echoReplyV6 p := by
  have h4 : versionOf p ≠ 4 := by rw [h]; decide
  cases p with
  | nil => exact absurd h (by decide)
  | cons b p => exact (if_neg h4).trans (if_pos h)

theorem echoReplyAny_other {p : Bytes} (h4 : versionOf p ≠ 4) (h6 : versionOf p ≠ 6) :
    echoReplyAny p = none := by
  cases p with
  | nil => rfl
  | cons b p => exact (if_neg h4).trans (if_neg h6)

theorem echoReplyAny_answers_iff (p : Bytes) :
    (echoReplyAny p).isSome ↔ PingRequestV4 p ∨ PingRequestV6 p := by
  refine ⟨?_, ?_⟩
  · intro h
    by_cases h4 : versionOf p = 4
    · rw [echoReplyAny_v4 h4] at h
      exact .inl (echoReply_isSome h)
    · by_cases h6 : versionOf p = 6
      · rw [echoReplyAny_v6 h6] at h
        exact .inr (echoReplyV6_isSome h)
      · rw [echoReplyAny_other h4 h6] at h
        cases h
  · rintro (h | h)
    · rw [echoReplyAny_v4 h.version, echoReply_eq h]
      rfl
    · obtain ⟨zeroed, -, heq⟩ := echoReplyV6_eq h
      rw [echoReplyAny_v6 h.version, heq]
      rfl

/-- A reply is not a request: it has its version and header length from the
request, and the type of a reply behind the header. -/
theorem echoReplyAny_v4_reply {p r : Bytes} (h : PingRequestV4 p) (hr : PingReplyV4 p r) :
    echoReplyAny r = none := by
  have hmin : 20 ≤ ihlOf p := by
    have := h.ihl
    rw [ihlOf]
    omega
  have hroom := h.room
  have hbyte : byteAt r 0 = byteAt p 0 :=
    hr.others 0 (by omega) (.inl (by omega)) (by omega) (.inl (by omega))
  have hversion : versionOf r = versionOf p := by rw [versionOf, versionOf, hbyte]
  have hihl : ihlOf r = ihlOf p := by rw [ihlOf, ihlOf, hbyte]
  rw [← Option.not_isSome_iff_eq_none, echoReplyAny_answers_iff]
  rintro (hreq | hreq)
  · have htype := hreq.type
    rw [hihl, hr.type] at htype
    exact absurd htype (by decide)
  · have hsix := hreq.version
    rw [hversion, h.version] at hsix
    exact absurd hsix (by decide)

theorem echoReplyAny_v6_reply {p r : Bytes} (h : PingRequestV6 p) (hr : PingReplyV6 p r) :
    echoReplyAny r = none := by
  have hbyte : byteAt r 0 = byteAt p 0 :=
    hr.others 0 (by rw [hr.length]; omega) (.inl (by omega)) (.inl (by omega))
  have hversion : versionOf r = versionOf p := by rw [versionOf, versionOf, hbyte]
  rw [← Option.not_isSome_iff_eq_none, echoReplyAny_answers_iff]
  rintro (hreq | hreq)
  · have hfour := hreq.version
    rw [hversion, h.version] at hfour
    exact absurd hfour (by decide)
  · have htype := hreq.type
    rw [hr.type] at htype
    exact absurd htype (by decide)

/-- Exactly the well-formed echo requests are answered, each by its echo
reply, and a reply is never answered. -/
theorem echoReplyAny_correct (inner : Bytes) :
    ((echoReplyAny inner).isSome ↔ PingRequestV4 inner ∨ PingRequestV6 inner) ∧
    ∀ r, echoReplyAny inner = some r →
      (PingRequestV4 inner ∧ PingReplyV4 inner r ∨ PingRequestV6 inner ∧ PingReplyV6 inner r) ∧
      echoReplyAny r = none := by
  refine ⟨echoReplyAny_answers_iff inner, ?_⟩
  intro r hr
  rcases (echoReplyAny_answers_iff inner).mp (by rw [hr]; rfl) with h | h
  · rw [echoReplyAny_v4 h.version] at hr
    have hreply := echoReplyV4_correct h hr
    exact ⟨.inl ⟨h, hreply⟩, echoReplyAny_v4_reply h hreply⟩
  · rw [echoReplyAny_v6 h.version] at hr
    have hreply := echoReplyV6_correct h hr
    exact ⟨.inr ⟨h, hreply⟩, echoReplyAny_v6_reply h hreply⟩

end TailscaleRust.Proofs
