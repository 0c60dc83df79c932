import TailscaleRust.Strict.Handshake

/-!
# Disco, STUN and WireGuard do not panic

The lengths of the messages are checked first and everything after is at
fixed offsets. The copies of a sealed string into a message need the length
of the string, which is what the crates document: the plaintext and a tag of
16 bytes.
-/

namespace TailscaleRust.Proofs

open TailscaleRust.Lib TailscaleRust.Lib.Checked TailscaleRust.Core

/-- A sealed string is its plaintext and 16 bytes, in both ciphers. -/
structure Tagged (C : Crypto) : Prop where
  chacha : ∀ k n m ad, (C.chachaSeal k n m ad).length = m.length + 16
  box : ∀ a b n m ct, C.boxSeal a b n m = some ct → ct.length = m.length + 16

/-! ## Disco and STUN -/

section Disco

open TailscaleRust.Core.Disco

theorem isDisco_safe (buf : Bytes) : Strict.isDisco buf = .ok (isDisco buf) := by
  rw [Strict.isDisco, isDisco]
  split
  · next hlen =>
      rw [range_ok (by omega) hlen]
      simp [hlen]
  · next hlen => simp [hlen]

theorem isStun_safe (buf : Bytes) : Strict.isStun buf = .ok (Stun.isStun buf) := by
  rw [Strict.isStun, Stun.isStun]
  split
  · next hlen =>
      rw [u32beOf_ok hlen]
      simp [hlen]
  · next hlen => simp [hlen]

theorem addrToBytes_safe (addr : SocketAddr) :
    Strict.addrToBytes addr = .ok (addrToBytes addr) := by
  cases addr with
  | v4 ip port =>
      obtain ⟨a, b, c, d, hip⟩ := arr4_bytes ip
      obtain ⟨p, q, hport⟩ := be16_bytes port
      rw [Strict.addrToBytes, copyArr_ok (by rfl) (by omega), ok_bind,
        copyArr_ok (by rfl) (by omega), ok_bind, copyArr_ok (by rw [ip.2]) (by omega), ok_bind,
        copyArr_ok (by rw [length_be16]) (by omega)]
      congr 1
      apply Subtype.ext
      simp only [Arr.copyAt, Arr.zero, addrToBytes, hip, hport]
      rfl
  | v6 ip port flow scope =>
      obtain ⟨p, q, hport⟩ := be16_bytes port
      have hzero : (Arr.zero 18).1 = zeros 16 ++ zeros 2 := rfl
      rw [Strict.addrToBytes, copyArr_ok (by rw [ip.2]) (by omega), ok_bind,
        copyArr_ok (by rw [length_be16]) (by omega)]
      congr 1
      apply Subtype.ext
      have hip : copyAt (zeros 16 ++ zeros 2) 0 ip.1 = ip.1 ++ zeros 2 := by
        rw [copyAt_eq (by simp [ip.2]), ip.2]
        rfl
      have hright := copyAt_append_right ip.1 (zeros 2) 0 (be16 port)
      rw [ip.2] at hright
      simp only [Arr.copyAt, addrToBytes, hzero, hip]
      rw [hright, hport]
      rfl

theorem bytesToAddr_safe (b : Bytes) : Strict.bytesToAddr b = .ok (bytesToAddr b) := by
  rw [Strict.bytesToAddr, bytesToAddr]
  by_cases hlen : b.length < 18
  · rw [if_pos hlen, if_pos hlen]
    rfl
  have hip : bytes4 b 12 = .ok (slice b 12 16) := bytes4_ok (by omega)
  rw [if_neg hlen, if_neg hlen, u16Of_ok rfl (by omega), ok_bind, range_ok (by omega) (by omega),
    ok_bind]
  by_cases hzero : slice b 0 10 = zeros 10
  · rw [if_neg (not_not.mpr hzero), index_ok (by omega), ok_bind]
    by_cases hten : byteAt b 10 = 0xff
    · rw [if_neg (not_not.mpr hten), index_ok (by omega), ok_bind]
      by_cases heleven : byteAt b 11 = 0xff
      · rw [if_neg (not_not.mpr heleven), if_pos ⟨hzero, hten, heleven⟩, hip, ok_bind,
          toArray_slice rfl (by omega), ok_bind, pure_eq]
      · rw [if_pos heleven, if_neg fun h => heleven h.2.2]
        rfl
    · rw [if_pos hten, if_neg fun h => hten h.2.1]
      rfl
  · rw [if_pos hzero, if_neg fun h => hzero h.1]
    rfl

theorem pongPlaintext_safe (txid : Arr 12) (src : SocketAddr) :
    Strict.pongPlaintext txid src = .ok (pongPlaintext txid src) := by
  rw [Strict.pongPlaintext, addrToBytes_safe, ok_bind, pure_eq, pongPlaintext]

/-- A vector of addresses takes at most `isize::MAX` bytes, and an address
takes more than 18 of them. -/
theorem callMeMaybePlaintext_safe {eps : List SocketAddr} (h : eps.length * 18 < 2 ^ 31) :
    Strict.callMeMaybePlaintext eps = .ok (callMeMaybePlaintext eps) := by
  rw [Strict.callMeMaybePlaintext, mulUsize_ok (by omega), ok_bind, addUsize_ok (by omega), ok_bind,
    mapM_ok fun a _ => addrToBytes_safe a, ok_bind, pure_eq, callMeMaybePlaintext,
    endpointsPlaintext, List.flatMap_map]

theorem sealPacket_safe {C : Crypto} (hC : Tagged C) (priv pub peer : Key) {plaintext : Bytes}
    (nonce : Arr 24) (h : plaintext.length < 2 ^ 31 + 2) :
    Strict.sealPacket C priv pub peer plaintext nonce =
      .ok (sealPacket C priv pub peer plaintext nonce) := by
  rw [Strict.sealPacket, sealPacket]
  cases hseal : C.boxSeal priv peer nonce plaintext with
  | none => rfl
  | some ct =>
      have hlen := hC.box _ _ _ _ _ hseal
      dsimp only
      rw [addUsize_ok (by rw [hdr]; omega)]
      rfl

theorem length_sealPacket {C : Crypto} (hC : Tagged C) {priv pub peer : Key}
    {plaintext wire : Bytes} {nonce : Arr 24}
    (h : sealPacket C priv pub peer plaintext nonce = .ok wire) :
    wire.length = plaintext.length + 78 := by
  rw [sealPacket] at h
  split at h
  · cases h
  · next ct hseal =>
      cases h
      have hlen := hC.box _ _ _ _ _ hseal
      simp only [List.length_append, pub.2, nonce.2, hlen]
      rw [show magic.length = 6 from rfl]
      omega

theorem endpointsIn_safe {pt : Bytes} (h : 14 ≤ pt.length) :
    Strict.endpointsIn pt =
      .ok (if byteAt pt 0 = callMeMaybe ∨ byteAt pt 0 = reverseConnect then
        (chunks18 pt.length (pt.drop 2)).filterMap bytesToAddr else []) := by
  rw [Strict.endpointsIn, index_ok (by omega), ok_bind]
  split
  · rw [rangeFrom_ok (by omega), ok_bind, mapM_ok fun a _ => bytesToAddr_safe a, ok_bind, pure_eq,
      List.filterMap_map]
    rfl
  · rfl

theorem observedIn_safe {pt : Bytes} (h : 14 ≤ pt.length) :
    Strict.observedIn pt =
      .ok (if byteAt pt 0 = pong ∧ pt.length ≥ 32 then bytesToAddr (slice pt 14 32) else none) := by
  rw [Strict.observedIn, index_ok (by omega), ok_bind]
  split
  · next hlong =>
      rw [range_ok (by omega) hlong.2, ok_bind, bytesToAddr_safe]
  · rfl

theorem openPacket_safe (C : Crypto) (priv : Key) (wire : Bytes) :
    Strict.openPacket C priv wire = .ok (openPacket C priv wire) := by
  rw [Strict.openPacket, openPacket, ite_or]
  by_cases hlen : wire.length < hdr + 16
  · rw [if_pos hlen, if_pos hlen]
    rfl
  rw [if_neg hlen, if_neg hlen]
  rw [hdr] at hlen
  rw [range_ok (by omega) (by omega), ok_bind]
  split
  · rfl
  rw [range_ok (by omega) (by omega), ok_bind, toArray_slice rfl (by omega), ok_bind,
    range_ok (by omega) (by omega), ok_bind, toArray_slice rfl (by omega), ok_bind,
    rangeFrom_ok (by omega), ok_bind]
  dsimp only
  generalize C.boxOpen priv (arrAt wire 6 32) (arrAt wire 38 24) (wire.drop 62) = opened
  cases opened with
  | none => rfl
  | some pt =>
      dsimp only
      split
      · rfl
      rename_i hpt
      rw [range_ok (by omega) (by omega), ok_bind, toArray_slice rfl (by omega), ok_bind,
        endpointsIn_safe (by omega), ok_bind, observedIn_safe (by omega), ok_bind,
        index_ok (by omega), ok_bind, pure_eq]

end Disco

/-! ## WireGuard -/

section Wg

open TailscaleRust.Core.Wg

variable {C : Crypto}

/-- A loop over the indices of a string sees its bytes. -/
theorem map_byteAt_range (b : Bytes) (f : UInt8 → UInt8) :
    (List.range b.length).map (fun i => f (byteAt b i)) = b.map f := by
  apply List.ext_getElem
  · simp
  · intro i hi _
    have hlt : i < b.length := by simpa using hi
    simp [byteAt, List.getD_eq_getElem?_getD, List.getElem?_eq_getElem hlt]

theorem xorLoop_safe {k : Bytes} (hk : k.length = 64) (x : UInt8) :
    ((List.range 64).mapM fun i => do return x ^^^ (← index k i)) =
      (.ok (k.map fun b => x ^^^ b) : Checked Bytes) := by
  have hstep : ∀ i ∈ List.range 64, (do return x ^^^ (← index k i) : Checked UInt8) =
      .ok (x ^^^ byteAt k i) := by
    intro i hi
    rw [index_ok (by rw [hk]; exact List.mem_range.mp hi)]
    rfl
  have hbytes := map_byteAt_range k fun b => x ^^^ b
  rw [hk] at hbytes
  rw [mapM_ok hstep, hbytes]

theorem hmac_safe (C : Crypto) (key data : Bytes) :
    Strict.hmac C key data = .ok (hmac C key data) := by
  rw [Strict.hmac, hmac]
  split
  · rw [copyInto_ok (by rw [(hash C [key]).2]) (by simp), ok_bind]
    dsimp only
    rw [xorLoop_safe (by simp), ok_bind, xorLoop_safe (by simp), ok_bind, pure_eq]
  · next hlen =>
      rw [copyInto_ok (Nat.zero_add _).symm (by simpa using hlen), ok_bind]
      dsimp only
      rw [xorLoop_safe (by simp), ok_bind, xorLoop_safe (by simp), ok_bind, pure_eq]

theorem kdf1_safe (key : Key) (input : Bytes) :
    Strict.kdf1 C key input = .ok (kdf1 C key input) := by
  rw [Strict.kdf1, hmac_safe, ok_bind, hmac_safe, kdf1]

theorem kdf2_safe (key : Key) (input : Bytes) :
    Strict.kdf2 C key input = .ok ((kdf2 C key input).1, (kdf2 C key input).2) := by
  rw [Strict.kdf2, hmac_safe, ok_bind, hmac_safe, ok_bind, hmac_safe, ok_bind, pure_eq, kdf2]

theorem kdf3_safe (key : Key) (input : Bytes) :
    Strict.kdf3 C key input =
      .ok ((kdf3 C key input).1, (kdf3 C key input).2.1, (kdf3 C key input).2.2) := by
  rw [Strict.kdf3, hmac_safe, ok_bind, hmac_safe, ok_bind, hmac_safe, ok_bind, hmac_safe, ok_bind,
    pure_eq, kdf3]

theorem leNonce_safe (counter : UInt64) : Strict.leNonce counter = .ok (leNonce counter) := by
  rw [Strict.leNonce, copyArr_ok (by rw [length_le64]) (by omega)]
  rfl

theorem wgSeal_safe (key : Key) (counter : UInt64) (pt aad : Bytes) :
    Strict.wgSeal C key counter pt aad = .ok (wgSeal C key counter pt aad) := by
  rw [Strict.wgSeal, leNonce_safe, ok_bind, pure_eq, wgSeal]

theorem wgOpen_safe (key : Key) (counter : UInt64) (ct aad : Bytes) :
    Strict.wgOpen C key counter ct aad = .ok (wgOpen C key counter ct aad) := by
  rw [Strict.wgOpen, leNonce_safe, ok_bind, pure_eq, wgOpen]

theorem length_wgSeal (hC : Tagged C) (key : Key) (counter : UInt64) (pt aad : Bytes) :
    (wgSeal C key counter pt aad).length = pt.length + 16 := hC.chacha ..

theorem tai64n_safe {secs : UInt64} (h : secs.toNat < 2 ^ 63) (nanos : UInt32) :
    Strict.tai64n secs nanos = .ok (tai64n secs nanos) := by
  have hadd : (0x400000000000000a : UInt64).toNat + secs.toNat < 2 ^ 64 := by
    have hbase : (0x400000000000000a : UInt64).toNat = 0x400000000000000a := rfl
    omega
  rw [Strict.tai64n, addU64_ok hadd, ok_bind, copyArr_ok (by rw [length_be64]) (by omega), ok_bind,
    copyArr_ok (by rw [length_be32]) (by omega)]
  rfl

theorem decryptTransport_safe (recvKey : Key) (pkt : Bytes) :
    Strict.decryptTransport C recvKey pkt = .ok (decryptTransport C recvKey pkt) := by
  rw [Strict.decryptTransport, decryptTransport, ite_or]
  by_cases hlen : pkt.length < 32
  · rw [if_pos hlen, if_pos hlen]
    rfl
  rw [if_neg hlen, if_neg hlen, index_ok (by omega), ok_bind]
  split
  · rfl
  rw [range_ok (by omega) (by omega), ok_bind, rangeFrom_ok (by omega), ok_bind, wgOpen_safe]
  rfl

theorem decrypt_safe (self : Tunnel) (pkt : Bytes) :
    Strict.Tunnel.decrypt C self pkt = .ok (self.decrypt C pkt) := by
  rw [Strict.Tunnel.decrypt, Tunnel.decrypt]
  by_cases hlen : pkt.length < 32
  · rw [if_pos hlen, if_pos hlen]
    rfl
  have hcounter : (slice pkt 8 16).length = 8 := length_slice (by omega)
  rw [if_neg hlen, if_neg hlen, index_ok (by omega), ok_bind]
  split
  · rfl
  rw [range_ok (by omega) (by omega), ok_bind, toArray_ok hcounter, ok_bind,
    rangeFrom_ok (by omega), ok_bind, wgOpen_safe, ok_bind]
  dsimp only
  have hread : UInt64.ofNat (leNat (slice pkt 8 16)) = u64le pkt 8 := rfl
  rw [hread]
  generalize wgOpen C self.recvKey (u64le pkt 8) (pkt.drop 16) [] = opened
  cases opened <;> rfl

theorem length_pad16_le (fuel : Nat) (pt : Bytes) : (pad16 fuel pt).length ≤ pt.length + fuel := by
  induction fuel generalizing pt with
  | zero => exact Nat.le_refl _
  | succ fuel ih =>
      rw [pad16]
      split
      · have hih := ih (pt ++ [0])
        rw [List.length_append, List.length_singleton] at hih
        omega
      · omega

theorem encrypt_safe (hC : Tagged C) (self : Tunnel) {inner : Bytes} (h : inner.length ≤ 65575) :
    Strict.Tunnel.encrypt C self inner = .ok (self.encrypt C inner) := by
  have hpad := length_pad16_le 16 inner
  rw [Strict.Tunnel.encrypt]
  dsimp only
  rw [wgSeal_safe, ok_bind, addUsize_ok (by rw [length_wgSeal hC]; omega), ok_bind, pure_eq,
    Tunnel.encrypt]

theorem length_encrypt_le (hC : Tagged C) (self : Tunnel) (inner : Bytes) :
    (self.encrypt C inner).1.length ≤ inner.length + 48 := by
  have hpad := length_pad16_le 16 inner
  simp only [Tunnel.encrypt, List.length_append, length_le32, length_le64, length_wgSeal hC,
    List.length_cons, List.length_nil]
  omega

theorem buildInitiation_safe (hC : Tagged C) (ourPriv ourPub peerPub : Key) (ts : Arr 12)
    (ourIndex : UInt32) (ephPriv : Key) :
    Strict.buildInitiation C ourPriv ourPub peerPub ts ourIndex ephPriv =
      .ok (buildInitiation C ourPriv ourPub peerPub ts ourIndex ephPriv) := by
  have hsealed : ∀ k (m : Key) (ad : Bytes), (wgSeal C k 0 m.1 ad).length = 48 := by
    intro k m ad
    rw [length_wgSeal hC, m.2]
  have hstamp : ∀ k (ad : Bytes), (wgSeal C k 0 ts.1 ad).length = 28 := by
    intro k ad
    rw [length_wgSeal hC, ts.2]
  rw [Strict.buildInitiation, copyArr_ok (by rfl) (by decide), ok_bind,
    copyArr_ok (by rw [length_le32]) (by decide), ok_bind]
  dsimp only
  rw [kdf1_safe, ok_bind, copyArr_ok (by rw [(pubkey C ephPriv).2]) (by decide), ok_bind, kdf2_safe,
    ok_bind]
  dsimp only
  rw [wgSeal_safe, ok_bind, copyArr_ok (by rw [hsealed]) (by decide), ok_bind, kdf2_safe, ok_bind]
  dsimp only
  rw [wgSeal_safe, ok_bind, copyArr_ok (by rw [hstamp]) (by decide), ok_bind,
    rangeArr_ok (by decide) (by decide), ok_bind,
    copyArr_ok (by rw [(mac16 C _ _).2]) (by decide), ok_bind, pure_eq]
  rfl

theorem consumeInitiation_safe (hC : Tagged C) (ourPriv ourPub : Key) (init : Bytes)
    (ourIndex : UInt32) (erPriv : Key) :
    Strict.consumeInitiation C ourPriv ourPub init ourIndex erPriv =
      .ok (consumeInitiation C ourPriv ourPub init ourIndex erPriv) := by
  have hempty : ∀ k (ad : Bytes), (wgSeal C k 0 [] ad).length = 16 := by
    intro k ad
    rw [length_wgSeal hC]
    rfl
  rw [Strict.consumeInitiation, consumeInitiation]
  by_cases hlen : init.length < initLen
  · rw [if_pos hlen, if_pos hlen]
    rfl
  rw [if_neg hlen, if_neg hlen]
  rw [initLen] at hlen
  rw [index_ok (by omega), ok_bind]
  split
  · rfl
  rw [u32leOf_ok (by omega), ok_bind, range_ok (by omega) (by omega), ok_bind,
    toArray_slice rfl (by omega), ok_bind, range_ok (by omega) (by omega), ok_bind,
    range_ok (by omega) (by omega), ok_bind]
  dsimp only
  rw [kdf1_safe, ok_bind, kdf2_safe, ok_bind]
  dsimp only
  rw [wgOpen_safe, ok_bind]
  generalize wgOpen C _ 0 (slice init 40 88) _ = static
  cases static with
  | none => rfl
  | some sIVec =>
      dsimp only
      generalize tryInto 32 sIVec = sized
      cases sized with
      | none => rfl
      | some sI =>
          dsimp only
          rw [kdf2_safe, ok_bind]
          dsimp only
          rw [wgOpen_safe, ok_bind]
          generalize wgOpen C _ 0 (slice init 88 116) _ = stamp
          cases stamp with
          | none => rfl
          | some ts =>
              dsimp only
              rw [copyArr_ok (by rfl) (by decide), ok_bind,
                copyArr_ok (by rw [length_le32]) (by decide), ok_bind,
                copyArr_ok (by rw [length_le32]) (by decide), ok_bind, kdf1_safe, ok_bind,
                copyArr_ok (by rw [(pubkey C erPriv).2]) (by decide), ok_bind, kdf1_safe, ok_bind,
                kdf1_safe, ok_bind, kdf3_safe, ok_bind]
              dsimp only
              rw [wgSeal_safe, ok_bind, copyArr_ok (by rw [hempty]) (by decide), ok_bind,
                rangeArr_ok (by decide) (by decide), ok_bind,
                copyArr_ok (by rw [(mac16 C _ _).2]) (by decide), ok_bind, kdf2_safe, ok_bind,
                pure_eq]

theorem consumeResponse_safe (self : Handshake) (resp : Bytes) :
    Strict.Handshake.consumeResponse C self resp = .ok (self.consumeResponse C resp) := by
  rw [Strict.Handshake.consumeResponse, Handshake.consumeResponse]
  by_cases hlen : resp.length < respLen
  · rw [if_pos hlen, if_pos hlen]
    rfl
  rw [if_neg hlen, if_neg hlen]
  rw [respLen] at hlen
  rw [index_ok (by omega), ok_bind]
  split
  · rfl
  rw [u32leOf_ok (by omega), ok_bind, u32leOf_ok (by omega), ok_bind]
  dsimp only
  split
  · rfl
  rw [range_ok (by omega) (by omega), ok_bind, toArray_slice rfl (by omega), ok_bind,
    range_ok (by omega) (by omega), ok_bind, kdf1_safe, ok_bind, kdf1_safe, ok_bind, kdf1_safe,
    ok_bind, kdf3_safe, ok_bind]
  dsimp only
  rw [wgOpen_safe, ok_bind]
  generalize wgOpen C _ 0 (slice resp 44 60) _ = opened
  cases opened with
  | none => rfl
  | some pt =>
      dsimp only
      split
      · rfl
      · rw [kdf2_safe, ok_bind]
        rfl

end Wg

end TailscaleRust.Proofs
