import TailscaleRust.Core.Disco

/-!
# Disco messages arrive as they were sent

Four layouts go through one decoder. It reads a transaction id from every
message, also from the two that have none, and cuts the rest of an endpoint
list into pieces of 18 bytes; a piece that is no IPv4 address is skipped.
So what arrives of an address is `asV4`: the address itself if it is IPv4,
its IPv4 address if it is a mapped one, and nothing otherwise.

The box is `Crypto.BoxLawful`. Nothing is said about messages that nobody
sealed.
-/

namespace TailscaleRust.Proofs

open TailscaleRust.Lib TailscaleRust.Core TailscaleRust.Core.Disco

/-- What an IPv4-only receiver makes of an address. -/
def asV4 : SocketAddr → Option SocketAddr
  | .v4 ip port => some (.v4 ip port)
  | .v6 ip port _ _ =>
      if slice ip.1 0 10 = zeros 10 ∧ byteAt ip.1 10 = 0xff ∧ byteAt ip.1 11 = 0xff then
        some (.v4 (arrAt ip.1 12 4) port)
      else none

/-! ## Addresses -/

/-- A record is 16 address bytes and a port. -/
theorem bytesToAddr_record (ip : Ipv6Addr) (port : UInt16) :
    bytesToAddr (ip.1 ++ be16 port) = asV4 (.v6 ip port 0 0) := by
  have hlen : ¬(ip.1 ++ be16 port).length < 18 := by simp [ip.2]
  have hport : u16be (ip.1 ++ be16 port) 16 = port := by
    refine u16be_of_slice ?_
    rw [slice_append_right (by omega), ip.2]
    exact slice_self (by simp)
  have hip : arrAt (ip.1 ++ be16 port) 12 4 = arrAt ip.1 12 4 := by
    have hfour : (slice ip.1 12 16).length = 4 := by rw [length_slice (by omega)]
    have harr : arrAt ip.1 12 4 = ⟨slice ip.1 12 16, hfour⟩ := arrAt_eq rfl
    rw [harr]
    exact arrAt_eq (slice_append_left (by omega))
  rw [bytesToAddr, if_neg hlen, asV4, slice_append_left (by omega),
    byteAt_append_left (by omega), byteAt_append_left (by omega), hport, hip]

theorem bytesToAddr_addrToBytes (a : SocketAddr) : bytesToAddr (addrToBytes a).1 = asV4 a := by
  cases a with
  | v4 ip port =>
      have hmapped : (zeros 10 ++ [0xff, 0xff] ++ ip.1).length = 16 := by simp [ip.2]
      have hrec := bytesToAddr_record ⟨zeros 10 ++ [0xff, 0xff] ++ ip.1, hmapped⟩ port
      have harr : arrAt (zeros 10 ++ [0xff, 0xff] ++ ip.1) 12 4 = ip := by
        refine arrAt_eq ?_
        rw [slice_append_right (by simp)]
        exact slice_self (by simp [ip.2])
      have hzeros : slice (zeros 10 ++ [0xff, 0xff] ++ ip.1) 0 10 = zeros 10 := rfl
      rw [asV4, if_pos ⟨hzeros, rfl, rfl⟩, harr] at hrec
      exact hrec
  | v6 ip port flowinfo scopeId => exact bytesToAddr_record ip port

/-- Pieces of 18 bytes are what the list was put together from. -/
theorem chunks18_flatten {pieces : List Bytes} (h : ∀ p ∈ pieces, p.length = 18) {n : Nat}
    (hn : pieces.length ≤ n) : chunks18 n pieces.flatten = pieces := by
  induction pieces generalizing n with
  | nil => cases n <;> rfl
  | cons p ps ih =>
      cases n with
      | zero => simp at hn
      | succ n =>
          have hp : p.length = 18 := h p List.mem_cons_self
          have hne : (p :: ps).flatten ≠ [] := by
            intro hnil
            have hlen := congrArg List.length hnil
            simp only [List.flatten_cons, List.length_append, List.length_nil] at hlen
            omega
          have hrest := ih (fun q hq => h q (List.mem_cons_of_mem p hq))
            (Nat.le_of_succ_le_succ hn)
          rw [chunks18, if_neg hne, List.flatten_cons, ← hp, List.take_left, List.drop_left,
            hrest]

/-! ## Packets -/

/-- What the receiver reads off a plaintext. -/
def decodePlaintext (sender : Key) (pt : Bytes) : Incoming where
  senderDiscoPub := sender
  msgType := byteAt pt 0
  txid := arrAt pt 2 12
  endpoints :=
    if byteAt pt 0 = callMeMaybe ∨ byteAt pt 0 = reverseConnect then
      (chunks18 pt.length (pt.drop 2)).filterMap bytesToAddr
    else []
  observedSrc :=
    if byteAt pt 0 = pong ∧ pt.length ≥ 32 then bytesToAddr (slice pt 14 32) else none

/-- The plaintext is sealed to the receiver, taken for disco and opened. -/
def Arrives (C : Crypto) (privA privB : Key) (nonce : Arr 24) (pt : Bytes) (msg : Incoming) :
    Prop :=
  ∃ wire, sealPacket C privA (C.x25519Public privA) (C.x25519Public privB) pt nonce = .ok wire ∧
    isDisco wire = true ∧ openPacket C privB wire = .ok msg

/-- The fields of a packet, where the decoder looks for them. -/
theorem wire_fields (sender : Key) (nonce : Arr 24) (ct : Bytes) :
    slice (magic ++ sender.1 ++ nonce.1 ++ ct) 0 6 = magic ∧
    arrAt (magic ++ sender.1 ++ nonce.1 ++ ct) 6 32 = sender ∧
    arrAt (magic ++ sender.1 ++ nonce.1 ++ ct) 38 24 = nonce ∧
    (magic ++ sender.1 ++ nonce.1 ++ ct).drop 62 = ct := by
  have hmagic : magic.length = 6 := rfl
  have hsender : (magic ++ sender.1).length = 38 := by rw [List.length_append, sender.2, hmagic]
  have hhead : (magic ++ sender.1 ++ nonce.1).length = 62 := by
    rw [List.length_append, hsender, nonce.2]
  refine ⟨rfl, arrAt_eq ?_, arrAt_eq ?_, ?_⟩
  · rw [slice_append_left (by omega), slice_append_left (by omega),
      slice_append_right (by omega), hmagic]
    exact slice_self (by rw [sender.2])
  · rw [slice_append_left (by omega), slice_append_right (by omega), hsender]
    exact slice_self (by rw [nonce.2])
  · rw [← hhead]
    exact List.drop_left

theorem arrives_plaintext {C : Crypto} (hC : C.BoxLawful) (privA privB : Key) (nonce : Arr 24)
    {pt : Bytes} (hpt : 14 ≤ pt.length) :
    Arrives C privA privB nonce pt (decodePlaintext (C.x25519Public privA) pt) := by
  obtain ⟨ct, hseal, hlen, hopen⟩ := hC.open_seal privA privB nonce pt
  obtain ⟨hmagic, hsender, hnonce, hrest⟩ := wire_fields (C.x25519Public privA) nonce ct
  have hlong : (magic ++ (C.x25519Public privA).1 ++ nonce.1 ++ ct).length = 62 + ct.length := by
    simp only [List.length_append, (C.x25519Public privA).2, nonce.2, magic, List.length_cons,
      List.length_nil]
  refine ⟨magic ++ (C.x25519Public privA).1 ++ nonce.1 ++ ct, ?_, ?_, ?_⟩
  · rw [sealPacket, hseal]
  · rw [isDisco]
    exact decide_eq_true ⟨by omega, hmagic⟩
  · rw [openPacket, if_neg]
    · simp only [hsender, hnonce, hrest, hopen, if_neg (show ¬pt.length < 14 by omega)]
      rfl
    · intro h
      rcases h with h | h
      · rw [hlong, hlen, hdr] at h
        omega
      · exact h hmagic

/-! ## The four messages -/

theorem decode_txid (sender : Key) (t v : UInt8) (txid : Arr 12) (rest : Bytes) :
    (decodePlaintext sender ([t, v] ++ txid.1 ++ rest)).txid = txid := by
  refine arrAt_eq ?_
  rw [slice_append_left (by simp [txid.2]), slice_append_right (by simp)]
  exact slice_self (by simp [txid.2])

/-- An endpoint list comes out as the addresses a receiver can use. -/
theorem decode_endpoints (sender : Key) {t : UInt8} (eps : List SocketAddr)
    (ht : t = callMeMaybe ∨ t = reverseConnect) :
    (decodePlaintext sender (endpointsPlaintext t eps)).endpoints = eps.filterMap asV4 := by
  have hbody : (endpointsPlaintext t eps).drop 2 =
      (eps.map fun e => (addrToBytes e).1).flatten := rfl
  have hchunks : chunks18 (endpointsPlaintext t eps).length
      ((endpointsPlaintext t eps).drop 2) = eps.map fun e => (addrToBytes e).1 := by
    rw [hbody]
    refine chunks18_flatten ?_ ?_
    · intro p hp
      obtain ⟨e, -, rfl⟩ := List.mem_map.mp hp
      exact (addrToBytes e).2
    · have hsum : ∀ l : List SocketAddr,
          l.length ≤ (l.flatMap fun e => (addrToBytes e).1).length := by
        intro l
        induction l with
        | nil => exact Nat.le_refl 0
        | cons e es ih =>
            rw [List.flatMap_cons, List.length_append, (addrToBytes e).2, List.length_cons]
            omega
      have := hsum eps
      rw [List.length_map, endpointsPlaintext, List.length_append]
      omega
  have hty : byteAt (endpointsPlaintext t eps) 0 = t := rfl
  rw [decodePlaintext]
  simp only [hty, if_pos ht, hchunks, List.filterMap_map]
  refine congrArg (fun f => eps.filterMap f) (funext fun e => ?_)
  exact bytesToAddr_addrToBytes e

/-- A message of each kind arrives with its sender and its type; a PING and a
PONG with their transaction id, a PONG with the address it reports, and the
other two with the endpoints they announce. -/
theorem disco_round_trip (C : Crypto) (hC : C.BoxLawful) (privA privB : Key) (nonce : Arr 24)
    (txid : Arr 12) (nodePub : Key) (src : SocketAddr) (eps : List SocketAddr) (hne : eps ≠ []) :
    (∃ msg, Arrives C privA privB nonce (pingPlaintext txid nodePub) msg ∧
      msg.senderDiscoPub = C.x25519Public privA ∧ msg.msgType = ping ∧ msg.txid = txid ∧
      msg.endpoints = [] ∧ msg.observedSrc = none) ∧
    (∃ msg, Arrives C privA privB nonce (pongPlaintext txid src) msg ∧
      msg.senderDiscoPub = C.x25519Public privA ∧ msg.msgType = pong ∧ msg.txid = txid ∧
      msg.endpoints = [] ∧ msg.observedSrc = asV4 src) ∧
    (∃ msg, Arrives C privA privB nonce (callMeMaybePlaintext eps) msg ∧
      msg.senderDiscoPub = C.x25519Public privA ∧ msg.msgType = callMeMaybe ∧
      msg.endpoints = eps.filterMap asV4 ∧ msg.observedSrc = none) ∧
    (∃ msg, Arrives C privA privB nonce (reverseConnectPlaintext eps) msg ∧
      msg.senderDiscoPub = C.x25519Public privA ∧ msg.msgType = reverseConnect ∧
      msg.endpoints = eps.filterMap asV4 ∧ msg.observedSrc = none) := by
  have hlist : ∀ t, 14 ≤ (endpointsPlaintext t eps).length := by
    intro t
    obtain ⟨e, es, rfl⟩ := List.exists_cons_of_ne_nil hne
    rw [endpointsPlaintext, List.flatMap_cons, List.length_append, List.length_append,
      (addrToBytes e).2]
    omega
  refine ⟨?_, ?_, ?_, ?_⟩
  · refine ⟨_, arrives_plaintext hC privA privB nonce ?_, rfl, rfl, decode_txid .., rfl, rfl⟩
    simp [pingPlaintext, txid.2]
  · refine ⟨_, arrives_plaintext hC privA privB nonce ?_, rfl, rfl, decode_txid .., rfl, ?_⟩
    · simp [pongPlaintext, txid.2]
    · have hlen : (pongPlaintext txid src).length = 32 := by
        simp [pongPlaintext, txid.2, (addrToBytes src).2]
      have hsrc : slice (pongPlaintext txid src) 14 32 = (addrToBytes src).1 := by
        rw [pongPlaintext, slice_append_right (by simp [txid.2])]
        simp only [List.length_append, List.length_cons, List.length_nil, txid.2]
        exact slice_self (by rw [(addrToBytes src).2])
      rw [decodePlaintext]
      simp only [hsrc, hlen, bytesToAddr_addrToBytes]
      rfl
  · exact ⟨_, arrives_plaintext hC privA privB nonce (hlist _), rfl, rfl,
      decode_endpoints _ eps (.inl rfl), rfl⟩
  · exact ⟨_, arrives_plaintext hC privA privB nonce (hlist _), rfl, rfl,
      decode_endpoints _ eps (.inr rfl), rfl⟩

/-- Three endpoints, of which one is native IPv6 and one is mapped. -/
def threeEndpoints : List SocketAddr :=
  [.v4 ⟨[10, 0, 0, 1], rfl⟩ 41641, .v6 ⟨0x20 :: zeros 15, rfl⟩ 41641 0 0,
    .v6 ⟨zeros 10 ++ [0xff, 0xff, 10, 0, 0, 2], rfl⟩ 41641 0 0]

theorem disco_round_trip_three :
    ∃ msg, Arrives transparent (byteKey 3) (byteKey 5) ⟨List.replicate 24 7, rfl⟩
        (callMeMaybePlaintext threeEndpoints) msg ∧
      msg.endpoints = [.v4 ⟨[10, 0, 0, 1], rfl⟩ 41641, .v4 ⟨[10, 0, 0, 2], rfl⟩ 41641] := by
  obtain ⟨-, -, ⟨msg, harr, -, -, heps, -⟩, -⟩ := disco_round_trip transparent
    transparent_boxLawful (byteKey 3) (byteKey 5) ⟨List.replicate 24 7, rfl⟩ (Arr.zero 12)
    (byteKey 3) (.v4 ⟨[192, 168, 4, 20], rfl⟩ 41641) threeEndpoints (List.cons_ne_nil _ _)
  refine ⟨msg, harr, heps.trans ?_⟩
  decide

end TailscaleRust.Proofs
