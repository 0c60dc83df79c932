import TailscaleRust.Proofs.Frame
import TailscaleRust.Proofs.Session

/-!
# The fast path and the slow path

`process_packet` and `handle_packet` take the same datagram apart in a
different order. They use different decrypt functions, which agree, and
different length guards, which do not matter: a packet between the two
bounds decrypts to nothing on either path. What is left is the STUN test.
`handle_packet` makes it before it looks at the type byte, and the bytes it
tests are where a transport packet has its receiver index. A tunnel whose
index spells the STUN cookie is therefore served by the one entry and starved
by the other.
-/

namespace TailscaleRust.Proofs

open TailscaleRust.Lib TailscaleRust.Core TailscaleRust.Core.Wg
open TailscaleRust.Firmware TailscaleRust.Firmware.Dataplane

/-- The receiver index whose little-endian bytes are the STUN cookie. -/
def stunIndex : UInt32 := 0x42a41221

/-! ## The two decrypt functions -/

theorem decrypt_eq (C : Crypto) (t : Tunnel) (pkt : Bytes) :
    match decryptTransport C t.recvKey pkt with
    | none => ∃ e, t.decrypt C pkt = .error e
    | some inner => t.decrypt C pkt = .ok inner := by
  rw [decryptTransport, Tunnel.decrypt]
  by_cases hlen : pkt.length < 32
  · rw [if_pos (.inl hlen), if_pos hlen]
    exact ⟨_, rfl⟩
  · by_cases htype : byteAt pkt 0 ≠ msgTransport
    · rw [if_pos (.inr htype), if_neg hlen, if_pos htype]
      exact ⟨_, rfl⟩
    · rw [if_neg (by rintro (h | h); exacts [hlen h, htype h]), if_neg hlen, if_neg htype]
      cases hopen : wgOpen C t.recvKey (u64le pkt 8) (pkt.drop 16) [] with
      | none =>
          simp only [hopen]
          exact ⟨_, rfl⟩
      | some inner => simp only [hopen]

/-- Opening by a copy of the key is opening by the tunnel. -/
theorem handleWgTransport_eq (C : Crypto) (F : Features) (env : Draws) (id : Identity)
    (st : State) (pkt : Bytes) (src : SocketAddr) (hlen : 16 ≤ pkt.length) :
    handleWgTransport C F env id st pkt src =
      match (st.tunnels.get? (u32le pkt 4)).bind fun e => decryptTransport C e.tun.recvKey pkt with
      | none => (st, [])
      | some inner => handleDecrypted C F env id st (u32le pkt 4) inner src := by
  rw [handleWgTransport, if_neg (by omega)]
  simp only []
  cases st.tunnels.get? (u32le pkt 4) with
  | none => rfl
  | some e =>
      have h := decrypt_eq C e.tun pkt
      cases hd : decryptTransport C e.tun.recvKey pkt with
      | none =>
          rw [hd] at h
          obtain ⟨msg, hmsg⟩ := h
          simp only [hmsg, Option.bind_some, hd]
      | some inner =>
          rw [hd] at h
          simp only [h, Option.bind_some, hd]

/-- The fast path in the words of the slow one. -/
theorem processPacket_transport (C : Crypto) (F : Features) (env : Draws) (id : Identity)
    (targets : List Target) (st : State) (tick : UInt32) {pkt : Bytes} (src : SocketAddr)
    (htype : pkt.head? = some msgTransport) (hlen : 16 ≤ pkt.length) :
    processPacket C F env id targets st tick pkt src =
      handleWgTransport C F env id st pkt src := by
  rw [processPacket, if_pos ⟨htype, hlen⟩, handleWgTransport_eq C F env id st pkt src hlen]
  simp only []
  cases st.tunnels.get? (u32le pkt 4) with
  | none => rfl
  | some e => rfl

/-! ## The demultiplexer -/

/-- A packet with any other first byte is not disco. -/
theorem not_isDisco_of_head {pkt : Bytes} {c : UInt8} (h : pkt.head? = some c) (hc : c ≠ 0x54) :
    Disco.isDisco pkt = false := by
  cases pkt with
  | nil => rfl
  | cons b rest =>
      have hb : b = c := Option.some.inj h
      subst hb
      simp [Disco.isDisco, slice, Disco.magic, hc]

/-- The cookie test of a WireGuard packet is a test of its first index. -/
theorem isStun_iff {pkt : Bytes} (hlen : 8 ≤ pkt.length) :
    Stun.isStun pkt = true ↔ u32le pkt 4 = stunIndex := by
  have hsame : le32 stunIndex = be32 Stun.magicCookie := by decide
  simp only [Stun.isStun, hlen, true_and, decide_eq_true_eq]
  rw [u32be_eq_iff (by omega), u32le_eq_iff (by omega), hsame]

/-- `handle_packet` on a transport packet. -/
theorem handlePacket_transport (C : Crypto) (F : Features) (env : Draws) (id : Identity)
    (targets : List Target) (st : State) (tick : UInt32) {pkt : Bytes} (src : SocketAddr)
    (htype : pkt.head? = some msgTransport) (hlen : 8 ≤ pkt.length) :
    handlePacket C F env id targets st tick pkt src =
      if u32le pkt 4 = stunIndex then (st, [])
      else handleWgTransport C F env id st pkt src := by
  have hinit : pkt.head? ≠ some msgInitiation := by rw [htype]; decide
  have hresp : pkt.head? ≠ some msgResponse := by rw [htype]; decide
  rw [handlePacket, not_isDisco_of_head htype (by decide)]
  simp only [Bool.false_eq_true, if_false, isStun_iff hlen, if_neg hinit, if_neg hresp,
    if_pos htype]

/-- A packet too short for the cookie is too short for a header. -/
theorem handlePacket_transport_short (C : Crypto) (F : Features) (env : Draws) (id : Identity)
    (targets : List Target) (st : State) (tick : UInt32) {pkt : Bytes} (src : SocketAddr)
    (htype : pkt.head? = some msgTransport) (hlen : ¬8 ≤ pkt.length) :
    handlePacket C F env id targets st tick pkt src = (st, []) := by
  have hinit : pkt.head? ≠ some msgInitiation := by rw [htype]; decide
  have hresp : pkt.head? ≠ some msgResponse := by rw [htype]; decide
  have hstun : Stun.isStun pkt = false := by
    simp only [Stun.isStun, decide_eq_false_iff_not]
    omega
  rw [handlePacket, not_isDisco_of_head htype (by decide), hstun]
  simp only [Bool.false_eq_true, if_false, if_neg hinit, if_neg hresp, if_pos htype]
  rw [handleWgTransport, if_pos (by omega)]

/-- A packet the fast path accepts moves its tunnel to the packet's source. -/
theorem handleDecrypted_addr (C : Crypto) (F : Features) (env : Draws) (id : Identity)
    {st : State} {i : UInt32} (inner : Bytes) (src : SocketAddr) {e : TunnelEntry}
    (he : st.tunnels.get? i = some e) :
    ∃ e', (handleDecrypted C F env id st i inner src).1.tunnels.get? i = some e' ∧
      e'.addr = src := by
  have hmod : (st.tunnels.modify i fun e => { e with addr := src }).get? i =
      some { e with addr := src } := by
    rw [Table.get?_modify, if_pos rfl, he]
    rfl
  obtain ⟨e', hget, hfix⟩ := (handleDecrypted_frame C F env id st i inner src he).get? hmod
  exact ⟨e', hget, fixedPart_addr hfix⟩

/-- An address that is not this one. -/
def otherAddr : SocketAddr → SocketAddr
  | .v4 ip port => .v4 ip (port + 1)
  | .v6 .. => .v4 (Arr.zero 4) 0

theorem otherAddr_ne (a : SocketAddr) : otherAddr a ≠ a := by
  cases a with
  | v4 ip port =>
      intro h
      have hport : port + 1 = port := (SocketAddr.v4.inj h).2
      have hnat := congrArg UInt16.toNat hport
      have hlt := port.toNat_lt
      rw [UInt16.toNat_add, show (1 : UInt16).toNat = 1 from rfl] at hnat
      omega
  | v6 ip port flow scope =>
      intro h
      cases h

/-! ## Where the two entries agree -/

/-- The two entries treat a datagram alike, whatever its source, unless it
is a transport packet for the index that spells the STUN cookie and the
tunnel under that index accepts it. -/
theorem fastPath_eq_slowPath_iff (C : Crypto) (F : Features) (env : Draws) (id : Identity)
    (targets : List Target) (st : State) (tick : UInt32) (pkt : Bytes) :
    (∀ src, processPacket C F env id targets st tick pkt src =
      handlePacket C F env id targets st tick pkt src) ↔
    ¬ ∃ e inner, pkt.head? = some msgTransport ∧ u32le pkt 4 = stunIndex ∧
      st.tunnels.get? stunIndex = some e ∧
      decryptTransport C e.tun.recvKey pkt = some inner := by
  refine ⟨?_, ?_⟩
  · rintro hsame ⟨e, inner, htype, hidx, he, hdec⟩
    have hlen : ¬ pkt.length < 32 := by
      intro hshort
      rw [decryptTransport, if_pos (.inl hshort)] at hdec
      cases hdec
    have heq := hsame (otherAddr e.addr)
    rw [processPacket_transport C F env id targets st tick _ htype (by omega),
      handlePacket_transport C F env id targets st tick _ htype (by omega), if_pos hidx,
      handleWgTransport_eq C F env id st pkt _ (by omega), hidx, he, Option.bind_some,
      hdec] at heq
    obtain ⟨e', hget, haddr⟩ :=
      handleDecrypted_addr C F env id inner (otherAddr e.addr) he
    rw [show handleDecrypted C F env id st stunIndex inner (otherAddr e.addr) = (st, [])
      from heq, he] at hget
    have hee : e = e' := Option.some.inj hget
    subst hee
    exact otherAddr_ne e.addr haddr.symm
  · intro hnone src
    by_cases hfast : pkt.head? = some msgTransport ∧ pkt.length ≥ 16
    · obtain ⟨htype, hlen⟩ := hfast
      rw [processPacket_transport C F env id targets st tick src htype hlen,
        handlePacket_transport C F env id targets st tick src htype (by omega)]
      split
      · next hidx =>
          rw [handleWgTransport_eq C F env id st pkt src hlen, hidx]
          cases he : st.tunnels.get? stunIndex with
          | none => rfl
          | some e =>
              cases hdec : decryptTransport C e.tun.recvKey pkt with
              | none => simp only [Option.bind_some, hdec]
              | some inner => exact absurd ⟨e, inner, htype, hidx, he, hdec⟩ hnone
      · rfl
    · rw [processPacket, if_neg hfast]

section Starved

def zeroIdentity : Identity := ⟨Arr.zero 32, Arr.zero 32, Arr.zero 32, Arr.zero 32, none⟩

def zeroDraws : Draws where
  index := 0
  ephemeral := Arr.zero 32
  nonce := Arr.zero 24
  unixSecs := 0
  unixNanos := 0
  serverIss := 0
  proxyIss := 0
  lanFetch := fun _ => []
  sendOk := true

/-- One tunnel, whose index `random_index` happened to draw as the cookie. -/
def starvedState : State := { State.empty with
  tunnels := Table.empty.insert stunIndex
    ⟨zeroTunnel 1 stunIndex, .v4 (Arr.zero 4) 1, Arr.zero 32, Tcp.TcpServer.new⟩ }

/-- The peer's keepalive. -/
def starvedPacket : Bytes := ((zeroTunnel stunIndex 1).keepalive transparent).1

/-- The keepalive moves the tunnel on the fast path and is dropped on the
slow one. -/
theorem fastPath_ne_slowPath :
    processPacket transparent defaultFeatures zeroDraws zeroIdentity [] starvedState 0
        starvedPacket (.v4 (Arr.zero 4) 2) ≠
      handlePacket transparent defaultFeatures zeroDraws zeroIdentity [] starvedState 0
        starvedPacket (.v4 (Arr.zero 4) 2) := by
  intro h
  have haddr := congrArg (fun r => (r.1.tunnels.get? stunIndex).map TunnelEntry.addr) h
  revert haddr
  decide +kernel

end Starved

end TailscaleRust.Proofs
