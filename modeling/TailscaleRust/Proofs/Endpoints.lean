import TailscaleRust.Firmware.Device
import TailscaleRust.Firmware.Magicsock
import TailscaleRust.Proofs.DeviceProbes
import TailscaleRust.Proofs.DiscoCodec

/-!
# Our endpoints, at the other end

What a node finds out about its own addresses goes a long way: it is printed,
parsed again for the relay client, packed into 18 bytes for each address,
sealed, relayed, opened, unpacked, and offered to the data plane of the peer.
Nothing is lost or added on the way. The printed addresses are parsed to
themselves, and both being IPv4 they survive the packing.
-/

namespace TailscaleRust.Proofs.Endpoints

open TailscaleRust.Lib TailscaleRust.Core TailscaleRust.Core.Wg TailscaleRust.Core.AddrText
open TailscaleRust.Core.Stun TailscaleRust.Core.Tcp TailscaleRust.Core.Peers
open TailscaleRust.Firmware TailscaleRust.Firmware.Dataplane TailscaleRust.Firmware.Derp
open TailscaleRust.Firmware.Startup TailscaleRust.Firmware.Magicsock
open TailscaleRust.Proofs.DerpSession TailscaleRust.Proofs.Relay
open TailscaleRust.Proofs.LanTargets TailscaleRust.Proofs.DeviceSends
open TailscaleRust.Proofs.DeviceProbes

/-! ## Printing and parsing -/

theorem noDigit_cons {c : UInt8} (h : 10 ≤ digitValue c) (rest : Bytes) :
    NoDigit 10 (c :: rest) := by
  intro b hb
  cases hb
  exact h

theorem readOctet_decimal (a : UInt8) {rest : Bytes} (h : NoDigit 10 rest) :
    readOctet (decimal a.toNat ++ rest) = some (a, rest) := by
  have hlt := a.toNat_lt
  have hread : readNumber 10 (some 3) false 255 (decimal a.toNat ++ rest) =
      some (a.toNat, rest) :=
    (readNumber_ten_iff (by decide) (by decide)).mpr ⟨by rw [decimal_eq], by omega, h⟩
  rw [readOctet, hread, Option.map_some, UInt8.ofNat_toNat]

theorem readSeparator_cons {α : Type} (sep : UInt8) (i : Nat)
    (inner : Bytes → Option (α × Bytes)) (s : Bytes) :
    readSeparator sep (i + 1) inner (sep :: s) = inner s := by
  rw [readSeparator, if_pos (Nat.succ_pos i), readGivenChar, if_pos rfl, Option.bind_some]

theorem quad_eq (ip : Ipv4Addr) :
    (⟨[byteAt ip.1 0, byteAt ip.1 1, byteAt ip.1 2, byteAt ip.1 3], rfl⟩ : Ipv4Addr) = ip := by
  obtain ⟨b, hb⟩ := ip
  match b, hb with
  | [_, _, _, _], _ => rfl

theorem readIpv4Addr_dotted (ip : Ipv4Addr) {rest : Bytes} (h : NoDigit 10 rest) :
    readIpv4Addr (dotted ip ++ rest) = some (ip, rest) := by
  have hdot : ∀ s, NoDigit 10 (46 :: s) := noDigit_cons (by decide)
  have hread : readOctet (dotted ip ++ rest) = some (byteAt ip.1 0,
      46 :: (decimal (byteAt ip.1 1).toNat ++ 46 :: (decimal (byteAt ip.1 2).toNat ++
        46 :: (decimal (byteAt ip.1 3).toNat ++ rest)))) := by
    rw [dotted_eq, lanText]
    simp only [List.append_assoc, List.cons_append, List.nil_append]
    exact readOctet_decimal _ (hdot _)
  have hfirst : readSeparator 46 0 readOctet (dotted ip ++ rest) =
      readOctet (dotted ip ++ rest) := if_neg (Nat.lt_irrefl 0)
  simp only [readIpv4Addr, hfirst, hread, readSeparator_cons, bind, Option.bind_some,
    readOctet_decimal _ (hdot _), readOctet_decimal _ h]
  exact congrArg (fun q => some (q, rest)) (quad_eq ip)

/-- An address is parsed to itself. -/
theorem parse_endpointText (ip : Ipv4Addr) (port : UInt16) :
    parseSocketAddr (endpointText ip port) = some (.v4 ip port) := by
  have hlt := port.toNat_lt
  have hcolon : NoDigit 10 (58 :: decimal port.toNat) := noDigit_cons (by decide) _
  have hend : NoDigit 10 [] := fun b hb => by cases hb
  have hnumber : readNumber 10 none true 65535 (decimal port.toNat) = some (port.toNat, []) := by
    rw [decimal_eq, ← List.append_nil (decimalDigits port.toNat)]
    exact readNumber_decimalDigits (by omega) hend
  have hport : readPort (58 :: decimal port.toNat) = some (port, []) := by
    simp only [readPort, readGivenChar, if_pos, bind, Option.bind_some, hnumber]
    rw [UInt16.ofNat_toNat]
    rfl
  have hread : readSocketAddr (endpointText ip port) = some (.v4 ip port, []) := by
    rw [readSocketAddr, endpointText, readSocketAddrV4, readIpv4Addr_dotted ip hcolon]
    simp only [bind, Option.bind_some, hport]
    rfl
  rw [parseSocketAddr, hread]

/-- The addresses that `main` has found out. -/
def ownAddrs (lanIp : Ipv4Addr) (localPort : UInt16) (stun : Except String SocketAddrV4) :
    List SocketAddr :=
  .v4 lanIp localPort ::
    match stun with
    | .ok addr => [.v4 addr.1 addr.2]
    | .error _ => []

theorem parse_ownEndpoints (lanIp : Ipv4Addr) (localPort : UInt16)
    (stun : Except String SocketAddrV4) :
    (ownEndpoints lanIp localPort stun).filterMap parseSocketAddr =
      ownAddrs lanIp localPort stun := by
  cases stun with
  | ok addr =>
      show [endpointText lanIp localPort, endpointText addr.1 addr.2].filterMap _ = _
      rw [List.filterMap_cons_some (parse_endpointText lanIp localPort),
        List.filterMap_cons_some (parse_endpointText addr.1 addr.2)]
      rfl
  | error e =>
      show [endpointText lanIp localPort].filterMap _ = _
      rw [List.filterMap_cons_some (parse_endpointText lanIp localPort)]
      rfl

/-- They are all IPv4. -/
theorem asV4_ownAddrs (lanIp : Ipv4Addr) (localPort : UInt16)
    (stun : Except String SocketAddrV4) :
    (ownAddrs lanIp localPort stun).filterMap asV4 = ownAddrs lanIp localPort stun := by
  cases stun with
  | ok addr => rfl
  | error e => rfl

/-! ## The query -/

/-- An address that the query reports came in a STUN message with its
transaction id, in one of the three attempts. -/
theorem stunAttempts_ok {server : String} {txid : Arr 12} {attempts : Nat → Attempt}
    {left i : Nat} {lastErr : String} {addr : SocketAddrV4}
    (h : stunAttempts server txid attempts left i lastErr = .ok addr) :
    ∃ j < i + left, ∃ datagram, (attempts j).received = .ok datagram ∧
      parseResponse (datagram.take 512) txid = .ok addr := by
  induction left generalizing i lastErr with
  | zero => cases h
  | succ left ih =>
      have hlater : ∀ {lastErr}, stunAttempts server txid attempts left (i + 1) lastErr = .ok addr →
          ∃ j < i + (left + 1), ∃ datagram, (attempts j).received = .ok datagram ∧
            parseResponse (datagram.take 512) txid = .ok addr := by
        intro lastErr h
        obtain ⟨j, hj, hfound⟩ := ih h
        exact ⟨j, by omega, hfound⟩
      rw [stunAttempts] at h
      split at h
      · cases h
      · split at h
        · exact hlater h
        · next datagram hreceived =>
            simp only [] at h
            split at h
            · exact hlater h
            · exact ⟨i, by omega, datagram, hreceived, h⟩

theorem stunPublicAddr_ok {server : String} {target : Except String SocketAddr} {txid : Arr 12}
    {attempts : Nat → Attempt} {addr : SocketAddrV4}
    (h : stunPublicAddr server target txid attempts = .ok addr) :
    ∃ j < 3, ∃ datagram, (attempts j).received = .ok datagram ∧
      parseResponse (datagram.take 512) txid = .ok addr := by
  unfold stunPublicAddr at h
  split at h
  · cases h
  · exact stunAttempts_ok h

/-! ## From one device to another -/

section Announcement

variable {C : Crypto} (hC : C.BoxLawful)
include hC

/-- A list of endpoints sealed for a peer arrives there as it is. -/
theorem callMeMaybe_arrives (privA privB : Key) (nonce : Arr 24) {eps : List SocketAddr}
    (hne : eps ≠ []) (hv4 : eps.filterMap asV4 = eps) :
    ∃ wire msg, Disco.sealPacket C privA (pubkey C privA) (pubkey C privB)
        (Disco.callMeMaybePlaintext eps) nonce = .ok wire ∧
      Disco.openPacket C privB wire = .ok msg ∧ msg.msgType = Disco.callMeMaybe ∧
      msg.endpoints = eps := by
  have hlen : 14 ≤ (Disco.callMeMaybePlaintext eps).length := by
    obtain ⟨e, es, rfl⟩ := List.exists_cons_of_ne_nil hne
    rw [Disco.callMeMaybePlaintext, Disco.endpointsPlaintext, List.flatMap_cons,
      List.length_append, List.length_append, (Disco.addrToBytes e).2]
    omega
  obtain ⟨wire, hseal, -, hopen⟩ := arrives_plaintext hC privA privB nonce hlen
  have heps := decode_endpoints (C.x25519Public privA) (t := Disco.callMeMaybe) eps (.inl rfl)
  exact ⟨wire, _, hseal, hopen, rfl, heps.trans hv4⟩

/-- The first packet of a peer makes the relay client announce our endpoints to
it, before it does anything else with the packet. -/
theorem contact_announces (F : Features) (packetFilter : Bool) {keys keys' : Keys.NodeKeys}
    {m : Netmap} {k : Key} {p : PeerInfo} {eps : List SocketAddr} {s : DeviceState}
    {g : RelayFrame} (hpub : keys.disco.publicKey = pubkey C keys.disco.privateKey)
    (hpub' : keys'.disco.publicKey = pubkey C keys'.disco.privateKey)
    (hown : m.endpoints.filterMap parseSocketAddr = eps) (hne : eps ≠ [])
    (hv4 : eps.filterMap asV4 = eps)
    (hp : m.peers.find? (fun p => p.nodeKey = k) = some p)
    (hdisco : p.discoKey = keys'.disco.publicKey)
    (hg : Relay.Carries g) (hsource : source g = k) (hnew : k ∉ s.relay.upgraded) :
    ∃ w rest msg, ((deviceOf C F keys m packetFilter true).step s (.frame g)).2.2 =
        ⟨k, w⟩ :: rest ∧
      Disco.openPacket C keys'.disco.privateKey w = .ok msg ∧ msg.msgType = Disco.callMeMaybe ∧
      msg.endpoints = eps := by
  obtain ⟨w, msg, hseal, hopen, htype, heps⟩ := callMeMaybe_arrives hC keys.disco.privateKey
    keys'.disco.privateKey g.env.upgradeNonce hne hv4
  let D := deviceOf C F keys m packetFilter true
  have hfirst : (contact C D.host.identity D.upgrade g.env s.relay k).2.packets = [⟨k, w⟩] := by
    have hup : D.upgrade = some (buildUpgrade m.peers m.endpoints) := rfl
    have hours : (buildUpgrade m.peers m.endpoints).ourEndpoints = eps := hown
    have hid : D.host.identity.discoPub = pubkey C keys.disco.privateKey := hpub
    rw [hup, contact_some, if_neg hnew, tryUpgrade, find_buildUpgrade hp]
    simp only []
    rw [if_neg fun h => hne (hours ▸ h.2), hours, hid, hdisco, hpub']
    simp only [D, deviceOf, runHost, identityOf, hseal]
  subst hsource
  have hsent : (D.step s (.frame g)).2.2 = _ := congrArg (fun r => r.2.packets)
    (serveFrame_carries D.host.crypto D.host.features D.host.identity D.upgrade s.relay hg)
  refine ⟨w, (dispatch C F D.host.identity D.upgrade g.env
    (contact C D.host.identity D.upgrade g.env s.relay (source g)).1 (source g)
    (g.payload.drop 32)).2.packets, msg, hsent.trans ?_, hopen, htype, heps⟩
  exact congrArg (· ++ _) hfirst

end Announcement

theorem mem_ownAddrs {lanIp : Ipv4Addr} {localPort : UInt16} {stun : Except String SocketAddrV4}
    {a : SocketAddr} :
    a ∈ ownAddrs lanIp localPort stun ↔
      a = .v4 lanIp localPort ∨ ∃ addr, stun = .ok addr ∧ a = .v4 addr.1 addr.2 := by
  unfold ownAddrs
  rw [List.mem_cons]
  refine or_congr_right ?_
  cases stun with
  | ok addr =>
      refine List.mem_singleton.trans ⟨fun h => ⟨addr, rfl, h⟩, ?_⟩
      rintro ⟨addr', heq, h⟩
      cases heq
      exact h
  | error e =>
      refine ⟨fun h => absurd h List.not_mem_nil, ?_⟩
      rintro ⟨addr, heq, -⟩
      cases heq

/-- The first packet of a peer over the relay makes a device send it its
endpoints. A frame in which this packet comes announces to the peer the address
of the device on its LAN and, if the STUN query succeeded, the address that
came with its transaction id in a reply to one of three attempts; and it
announces nothing else. -/
theorem endpoints_reach_peer (C : Crypto) (hC : C.BoxLawful) (F F' : Features)
    (keys keys' : Keys.NodeKeys) (m m' : Netmap) (packetFilter packetFilter' derpUpgrade' : Bool)
    (localPort : UInt16) (server : String) (target : Except String SocketAddr) (txid : Arr 12)
    (attempts : Nat → Attempt) (stun : Except String SocketAddrV4) (k : Key) (p : PeerInfo)
    (s : DeviceState) (g : RelayFrame)
    (hpub : keys.disco.publicKey = pubkey C keys.disco.privateKey)
    (hpub' : keys'.disco.publicKey = pubkey C keys'.disco.privateKey)
    (hstun : stunPublicAddr server target txid attempts = stun)
    (hown : m.endpoints = ownEndpoints m.lanIp localPort stun)
    (hp : m.peers.find? (fun p => p.nodeKey = k) = some p)
    (hdisco : p.discoKey = keys'.disco.publicKey)
    (hg : Relay.Carries g) (hsource : source g = k) (hnew : k ∉ s.relay.upgraded) :
    ∃ w rest, ((deviceOf C F keys m packetFilter true).step s (.frame g)).2.2 = ⟨k, w⟩ :: rest ∧
      (∀ f : RelayFrame, f.payload.drop 32 = w → ∀ a,
        Announces (deviceOf C F' keys' m' packetFilter' derpUpgrade') f a ↔
          a = .v4 m.lanIp localPort ∨ ∃ addr, stun = .ok addr ∧ a = .v4 addr.1 addr.2) ∧
      ∀ addr, stun = .ok addr → ∃ j < 3, ∃ datagram, (attempts j).received = .ok datagram ∧
        parseResponse (datagram.take 512) txid = .ok addr := by
  have hparsed : m.endpoints.filterMap parseSocketAddr = ownAddrs m.lanIp localPort stun := by
    rw [hown]
    exact parse_ownEndpoints m.lanIp localPort stun
  have hne : ownAddrs m.lanIp localPort stun ≠ [] := List.cons_ne_nil _ _
  obtain ⟨w, rest, msg, hsent, hopen, htype, heps⟩ := contact_announces hC F packetFilter hpub
    hpub' hparsed hne (asV4_ownAddrs m.lanIp localPort stun) hp hdisco hg hsource hnew
  refine ⟨w, rest, hsent, fun f hf a => ?_, fun addr haddr => stunPublicAddr_ok (hstun.trans haddr)⟩
  rw [← mem_ownAddrs, ← heps]
  refine ⟨?_, fun ha => ⟨msg, hf ▸ hopen, htype, ha⟩⟩
  rintro ⟨msg', hopen', -, ha⟩
  have hsame : Disco.openPacket C keys'.disco.privateKey w = .ok msg' := hf ▸ hopen'
  rw [hopen] at hsame
  cases hsame
  exact ha

/-! A device on 192.168.1.8 whose first STUN request is lost, and a peer with
keys of its own. -/

private def keysOf (b : UInt8) : Keys.NodeKeys :=
  let kp := Keys.Keypair.fromPrivate transparent (byteKey b)
  ⟨kp, kp, kp⟩

private def natReply : Bytes :=
  [1, 1, 0, 12] ++ be32 magicCookie ++ zeros 12 ++ [0, 0x20, 0, 8, 0, 1, 0x83, 0xbb] ++
    be32 (0xcb007106 ^^^ magicCookie)

private def lateReply (i : Nat) : Attempt :=
  ⟨.ok (), if i = 0 then .error "timed out" else .ok natReply⟩

private def natAddr : SocketAddrV4 := (⟨[203, 0, 113, 6], rfl⟩, 41641)

private theorem natAddr_answered :
    stunPublicAddr "stun" (.ok (.v4 (Arr.zero 4) 3478)) (Arr.zero 12) lateReply = .ok natAddr := by
  decide +kernel

private def announcingMap : Netmap where
  peers := [⟨byteKey 5, (keysOf 5).disco.publicKey, none, [], [], none⟩]
  allowedSrcs := none
  ourIp := none
  lanIp := ⟨[192, 168, 1, 8], rfl⟩
  endpoints := ownEndpoints ⟨[192, 168, 1, 8], rfl⟩ 41641 (.ok natAddr)
  outboundIp := []
  httpPort := 80
  httpPath := []
  partnerIp := []

private def firstPacket : RelayFrame :=
  relayed (byteKey 5) [9] ⟨0, Arr.zero 32, Arr.zero 24, Arr.zero 24, 0⟩

/-- Both addresses reach the peer. -/
theorem endpoints_reach_peer_late_reply :
    ∃ w rest, ((deviceOf transparent defaultFeatures (keysOf 3) announcingMap false true).step
        (deviceStart defaultFeatures announcingMap 0 0 0) (.frame firstPacket)).2.2 =
          ⟨byteKey 5, w⟩ :: rest ∧
      ∀ f : RelayFrame, f.payload.drop 32 = w →
        Announces (deviceOf transparent defaultFeatures (keysOf 5) announcingMap false true) f
            (.v4 ⟨[192, 168, 1, 8], rfl⟩ 41641) ∧
          Announces (deviceOf transparent defaultFeatures (keysOf 5) announcingMap false true) f
            (.v4 ⟨[203, 0, 113, 6], rfl⟩ 41641) := by
  obtain ⟨w, rest, hsent, hann, -⟩ := endpoints_reach_peer transparent transparent_boxLawful
    defaultFeatures defaultFeatures (keysOf 3) (keysOf 5) announcingMap
    announcingMap false false true 41641 "stun" (.ok (.v4 (Arr.zero 4) 3478)) (Arr.zero 12)
    lateReply (.ok natAddr) (byteKey 5) _ (deviceStart defaultFeatures announcingMap 0 0 0)
    firstPacket rfl rfl natAddr_answered rfl rfl rfl (relayed_carries _ _ (List.cons_ne_nil _ _))
    (relayed_source _ _ _) List.not_mem_nil
  exact ⟨w, rest, hsent, fun f hf => ⟨(hann f hf _).mpr (.inl rfl),
    (hann f hf _).mpr (.inr ⟨natAddr, rfl, rfl⟩)⟩⟩

end TailscaleRust.Proofs.Endpoints
