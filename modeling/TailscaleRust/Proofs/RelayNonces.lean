import TailscaleRust.Proofs.DerpSession
import TailscaleRust.Proofs.Nonces
import TailscaleRust.Proofs.RelayTunnels

/-!
# No nonce twice over the relay

The data plane of the relay has a table of its own: the slots are the source
keys of the frames, and an initiation replaces the tunnel under its source.
Each part of a pass of `serve` is traced as the handlers of `Proofs.Nonces`
are, and so is a session.
-/

namespace TailscaleRust.Proofs.Relay

open TailscaleRust.Lib TailscaleRust.Lib.Nonces TailscaleRust.Core TailscaleRust.Core.Wg
open TailscaleRust.Firmware TailscaleRust.Firmware.Dataplane TailscaleRust.Firmware.Derp
open TailscaleRust.Proofs.DerpSession

/-! ## A pass in parts -/

section Parts

variable (C : Crypto) (F : Features) (id : Identity) (upgrade : Option Upgrade)

/-- What the first frame of a source does besides. -/
def contact (env : FrameDraws) (st : ServeState) (src : Key) : ServeState × Sends :=
  match upgrade with
  | none => (st, Sends.none)
  | some up =>
      if st.upgraded.contains src then (st, Sends.none)
      else ({ st with upgraded := src :: st.upgraded }, tryUpgrade C env id up src)

theorem contact_some (up : Upgrade) (env : FrameDraws) (st : ServeState) (src : Key) :
    contact C id (some up) env st src =
      if src ∈ st.upgraded then (st, Sends.none)
      else ({ st with upgraded := src :: st.upgraded }, tryUpgrade C env id up src) := by
  simp only [contact, List.contains_iff_mem]

/-- What a packet does, whoever sent it. -/
def dispatch (env : FrameDraws) (st : ServeState) (src : Key) (pkt : Bytes) :
    ServeState × Sends :=
  if Disco.isDisco pkt then (st, serveDisco C env id upgrade src pkt)
  else if byteAt pkt 0 = msgInitiation then
    ((serveInit C env id st src pkt).1, ⟨(serveInit C env id st src pkt).2, []⟩)
  else if byteAt pkt 0 = msgTransport then
    ((serveTransport C F env id st src pkt).1, ⟨(serveTransport C F env id st src pkt).2, []⟩)
  else (st, Sends.none)

/-- A frame that carries a packet. -/
def Carries (f : RelayFrame) : Prop :=
  f.typ = frameRecvPacket ∧ 32 ≤ f.payload.length ∧ f.payload.drop 32 ≠ []

instance (f : RelayFrame) : Decidable (Carries f) := inferInstanceAs (Decidable (_ ∧ _ ∧ _))

theorem serveFrame_idle (st : ServeState) {f : RelayFrame} (h : ¬Carries f) :
    serveFrame C F f.env id upgrade st f.typ f.payload = (st, Sends.none) := by
  rw [serveFrame]
  split
  · rfl
  · next hok =>
      simp only []
      split
      · rfl
      · next hpkt =>
          rw [not_or, not_not, Nat.not_lt] at hok
          exact absurd ⟨hok.1, hok.2, hpkt⟩ h

theorem serveFrame_carries (st : ServeState) {f : RelayFrame} (h : Carries f) :
    serveFrame C F f.env id upgrade st f.typ f.payload =
      let first := contact C id upgrade f.env st (source f)
      let rest := dispatch C F id upgrade f.env first.1 (source f) (f.payload.drop 32)
      (rest.1, ⟨first.2.packets ++ rest.2.packets, first.2.targets ++ rest.2.targets⟩) := by
  obtain ⟨htyp, hlen, hpkt⟩ := h
  have hguard : ¬(f.typ ≠ frameRecvPacket ∨ f.payload.length < 32) := by
    rw [not_or, not_not, Nat.not_lt]
    exact ⟨htyp, hlen⟩
  rw [serveFrame, if_neg hguard]
  simp only []
  rw [if_neg hpkt]
  simp only [dispatch]
  have hfirst : (match upgrade with
      | none => (st, Sends.none)
      | some up =>
          if source f ∈ st.upgraded then (st, Sends.none)
          else ({ st with upgraded := source f :: st.upgraded },
            tryUpgrade C f.env id up (source f))) =
        contact C id upgrade f.env st (source f) := by
    cases upgrade with
    | none => rfl
    | some up => exact (contact_some C id up f.env st (source f)).symm
  rw [← hfirst]
  by_cases hdisco : Disco.isDisco (f.payload.drop 32) = true
  · rw [if_pos hdisco, if_pos hdisco]
    rfl
  · rw [if_neg hdisco, if_neg hdisco]
    by_cases hinit : byteAt (f.payload.drop 32) 0 = msgInitiation
    · rw [if_pos hinit, if_pos hinit, List.append_nil]
      rfl
    · rw [if_neg hinit, if_neg hinit]
      split
      · rw [List.append_nil]
        rfl
      · simp only [Sends.none, List.append_nil]
        rfl

end Parts

/-! ## Each part -/

/-- Between the two states of a session these packets were sent. -/
def Relays (C : Crypto) (st st' : ServeState) (out : List Packet) (keys : List Key) : Prop :=
  Traced DerpPeer.tun C st.peers st'.peers (out.map Packet.bytes) keys

section Relays

variable {C : Crypto} {st st' st'' : ServeState} {out out' : List Packet} {keys keys' : List Key}

theorem relays_quiet (h : st'.peers = st.peers)
    (hout : ∀ p ∈ out, p.bytes.head? ≠ some msgTransport) : Relays C st st' out [] := by
  refine traced_quiet (fun i => by rw [h]) (transports_nil_of _ fun b hb => ?_)
  obtain ⟨p, hp, rfl⟩ := List.mem_map.mp hb
  exact hout p hp

theorem relays_none : Relays C st st [] [] := traced_none

theorem Relays.trans (h : Relays C st st' out keys) (h' : Relays C st' st'' out' keys') :
    Relays C st st'' (out ++ out') (keys ++ keys') := by
  rw [Relays, List.map_append]
  exact Traced.trans h h'

end Relays

section Frames

variable (C : Crypto) (F : Features) (id : Identity) (upgrade : Option Upgrade)

theorem relayAll_eq (dst : Key) (xs : List Bytes) (t : Tunnel) :
    (relayAll C t dst xs).1.map Packet.bytes = (sealAll C t xs).1 ∧
      (relayAll C t dst xs).2 = (sealAll C t xs).2 := by
  induction xs generalizing t with
  | nil => exact ⟨rfl, rfl⟩
  | cons x xs ih =>
      obtain ⟨hsent, hlast⟩ := ih (t.encrypt C x).2
      refine ⟨?_, hlast⟩
      rw [relayAll, List.map_cons, sealAll]
      exact congrArg _ hsent

/-- An inner packet makes its tunnel encrypt some answers. -/
theorem handleInner_eq (env : FrameDraws) (p : DerpPeer) (src : Key) (inner : Bytes) :
    ∃ xs, (handleInner C F env p src inner).2.map Packet.bytes = (sealAll C p.tun xs).1 ∧
      (handleInner C F env p src inner).1.tun = (sealAll C p.tun xs).2 := by
  rw [handleInner]
  split
  · exact ⟨_, relayAll_eq C src _ p.tun⟩
  · split
    · exact ⟨_, relayAll_eq C src _ p.tun⟩
    · exact ⟨[], rfl, rfl⟩

theorem relays_serveTransport (env : FrameDraws) (st : ServeState) (src : Key) (pkt : Bytes) :
    Relays C st (serveTransport C F env id st src pkt).1
      (serveTransport C F env id st src pkt).2 [] := by
  rw [serveTransport]
  split
  · exact relays_none
  · next p hp =>
      split
      · exact relays_none
      · next inner _ =>
          split
          · obtain ⟨xs, hsent, hlast⟩ := handleInner_eq C F env p src inner
            rw [Relays]
            simp only [hsent]
            exact traced_sealAll DerpPeer.tun hp xs hlast
          · exact relays_none

/-- The send key of the tunnel a packet adds. -/
def keyOffered (env : FrameDraws) (pkt : Bytes) : List Key :=
  (offered C id env pkt).toList.map fun r => r.1.sendKey

theorem relays_serveInit (env : FrameDraws) (st : ServeState) (src : Key) (pkt : Bytes) :
    Relays C st (serveInit C env id st src pkt).1 (serveInit C env id st src pkt).2
      (keyOffered C id env pkt) := by
  rw [serveInit, keyOffered, offered]
  cases hok : consumeInitiation C id.nodePriv id.nodePub pkt env.index env.ephemeral with
  | error e => exact relays_none
  | ok made =>
      obtain ⟨resp, tun, peer⟩ := made
      obtain ⟨htype, -, -, -, -, hzero⟩ := consumeInitiation_header hok
      refine traced_insert DerpPeer.tun src (e := ⟨tun, Tcp.TcpServer.new⟩) hzero ?_
      refine transports_nil_of _ fun b hb => ?_
      rw [List.mem_singleton.mp hb, head?_eq_byteAt (by rw [resp.2]; decide), htype]
      decide

theorem serveDisco_silent (env : FrameDraws) (src : Key) (pkt : Bytes) :
    ∀ p ∈ (serveDisco C env id upgrade src pkt).packets, p.bytes.head? ≠ some msgTransport := by
  intro p hp
  rw [serveDisco] at hp
  split at hp
  · cases hp
  · split at hp
    · simp only [] at hp
      split at hp
      · cases hp
      · next wire hwire =>
          rw [List.mem_singleton.mp hp]
          exact sealPacket_head C hwire
    · split at hp
      · cases hp
      · cases hp

theorem tryUpgrade_silent (env : FrameDraws) (up : Upgrade) (src : Key) :
    ∀ p ∈ (tryUpgrade C env id up src).packets, p.bytes.head? ≠ some msgTransport := by
  intro p hp
  rw [tryUpgrade] at hp
  split at hp
  · cases hp
  · split at hp
    · cases hp
    · simp only [] at hp
      split at hp
      · next wire hwire =>
          rw [List.mem_singleton.mp hp]
          exact sealPacket_head C hwire
      · cases hp

theorem contact_peers (env : FrameDraws) (st : ServeState) (src : Key) :
    (contact C id upgrade env st src).1.peers = st.peers := by
  unfold contact
  split
  · rfl
  · split
    · rfl
    · rfl

theorem relays_contact (env : FrameDraws) (st : ServeState) (src : Key) :
    Relays C st (contact C id upgrade env st src).1
      (contact C id upgrade env st src).2.packets [] := by
  refine relays_quiet (contact_peers C id upgrade env st src) fun p hp => ?_
  unfold contact at hp
  split at hp
  · cases hp
  · next up =>
      split at hp
      · cases hp
      · exact tryUpgrade_silent C id env up src p hp

/-- The send key of the tunnel a frame adds. -/
def frameKeys (f : RelayFrame) : List Key :=
  (accepted C id f).toList.map fun r => r.1.sendKey

theorem relays_dispatch (f : RelayFrame) (st : ServeState) (hf : Carries f) :
    let r := dispatch C F id upgrade f.env st (source f) (f.payload.drop 32)
    Relays C st r.1 r.2.packets (frameKeys C id f) := by
  obtain ⟨htyp, hlen, hpkt⟩ := hf
  have hnone (h : ¬(Disco.isDisco (f.payload.drop 32) = false ∧
      byteAt (f.payload.drop 32) 0 = msgInitiation)) : frameKeys C id f = [] := by
    rw [frameKeys, accepted, if_neg fun hacc => h hacc.2.2.2]
    rfl
  simp only [dispatch]
  split
  · next hdisco =>
      rw [hnone fun h => absurd hdisco (by rw [h.1]; decide)]
      exact relays_quiet rfl (serveDisco_silent C id upgrade f.env (source f) _)
  · next hdisco =>
      split
      · next hinit =>
          rw [frameKeys, accepted, if_pos ⟨htyp, hlen, hpkt, Bool.not_eq_true _ ▸ hdisco, hinit⟩]
          exact relays_serveInit C id f.env st (source f) _
      · next hinit =>
          rw [hnone fun h => hinit h.2]
          split
          · exact relays_serveTransport C F id f.env st (source f) _
          · exact relays_none

theorem relays_serveFrame (f : RelayFrame) (st : ServeState) :
    let r := serveFrame C F f.env id upgrade st f.typ f.payload
    Relays C st r.1 r.2.packets (frameKeys C id f) := by
  by_cases hf : Carries f
  · rw [serveFrame_carries C F id upgrade st hf]
    exact (relays_contact C id upgrade f.env st (source f)).trans
      (relays_dispatch C F id upgrade f _ hf)
  · have hnone : frameKeys C id f = [] := by
      rw [frameKeys, accepted, if_neg fun h => hf ⟨h.1, h.2.1, h.2.2.1⟩]
      rfl
    rw [serveFrame_idle C F id upgrade st hf, hnone]
    exact relays_none

/-! ## A session -/

/-- The send keys of the tunnels a session adds. -/
def sessionKeys (frames : List RelayFrame) : List Key := frames.flatMap (frameKeys C id)

theorem relays_served (frames : List RelayFrame) (st : ServeState) :
    let r := served C F id upgrade st frames
    Relays C st r.1 r.2.packets (sessionKeys C id frames) := by
  induction frames generalizing st with
  | nil => exact relays_none
  | cons f frames ih => exact (relays_serveFrame C F id upgrade f st).trans (ih _)

/-- In every session of the relay, whatever frames it delivers: if no two
tunnels of the session have the same send key, no two of its transport
packets are sealed under the same key and counter, and under each key the
counters are 0, 1, 2, … in the order of sending. -/
theorem relay_no_nonce_twice (frames : List RelayFrame)
    (hkeys : (sessionKeys C id frames).Nodup) :
    NonceOnce C ((served C F id upgrade ServeState.empty frames).2.packets.map Packet.bytes) :=
  Traced.nonceOnce (relays_served C F id upgrade frames ServeState.empty) (fun _ => rfl) hkeys

end Frames

/-! A peer's handshake over the relay, and a ping that is delivered twice. -/

private def overRelay (pkt : Bytes) : RelayFrame where
  typ := frameRecvPacket
  payload := (byteKey 5).1 ++ pkt
  env := ⟨4, byteKey 11, Arr.zero 24, Arr.zero 24, 0⟩

/-- What the peer seals once its handshake is answered. -/
private def peerSeals (inner : Bytes) : Bytes :=
  match accepted transparent solo.identity (overRelay (initiationOf 5)) with
  | none => []
  | some (tun, _) => (({ tun with sendKey := tun.recvKey } : Tunnel).encrypt transparent inner).1

private def relayPing : Bytes :=
  [0x45, 0, 0, 28, 0, 0, 0, 0, 64, 1, 0, 0, 100, 64, 0, 5, 100, 64, 0, 17]
    ++ [8, 0, 0, 0, 0, 1, 0, 1]

private def pingedTwice : List RelayFrame :=
  [overRelay (initiationOf 5), overRelay (peerSeals relayPing), overRelay (peerSeals relayPing)]

private def answersOf (frames : List RelayFrame) : List Bytes :=
  (served transparent defaultFeatures solo.identity none ServeState.empty frames).2.packets.map
    Packet.bytes

/-- Both pings are answered, under one key. -/
theorem relay_no_nonce_twice_pinged :
    (transports (answersOf pingedTwice)).length = 2 ∧
    (sessionKeys transparent solo.identity pingedTwice).length = 1 ∧
    NonceOnce transparent (answersOf pingedTwice) :=
  ⟨by decide +kernel, by decide +kernel, relay_no_nonce_twice transparent defaultFeatures
    solo.identity none pingedTwice (by decide +kernel)⟩

end TailscaleRust.Proofs.Relay
