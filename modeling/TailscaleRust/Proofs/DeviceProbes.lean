import TailscaleRust.Proofs.DeviceSends
import TailscaleRust.Proofs.Strikes

/-!
# From the relay to a direct path

A peer that is only reachable over the relay is to get a direct path. Its
first packet makes the relay client put its endpoints on the upgrade channel,
and the data plane merges them into its targets and probes them. So does a
message in which the peer announces where it can be reached. What must hold
across the two threads is `Upgrading`: the endpoints learnt over the relay are
on the channel or among the targets, also when the connection was lost in
between and the peer is new to it once more.
-/

namespace TailscaleRust.Proofs.DeviceProbes

open TailscaleRust.Lib TailscaleRust.Core TailscaleRust.Core.Wg TailscaleRust.Core.AddrText
open TailscaleRust.Core.Peers
open TailscaleRust.Firmware TailscaleRust.Firmware.Dataplane TailscaleRust.Firmware.Derp
open TailscaleRust.Firmware.Startup
open TailscaleRust.Proofs.DerpSession TailscaleRust.Proofs.Relay
open TailscaleRust.Proofs.DeviceSends TailscaleRust.Proofs.Strikes

/-- The netmap lists the endpoint for the peer with this key. -/
def Lists (m : Netmap) (k : Key) (a : SocketAddr) : Prop :=
  ∃ p, m.peers.find? (fun p => p.nodeKey = k) = some p ∧ a ∈ p.endpoints.filterMap parseSocketAddr

/-- What the relay has told of the endpoints of a peer: that they matter, if the
netmap lists them, or what they are. -/
def Learnt (D : Device) (m : Netmap) (evs : List DeviceEvent) (k : Key) (a : SocketAddr) : Prop :=
  Contacted evs k ∧ Lists m k a ∨ Announced D evs k a

/-- The endpoint is on its way to the data plane. -/
def OnChannel (k : Key) (a : SocketAddr) (channel : List Target) : Prop :=
  ∃ t ∈ channel, t.nodePub = k ∧ t.spray = true ∧ a ∈ t.endpoints

/-- What the device has done for the peers it heard over the relay. -/
structure Upgrading (D : Device) (m : Netmap) (evs : List DeviceEvent) (s : DeviceState) :
    Prop where
  known : ∀ k ∈ s.relay.upgraded, Contacted evs k
  offered : ∀ k a, Learnt D m evs k a → Sprayed k a s.node.lp.targets ∨ OnChannel k a s.channel

section Steps

variable {C : Crypto} {F : Features} {keys : Keys.NodeKeys} {m : Netmap} {packetFilter : Bool}

/-- The entry of the netmap in the directory of the relay client. -/
theorem find_buildUpgrade {k : Key} {p : PeerInfo}
    (h : m.peers.find? (fun p => p.nodeKey = k) = some p) :
    (buildUpgrade m.peers m.endpoints).peers.find? (fun d => d.nodePub = k) =
      some { nodePub := p.nodeKey, discoPub := p.discoKey
             endpoints := p.endpoints.filterMap parseSocketAddr } := by
  rw [buildUpgrade, List.find?_map, Function.comp_def, h]
  rfl

/-- A first packet puts the endpoints of its source on the channel. -/
theorem contact_offers (id : Identity) (env : FrameDraws) {st : ServeState} {k : Key}
    {a : SocketAddr} (hnew : k ∉ st.upgraded) (hlists : Lists m k a) :
    OnChannel k a
      (contact C id (some (buildUpgrade m.peers m.endpoints)) env st k).2.targets := by
  obtain ⟨p, hp, ha⟩ := hlists
  have hne : p.endpoints.filterMap parseSocketAddr ≠ [] := List.ne_nil_of_mem ha
  rw [contact_some, if_neg hnew, tryUpgrade, find_buildUpgrade hp]
  simp only []
  rw [if_neg fun h => hne h.1]
  exact ⟨_, List.mem_singleton.mpr rfl, rfl, rfl, ha⟩

theorem isDisco_of_open {priv : Key} {pkt : Bytes} {msg : Disco.Incoming}
    (h : Disco.openPacket C priv pkt = .ok msg) : Disco.isDisco pkt = true := by
  rw [Disco.openPacket] at h
  split at h
  · cases h
  · next hok =>
      rw [not_or, Nat.not_lt, not_not] at hok
      have hhdr : 6 ≤ Disco.hdr + 16 := by decide
      exact decide_eq_true ⟨Nat.le_trans hhdr hok.1, hok.2⟩

/-- And an announcement those that it names. -/
theorem announcement_offers {D : Device} {f : RelayFrame} {st : ServeState} {a : SocketAddr}
    (hup : D.upgrade.isSome = true) (h : Announces D f a) :
    OnChannel (source f) a (dispatch D.host.crypto D.host.features D.host.identity D.upgrade f.env
      st (source f) (f.payload.drop 32)).2.targets := by
  obtain ⟨msg, hopen, hmsg, ha⟩ := h
  have hping : msg.msgType ≠ Disco.ping := by rw [hmsg]; decide
  rw [dispatch, if_pos (isDisco_of_open hopen), serveDisco]
  simp only [hopen]
  rw [if_neg hping, if_pos ⟨hmsg, List.ne_nil_of_mem ha, hup⟩]
  exact ⟨_, List.mem_singleton.mpr rfl, rfl, rfl, ha⟩

/-- So a frame puts on the channel what is new in it. -/
theorem frame_offers (st : ServeState) {f : RelayFrame} {a : SocketAddr} (hf : Relay.Carries f)
    (h : (source f ∉ st.upgraded ∧ Lists m (source f) a) ∨
      Announces (deviceOf C F keys m packetFilter true) f a) :
    let D := deviceOf C F keys m packetFilter true
    OnChannel (source f) a (serveFrame D.host.crypto D.host.features f.env D.host.identity D.upgrade
      st f.typ f.payload).2.targets := by
  intro D
  have hup : D.upgrade = some (buildUpgrade m.peers m.endpoints) := rfl
  rw [serveFrame_carries D.host.crypto D.host.features D.host.identity D.upgrade st hf]
  rcases h with ⟨hnew, hlists⟩ | hann
  · obtain ⟨t, ht, hrest⟩ := contact_offers (C := C) D.host.identity f.env hnew hlists
    rw [hup]
    exact ⟨t, List.mem_append_left _ ht, hrest⟩
  · have hsome : D.upgrade.isSome = true := by rw [hup]; rfl
    obtain ⟨t, ht, hrest⟩ := announcement_offers hsome hann
    exact ⟨t, List.mem_append_right _ ht, hrest⟩

theorem upgraded_frame {st : ServeState} {f : RelayFrame} {k : Key} :
    let D := deviceOf C F keys m packetFilter true
    k ∈ (serveFrame D.host.crypto D.host.features f.env D.host.identity D.upgrade st f.typ
      f.payload).1.upgraded ↔ Relay.Carries f ∧ source f = k ∨ k ∈ st.upgraded :=
  serveFrame_upgraded ..

/-- What is learnt at an event was learnt before, or from its frame. -/
theorem learnt_snoc {D : Device} {evs : List DeviceEvent} {e : DeviceEvent} {k : Key}
    {a : SocketAddr}
    (h : Learnt D m (evs ++ [e]) k a) :
    Learnt D m evs k a ∨ ∃ f, e = .frame f ∧ Relay.Carries f ∧ source f = k ∧
      (Lists m k a ∨ Announces D f a) := by
  rcases h with ⟨⟨f, hmem, hf, hsource⟩, hlists⟩ | ⟨f, hmem, hf, hsource, hann⟩
  · rcases List.mem_append.mp hmem with hmem | hmem
    · exact .inl (.inl ⟨⟨f, hmem, hf, hsource⟩, hlists⟩)
    · exact .inr ⟨f, (List.mem_singleton.mp hmem).symm, hf, hsource, .inl hlists⟩
  · rcases List.mem_append.mp hmem with hmem | hmem
    · exact .inl (.inr ⟨f, hmem, hf, hsource, hann⟩)
    · exact .inr ⟨f, (List.mem_singleton.mp hmem).symm, hf, hsource, .inr hann⟩

/-- A step of the data plane loses no endpoint. -/
theorem offered_node {s : DeviceState} {k : Key} {a : SocketAddr} (found : Nat) (ev : Input)
    (D : Device) (h : Sprayed k a s.node.lp.targets ∨ OnChannel k a s.channel) :
    Sprayed k a (D.step s (.node found ev)).1.node.lp.targets ∨
      OnChannel k a (D.step s (.node found ev)).1.channel := by
  have htargets : (D.step s (.node found ev)).1.node.lp.targets =
      (targetsReceived (takeTargets found s.channel ev).1).foldl mergeTarget
        s.node.lp.targets := targets_step rfl
  rw [htargets]
  rcases h with hthere | ⟨t, ht, rfl, hspray, ha⟩
  · exact .inl (sprayed_foldl hthere _)
  · cases ev with
    | packet tick pkt src env => exact .inr ⟨t, ht, rfl, hspray, ha⟩
    | process tick pkt src env => exact .inr ⟨t, ht, rfl, hspray, ha⟩
    | periodic tick hk stunAddr =>
        rw [← List.take_append_drop found s.channel] at ht
        rcases List.mem_append.mp ht with htaken | hleft
        · exact .inl (sprayed_of_mem htaken hspray ha _)
        · exact .inr ⟨t, hleft, rfl, hspray, ha⟩
    | drain payloads => exact .inr ⟨t, ht, rfl, hspray, ha⟩

/-- A frame only adds to the channel. -/
theorem offered_frame {s : DeviceState} {k : Key} {a : SocketAddr} (f : RelayFrame) (D : Device)
    (h : Sprayed k a s.node.lp.targets ∨ OnChannel k a s.channel) :
    Sprayed k a (D.step s (.frame f)).1.node.lp.targets ∨
      OnChannel k a (D.step s (.frame f)).1.channel := by
  rcases h with hthere | ⟨t, ht, hrest⟩
  · exact .inl hthere
  · exact .inr ⟨t, List.mem_append_left _ ht, hrest⟩

theorem upgrading_step {s : DeviceState} {evs : List DeviceEvent} (e : DeviceEvent)
    (h : Upgrading (deviceOf C F keys m packetFilter true) m evs s) :
    Upgrading (deviceOf C F keys m packetFilter true) m (evs ++ [e])
      ((deviceOf C F keys m packetFilter true).step s e).1 := by
  have hsub : evs ⊆ evs ++ [e] := List.subset_append_left evs [e]
  cases e with
  | node found ev =>
      refine ⟨fun k hk => (h.known k hk).mono hsub, fun k a hlearnt => ?_⟩
      rcases learnt_snoc hlearnt with hold | ⟨f, hf, -⟩
      · exact offered_node found ev _ (h.offered k a hold)
      · cases hf
  | frame f =>
      refine ⟨fun k hk => ?_, fun k a hlearnt => ?_⟩
      · rcases upgraded_frame.mp hk with ⟨hf, hsource⟩ | hold
        · exact ⟨f, List.mem_append_right evs List.mem_cons_self, hf, hsource⟩
        · exact (h.known k hold).mono hsub
      · rcases learnt_snoc hlearnt with hold | ⟨g, hg, hf, rfl, hwhat⟩
        · exact offered_frame f _ (h.offered k a hold)
        · cases hg
          by_cases hknown : source f ∈ s.relay.upgraded ∧ Lists m (source f) a
          · -- the peer was heard before
            exact offered_frame f _ (h.offered _ a (.inl ⟨h.known _ hknown.1, hknown.2⟩))
          · obtain ⟨t, ht, hrest⟩ := frame_offers s.relay hf
              (hwhat.imp_left fun hlists => ⟨fun hk => hknown ⟨hk, hlists⟩, hlists⟩)
            exact .inr ⟨t, List.mem_append_right s.channel ht, hrest⟩
  | reconnect =>
      refine ⟨fun k hk => absurd hk List.not_mem_nil, fun k a hlearnt => ?_⟩
      rcases learnt_snoc hlearnt with hold | ⟨f, hf, -⟩
      · exact h.offered k a hold
      · cases hf

theorem upgrading_run (ident sport : UInt16) (now : Nat) (evs : List DeviceEvent) :
    Upgrading (deviceOf C F keys m packetFilter true) m evs
      ((deviceOf C F keys m packetFilter true).after (deviceStart F m ident sport now) evs) := by
  induction evs using List.reverseRecOn with
  | nil =>
      refine ⟨fun k hk => absurd hk List.not_mem_nil, fun k a hlearnt => ?_⟩
      rcases hlearnt with ⟨⟨f, hf, -⟩, -⟩ | ⟨f, hf, -⟩
      · cases hf
      · cases hf
  | append_singleton evs e ih =>
      rw [after_snoc]
      exact upgrading_step e ih

end Steps

/-- A tunnel leads to an endpoint of the node, as the targets have them. -/
def HasTunnel (k : Key) (targets : List Target) (st : State) : Prop :=
  ∃ t, entryOf targets k = some t ∧ ∃ a ∈ t.endpoints, ∃ e ∈ st.tunnels.values, e.addr = a

private def farPeer : PeerInfo where
  nodeKey := byteKey 5
  discoKey := byteKey 5
  tailscaleIp := none
  endpoints := [ascii "203.0.113.77:41641"]
  hostname := []
  mappingVaries := none

private def farAddr : SocketAddr := .v4 ⟨[203, 0, 113, 77], rfl⟩ 41641

private def farMap : Netmap where
  peers := [farPeer]
  allowedSrcs := none
  ourIp := none
  lanIp := ⟨[192, 168, 1, 7], rfl⟩
  endpoints := []
  outboundIp := []
  httpPort := 80
  httpPath := []
  partnerIp := []

private def bootKeys : Keys.NodeKeys :=
  ⟨⟨byteKey 3, byteKey 3⟩, ⟨byteKey 3, byteKey 3⟩, ⟨byteKey 3, byteKey 3⟩⟩

private def farFrame : RelayFrame :=
  relayed (byteKey 5) [9] ⟨0, Arr.zero 32, Arr.zero 24, Arr.zero 24, 0⟩

private theorem farMap_lists : Lists farMap (byteKey 5) farAddr := by
  refine ⟨farPeer, rfl, ?_⟩
  rw [farPeer]
  decide

end TailscaleRust.Proofs.DeviceProbes
