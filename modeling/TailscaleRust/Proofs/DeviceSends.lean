import TailscaleRust.Firmware.Device
import TailscaleRust.Proofs.Destinations
import TailscaleRust.Proofs.LanTargets
import TailscaleRust.Proofs.RelayPeers

/-!
# Whom the device addresses

The two threads of the device know three kinds of endpoints: those on the own
/24, which it starts with, those that the netmap lists for a peer, once this
peer has sent a packet over the relay, and those that a peer announced over the
relay in a message sealed for us. `Justified` says so of a target, and holds of
the targets of the data plane and of those still on the channel in every
interleaving of the two threads. With `warranted_step` it accounts for every
datagram: the device answers, probes endpoints it knows, and talks to nobody
else but the STUN server.
-/

namespace TailscaleRust.Proofs.DeviceSends

open TailscaleRust.Lib TailscaleRust.Core TailscaleRust.Core.Wg TailscaleRust.Core.AddrText
open TailscaleRust.Core.Peers TailscaleRust.Core.Tcp
open TailscaleRust.Firmware TailscaleRust.Firmware.Dataplane TailscaleRust.Firmware.Derp
open TailscaleRust.Firmware.Startup
open TailscaleRust.Proofs.DerpSession TailscaleRust.Proofs.Relay
open TailscaleRust.Proofs.Destinations TailscaleRust.Proofs.LanTargets

/-! ## What the device has heard -/

/-- A packet of the node came over the relay. -/
def Contacted (evs : List DeviceEvent) (k : Key) : Prop :=
  ∃ f, .frame f ∈ evs ∧ Relay.Carries f ∧ source f = k

/-- The frame announces the address, in a CALL_ME_MAYBE sealed for us. -/
def Announces (D : Device) (f : RelayFrame) (a : SocketAddr) : Prop :=
  ∃ msg, Disco.openPacket D.host.crypto D.host.identity.discoPriv (f.payload.drop 32) = .ok msg ∧
    msg.msgType = Disco.callMeMaybe ∧ a ∈ msg.endpoints

/-- The node announced the address over the relay. -/
def Announced (D : Device) (evs : List DeviceEvent) (k : Key) (a : SocketAddr) : Prop :=
  ∃ f, .frame f ∈ evs ∧ Relay.Carries f ∧ source f = k ∧ Announces D f a

/-- A datagram came from the address. -/
def CameFrom (evs : List DeviceEvent) (a : SocketAddr) : Prop :=
  ∃ found ev tick pkt env, .node found ev ∈ evs ∧ ev.received? = some (tick, pkt, a, env)

/-- Why the device knows an address as an endpoint of a node. -/
inductive KnownAt (D : Device) (m : Netmap) (evs : List DeviceEvent) (k : Key)
    (a : SocketAddr) : Prop
  | lan {p : PeerInfo} (hp : p ∈ m.peers) (hk : p.nodeKey = k) (h : a ∈ lanEndpoints m.lanIp p)
  | listed {p : PeerInfo} (hp : p ∈ m.peers) (hk : p.nodeKey = k)
      (h : a ∈ p.endpoints.filterMap parseSocketAddr) (hcontact : Contacted evs k)
  | announced (h : Announced D evs k a)

/-- A target with endpoints the device knows; only a node that has been heard
over the relay is sprayed. -/
structure Justified (D : Device) (m : Netmap) (evs : List DeviceEvent) (t : Target) : Prop where
  endpoints : ∀ a ∈ t.endpoints, KnownAt D m evs t.nodePub a
  spray : t.spray = true → Contacted evs t.nodePub

section Later

variable {D : Device} {m : Netmap} {evs evs' : List DeviceEvent}

theorem Contacted.mono {k : Key} (h : Contacted evs k) (hsub : evs ⊆ evs') : Contacted evs' k := by
  obtain ⟨f, hf, hrest⟩ := h
  exact ⟨f, hsub hf, hrest⟩

theorem CameFrom.mono {a : SocketAddr} (h : CameFrom evs a) (hsub : evs ⊆ evs') :
    CameFrom evs' a := by
  obtain ⟨found, ev, tick, pkt, env, hmem, hev⟩ := h
  exact ⟨found, ev, tick, pkt, env, hsub hmem, hev⟩

theorem KnownAt.mono {k : Key} {a : SocketAddr} (h : KnownAt D m evs k a) (hsub : evs ⊆ evs') :
    KnownAt D m evs' k a := by
  cases h with
  | lan hp hk h => exact .lan hp hk h
  | listed hp hk h hcontact => exact .listed hp hk h (hcontact.mono hsub)
  | announced h =>
      obtain ⟨f, hf, hrest⟩ := h
      exact .announced ⟨f, hsub hf, hrest⟩

theorem Justified.mono {t : Target} (h : Justified D m evs t) (hsub : evs ⊆ evs') :
    Justified D m evs' t :=
  ⟨fun a ha => (h.endpoints a ha).mono hsub, fun hspray => (h.spray hspray).mono hsub⟩

end Later

/-! ## Merging -/

theorem mem_addEndpoints {a : SocketAddr} {xs new : List SocketAddr}
    (h : a ∈ addEndpoints xs new) : a ∈ xs ∨ a ∈ new := by
  induction new generalizing xs with
  | nil => exact .inl h
  | cons ep new ih =>
      rw [addEndpoints, List.foldl_cons] at h
      rcases ih h with hxs | hnew
      · split at hxs
        · exact .inl hxs
        · rcases List.mem_append.mp hxs with hxs | hep
          · exact .inl hxs
          · exact .inr (List.mem_singleton.mp hep ▸ List.mem_cons_self)
      · exact .inr (List.mem_cons_of_mem ep hnew)

section Merging

variable {D : Device} {m : Netmap} {evs : List DeviceEvent}

theorem justified_mergeTarget {l : List Target} {t : Target}
    (hl : ∀ x ∈ l, Justified D m evs x) (ht : Justified D m evs t) :
    ∀ x ∈ mergeTarget l t, Justified D m evs x := by
  induction l with
  | nil => exact fun x hx => List.mem_singleton.mp hx ▸ ht
  | cons e l ih =>
      have he := hl e List.mem_cons_self
      have hrest : ∀ x ∈ l, Justified D m evs x := fun x hx => hl x (List.mem_cons_of_mem e hx)
      intro x hx
      rw [mergeTarget] at hx
      split at hx
      · next hkey =>
          rcases List.mem_cons.mp hx with rfl | hx
          · refine ⟨fun a ha => ?_, fun hspray => ?_⟩
            · rcases mem_addEndpoints ha with hold | hnew
              · exact he.endpoints a hold
              · exact hkey ▸ ht.endpoints a hnew
            · rcases (Bool.or_eq_true _ _).mp hspray with hold | hnew
              · exact he.spray hold
              · exact hkey ▸ ht.spray hnew
          · exact hrest x hx
      · rcases List.mem_cons.mp hx with rfl | hx
        · exact he
        · exact ih hrest x hx

theorem justified_foldl {ts l : List Target} (hl : ∀ x ∈ l, Justified D m evs x)
    (hts : ∀ x ∈ ts, Justified D m evs x) :
    ∀ x ∈ ts.foldl mergeTarget l, Justified D m evs x := by
  induction ts generalizing l with
  | nil => exact hl
  | cons t ts ih =>
      exact ih (justified_mergeTarget hl (hts t List.mem_cons_self))
        fun x hx => hts x (List.mem_cons_of_mem t hx)

end Merging

/-! ## Where targets come from -/

section Sources

variable (C : Crypto) (F : Features) (keys : Keys.NodeKeys) (m : Netmap)
  (packetFilter derpUpgrade : Bool)

theorem justified_start {D : Device} {evs : List DeviceEvent} :
    ∀ t ∈ buildLanTargets m.peers (dotted m.lanIp), Justified D m evs t := by
  intro t ht
  obtain ⟨net, last, hsplit, hnet⟩ := rsplitOnce_dotted m.lanIp
  rw [buildLanTargets, hsplit] at ht
  simp only [hnet, lanEndpoints_eq] at ht
  obtain ⟨p, hp, hlan⟩ := List.mem_filterMap.mp ht
  split at hlan
  · cases hlan
  · cases hlan
    exact ⟨fun a ha => .lan hp rfl ha, fun hspray => by cases hspray⟩

variable {C F keys m packetFilter derpUpgrade}

/-- What a frame puts on the channel. -/
theorem justified_frame {st : ServeState} {f : RelayFrame} {evs : List DeviceEvent}
    (hmem : .frame f ∈ evs) :
    let D := deviceOf C F keys m packetFilter derpUpgrade
    ∀ t ∈ (serveFrame D.host.crypto D.host.features f.env D.host.identity D.upgrade st f.typ
      f.payload).2.targets, Justified D m evs t := by
  intro D t ht
  by_cases hf : Relay.Carries f
  · have hcontact : Contacted evs (source f) := ⟨f, hmem, hf, rfl⟩
    rw [serveFrame_carries D.host.crypto D.host.features D.host.identity D.upgrade st hf] at ht
    rcases List.mem_append.mp ht with ht | ht
    · unfold contact at ht
      split at ht
      · cases ht
      · next up hup =>
          split at ht
          · cases ht
          · unfold tryUpgrade at ht
            split at ht
            · cases ht
            · next dir hdir =>
                split at ht
                · cases ht
                · cases List.mem_singleton.mp ht
                  have hlisted := List.mem_of_find?_eq_some hdir
                  have hfound := List.find?_some hdir
                  have hkey : dir.nodePub = source f := of_decide_eq_true hfound
                  cases hflag : derpUpgrade with
                  | false =>
                      simp only [D, deviceOf, hflag] at hup
                      cases hup
                  | true =>
                      simp only [D, deviceOf, hflag, if_true] at hup
                      cases hup
                      obtain ⟨p, hp, rfl⟩ := List.mem_map.mp hlisted
                      exact ⟨fun a ha => .listed hp hkey ha hcontact, fun _ => hcontact⟩
    · rw [dispatch] at ht
      split at ht
      · rw [serveDisco] at ht
        split at ht
        · cases ht
        · next msg hopen =>
            split at ht
            · simp only [] at ht
              split at ht
              · cases ht
              · cases ht
            · split at ht
              · next hmsg =>
                  cases List.mem_singleton.mp ht
                  exact ⟨fun a ha => .announced ⟨f, hmem, hf, rfl, msg, hopen, hmsg.1, ha⟩,
                    fun _ => hcontact⟩
              · cases ht
      · split at ht
        · cases ht
        · split at ht
          · cases ht
          · cases ht
  · rw [serveFrame_idle D.host.crypto D.host.features D.host.identity D.upgrade st hf] at ht
    cases ht

end Sources

/-! ## Every interleaving -/

section Runs

variable {D : Device} {s : DeviceState}

/-- The inputs of the data plane in a run of the device. -/
def nodeInputs (D : Device) (s : DeviceState) : List DeviceEvent → List Input
  | [] => []
  | .node found ev :: es =>
      (takeTargets found s.channel ev).1 :: nodeInputs D (D.step s (.node found ev)).1 es
  | .frame f :: es => nodeInputs D (D.step s (.frame f)).1 es
  | .reconnect :: es => nodeInputs D (D.step s .reconnect).1 es

/-- The data plane of the device is a node that runs on them. -/
theorem after_node (es : List DeviceEvent) :
    (D.after s es).node = D.host.after s.node (nodeInputs D s es) := by
  induction es generalizing s with
  | nil => rfl
  | cons e es ih =>
      cases e with
      | node found ev => exact ih
      | frame f => exact ih
      | reconnect => exact ih

theorem received_takeTargets {found : Nat} {channel : List Target} {ev : Input}
    {r : UInt32 × Bytes × SocketAddr × Draws}
    (h : (takeTargets found channel ev).1.received? = some r) : ev.received? = some r := by
  cases ev with
  | packet tick pkt src env => exact h
  | process tick pkt src env => exact h
  | periodic tick hk stunAddr => cases h
  | drain payloads => cases h

/-- The datagrams among them are those of the device. -/
theorem received_nodeInputs {es : List DeviceEvent} {ev : Input} (hmem : ev ∈ nodeInputs D s es)
    {tick : UInt32} {pkt : Bytes} {a : SocketAddr} {env : Draws}
    (h : ev.received? = some (tick, pkt, a, env)) : CameFrom es a := by
  induction es generalizing s with
  | nil => cases hmem
  | cons e es ih =>
      cases e with
      | node found ev' =>
          rcases List.mem_cons.mp hmem with rfl | hmem
          · exact ⟨found, ev', tick, pkt, env, List.mem_cons_self, received_takeTargets h⟩
          · exact (ih hmem).mono (List.subset_cons_self _ _)
      | frame f => exact (ih hmem).mono (List.subset_cons_self _ _)
      | reconnect => exact (ih hmem).mono (List.subset_cons_self _ _)

theorem after_snoc (es : List DeviceEvent) (e : DeviceEvent) :
    D.after s (es ++ [e]) = (D.step (D.after s es) e).1 := by
  induction es generalizing s with
  | nil => rfl
  | cons x es ih => exact ih

theorem nodeInputs_snoc (es : List DeviceEvent) (found : Nat) (ev : Input) :
    nodeInputs D s (es ++ [.node found ev]) =
      nodeInputs D s es ++ [(takeTargets found (D.after s es).channel ev).1] := by
  induction es generalizing s with
  | nil => rfl
  | cons e es ih =>
      cases e with
      | node found' ev' =>
          rw [List.cons_append, nodeInputs, nodeInputs, ih]
          rfl
      | frame f => exact ih
      | reconnect => exact ih

end Runs

section Knows

variable {C : Crypto} {F : Features} {keys : Keys.NodeKeys} {m : Netmap}
  {packetFilter derpUpgrade : Bool}

/-- Every target of the device is justified, on whichever side of the channel
it is. -/
structure Knows (D : Device) (m : Netmap) (evs : List DeviceEvent) (s : DeviceState) : Prop where
  targets : ∀ t ∈ s.node.lp.targets, Justified D m evs t
  channel : ∀ t ∈ s.channel, Justified D m evs t

theorem Knows.mono {D : Device} {evs evs' : List DeviceEvent} {s : DeviceState}
    (h : Knows D m evs s)
    (hsub : evs ⊆ evs') : Knows D m evs' s :=
  ⟨fun t ht => (h.targets t ht).mono hsub, fun t ht => (h.channel t ht).mono hsub⟩

/-- The data plane only takes targets off the channel. -/
theorem knows_node {D : Device} {s : DeviceState} {evs : List DeviceEvent} (found : Nat)
    (ev : Input)
    (h : Knows D m evs s) : Knows D m evs (D.step s (.node found ev)).1 := by
  refine ⟨?_, ?_⟩
  · show ∀ t ∈ (Host.step _ s.node (takeTargets found s.channel ev).1).1.lp.targets, _
    rw [targets_step rfl]
    refine justified_foldl h.targets fun t ht => ?_
    cases ev with
    | packet tick pkt src env => cases ht
    | process tick pkt src env => cases ht
    | periodic tick hk stunAddr => exact h.channel t (List.mem_of_mem_take ht)
    | drain payloads => cases ht
  · intro t ht
    cases ev with
    | packet tick pkt src env => exact h.channel t ht
    | process tick pkt src env => exact h.channel t ht
    | periodic tick hk stunAddr => exact h.channel t (List.mem_of_mem_drop ht)
    | drain payloads => exact h.channel t ht

theorem knows_step {s : DeviceState} {evs : List DeviceEvent} (e : DeviceEvent)
    (h : Knows (deviceOf C F keys m packetFilter derpUpgrade) m evs s) :
    Knows (deviceOf C F keys m packetFilter derpUpgrade) m (evs ++ [e])
      ((deviceOf C F keys m packetFilter derpUpgrade).step s e).1 := by
  have hlater := h.mono (List.subset_append_left evs [e])
  cases e with
  | node found ev => exact knows_node found ev hlater
  | frame f =>
      refine ⟨hlater.targets, fun t ht => ?_⟩
      rcases List.mem_append.mp ht with ht | ht
      · exact hlater.channel t ht
      · exact justified_frame (List.mem_append_right evs List.mem_cons_self) t ht
  | reconnect => exact ⟨hlater.targets, hlater.channel⟩

theorem targets_start (ident sport : UInt16) (now : Nat) :
    (deviceStart F m ident sport now).node.lp.targets =
      buildLanTargets m.peers (dotted m.lanIp) := by
  rw [deviceStart, runStart]

theorem knows_run (ident sport : UInt16) (now : Nat) (evs : List DeviceEvent) :
    Knows (deviceOf C F keys m packetFilter derpUpgrade) m evs
      ((deviceOf C F keys m packetFilter derpUpgrade).after
        (deviceStart F m ident sport now) evs) := by
  induction evs using List.reverseRecOn with
  | nil =>
      refine ⟨?_, fun t ht => absurd ht List.not_mem_nil⟩
      rw [Device.after, targets_start]
      exact justified_start m
  | append_singleton evs e ih =>
      rw [after_snoc]
      exact knows_step e ih

end Knows

/-! ## Every datagram of the device -/

/-- Why the device sends a datagram in the last step of a run. -/
inductive Addressed (D : Device) (m : Netmap) (evs : List DeviceEvent) (e : DeviceEvent)
    (d : Datagram) : Prop
  | answer (h : CameFrom (evs ++ [e]) d.dst)
  | probe (hdisco : Disco.isDisco d.bytes = true) {k : Key} (h : KnownAt D m evs k d.dst)
  | spray (hdisco : Disco.isDisco d.bytes = true) (hF : D.host.features.birthday = true) {k : Key}
      {ip : Ipv4Addr} {port p : UInt16} (h : KnownAt D m evs k (.v4 ip port))
      (hcontact : Contacted evs k) (hpublic : isPublicV4 ip = true) (hp : 1024 ≤ p)
      (hdst : d.dst = .v4 ip p)
  | stun {found : Nat} {tick : UInt32} {hk : Housekeeping}
      (h : e = .node found (.periodic tick hk (some d.dst)))
      (hbytes : d.bytes = Stun.bindingRequest hk.stunTxid)

theorem installed_received {H : Host} {s : NodeState} {ev : Input} {i : UInt32} {peer : Key}
    {src : SocketAddr} (h : installed H s ev = some (i, peer, src)) :
    ∃ tick pkt env, ev.received? = some (tick, pkt, src, env) := by
  rw [installed] at h
  split at h
  · next ho =>
      cases h
      obtain ⟨⟨tick, pkt, env, hev, -⟩, -⟩ := step_answer ho
      exact ⟨tick, pkt, env, hev⟩
  · next ho =>
      cases h
      obtain ⟨⟨tick, pkt, env, hev, -⟩, -⟩ := step_complete ho
      exact ⟨tick, pkt, env, hev⟩
  · cases h

theorem heard_source {H : Host} {s : NodeState} {ev : Input} {i : UInt32} {a : SocketAddr}
    (h : heardAt H s ev i = some a) :
    ∃ tick pkt env, ev.received? = some (tick, pkt, a, env) := by
  rw [heardAt] at h
  split at h
  · next j src hroams =>
      obtain ⟨-, heq⟩ := Option.ite_none_right_eq_some.mp h
      cases heq
      obtain ⟨tick, pkt, env, hev, -⟩ := roams_received hroams
      exact ⟨tick, pkt, env, hev⟩
  · next j peer src _ hinst =>
      obtain ⟨-, heq⟩ := Option.ite_none_right_eq_some.mp h
      cases heq
      exact installed_received hinst
  · cases h

theorem fresh_start (F : Features) (m : Netmap) (ident sport : UInt16) (now : Nat) :
    Fresh (deviceStart F m ident sport now).node := by
  rw [deviceStart, runStart]
  exact ⟨rfl, rfl, rfl⟩

/-- The first-hand reasons of the data plane, told of the device. -/
theorem addressed_of_warranted {D : Device} {m : Netmap} {s₀ : DeviceState} {evs : List DeviceEvent}
    {found : Nat} {ev : Input} {d : Datagram}
    (hknows : Knows D m evs (D.step (D.after s₀ evs) (.node found ev)).1)
    (h : Warranted D.host s₀.node (nodeInputs D s₀ evs)
      (takeTargets found (D.after s₀ evs).channel ev).1 d) :
    Addressed D m evs (.node found ev) d := by
  have hcame : ∀ {input tick pkt a env},
      input ∈ nodeInputs D s₀ evs ++ [(takeTargets found (D.after s₀ evs).channel ev).1] →
      input.received? = some (tick, pkt, a, env) → CameFrom (evs ++ [.node found ev]) a := by
    intro input tick pkt a env hmem hev
    rw [← nodeInputs_snoc] at hmem
    exact received_nodeInputs hmem hev
  cases h with
  | tunnel hsealed h =>
      obtain ⟨past, input, rest, hsplit, hheard⟩ := heard_of_lastHeard h
      obtain ⟨tick, pkt, env, hev⟩ := heard_source hheard
      exact .answer (hcame (hsplit ▸ List.mem_append_right past List.mem_cons_self) hev)
  | initiation h =>
      obtain ⟨past, input, rest, hsplit, tick, pkt, env, msg, hev, -⟩ := h
      exact .answer (hcame (hsplit ▸ List.mem_append_right past List.mem_cons_self) hev)
  | response h hbytes =>
      obtain ⟨⟨tick, pkt, env, hev, -⟩, -⟩ := step_answer h
      exact .answer (hcame (List.mem_append_right _ List.mem_cons_self) hev)
  | pong h hbytes =>
      obtain ⟨tick, pkt, env, hev, -⟩ := h
      exact .answer (hcame (List.mem_append_right _ List.mem_cons_self) hev)
  | @probe hev t ht h =>
      obtain ⟨hping, hto⟩ := h
      rw [← nodeInputs_snoc, ← after_node, after_snoc] at ht
      have hjust := hknows.targets t ht
      generalize hdst : d.dst = dst at hto
      cases hto with
      | listed hep => exact .probe hping.isDisco (hjust.endpoints d.dst (hdst ▸ hep))
      | sprayed hF hspray hep hpublic hp =>
          exact .spray hping.isDisco hF (hjust.endpoints _ hep) (hjust.spray hspray) hpublic hp hdst
  | stun h =>
      obtain ⟨tick, hk, hev, hbytes⟩ := h
      cases ev with
      | packet tick pkt src env => cases hev
      | process tick pkt src env => cases hev
      | periodic tick' hk' stunAddr =>
          simp only [takeTargets, Input.periodic.injEq] at hev
          obtain ⟨rfl, hhk, rfl⟩ := hev
          refine .stun rfl ?_
          rw [hbytes, ← hhk]
      | drain payloads => cases hev

/-- In every interleaving of the two threads, whatever they are sent: a
datagram of the device is an answer to an address that sent us one, the STUN
request, or a probe. Probes go to endpoints on our /24, to endpoints of peers
that have sent a packet over the relay, listed for them in the netmap or
announced by them there, or are sprayed over the ports of a public endpoint of
such a peer. A packet for the relay goes to the node whose frame came. -/
theorem device_sends_known (C : Crypto) (F : Features) (keys : Keys.NodeKeys) (m : Netmap)
    (packetFilter derpUpgrade : Bool) (ident sport : UInt16) (now : Nat) (evs : List DeviceEvent)
    (e : DeviceEvent) :
    let D := deviceOf C F keys m packetFilter derpUpgrade
    let sent := (D.step (D.after (deviceStart F m ident sport now) evs) e).2
    (∀ d ∈ sent.1, Addressed D m evs e d) ∧
      ∀ p ∈ sent.2, ∃ f, e = .frame f ∧ Relay.Carries f ∧ p.dst = source f := by
  intro D sent
  cases e with
  | node found ev =>
      refine ⟨fun d hd => ?_, fun p hp => absurd hp List.not_mem_nil⟩
      have hfresh := fresh_start F m ident sport now
      have hknows : Knows D m evs (D.after (deviceStart F m ident sport now) evs) :=
        knows_run ident sport now evs
      refine addressed_of_warranted (knows_node found ev hknows) ?_
      refine warranted_step (placed_run hfresh _) (placed_run hfresh _) ?_
      rw [← after_node]
      exact hd
  | frame f =>
      refine ⟨fun d hd => absurd hd List.not_mem_nil, fun p hp => ⟨f, rfl, ?_⟩⟩
      by_cases hf : Relay.Carries f
      · exact ⟨hf, (serveFrame_sentTo D.host.crypto D.host.features D.host.identity D.upgrade _
          f).packets p hp⟩
      · rw [show sent.2 = _ from congrArg (fun r => r.2.packets)
          (serveFrame_idle D.host.crypto D.host.features D.host.identity D.upgrade _ hf)] at hp
        cases hp
  | reconnect =>
      exact ⟨fun d hd => absurd hd List.not_mem_nil, fun p hp => absurd hp List.not_mem_nil⟩

end TailscaleRust.Proofs.DeviceSends
