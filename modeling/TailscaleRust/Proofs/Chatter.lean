import TailscaleRust.Firmware.TwoNodes
import TailscaleRust.Proofs.FastPath
import TailscaleRust.Proofs.Frame
import TailscaleRust.Proofs.Handshake
import TailscaleRust.Proofs.Session

/-!
# What the data plane sends besides handshakes

Everything a node sends is a handshake message or chatter: transport
packets, disco packets under its own key, STUN requests. `Chatter` is what
the receiver needs to know of the latter. The handlers behind a decrypted
packet send transport packets only; the periodic work resends initiations it
still waits on and otherwise chats.
-/

namespace TailscaleRust.Proofs

open TailscaleRust.Lib TailscaleRust.Core TailscaleRust.Core.Wg
open TailscaleRust.Firmware TailscaleRust.Firmware.Dataplane TailscaleRust.Firmware.TwoNodes

/-- Not a handshake message, and if a disco packet then from this key. -/
structure Chatter (discoPub : Key) (b : Bytes) : Prop where
  notInit : b.head? ≠ some msgInitiation
  notResp : b.head? ≠ some msgResponse
  disco : Disco.isDisco b = true → slice b 6 38 = discoPub.1

/-- Every datagram of the list is a transport packet. -/
def AllTransport (out : List Datagram) : Prop :=
  ∀ d ∈ out, d.bytes.head? = some msgTransport

theorem chatter_of_transport {discoPub : Key} {b : Bytes} (h : b.head? = some msgTransport) :
    Chatter discoPub b where
  notInit := by
    rw [h]
    decide
  notResp := by
    rw [h]
    decide
  disco hd := by
    rw [not_isDisco_of_head h (by decide)] at hd
    cases hd

theorem allTransport_nil : AllTransport [] := fun _ h => absurd h List.not_mem_nil

theorem allTransport_append {a b : List Datagram} (ha : AllTransport a) (hb : AllTransport b) :
    AllTransport (a ++ b) := by
  intro d hd
  rcases List.mem_append.mp hd with h | h
  · exact ha d h
  · exact hb d h

/-! ## Transport packets -/

section Transport

variable (C : Crypto) (F : Features) (env : Draws)

theorem encrypt_head (t : Tunnel) (x : Bytes) : (t.encrypt C x).1.head? = some msgTransport := by
  rw [encrypt_eq]
  rfl

theorem encryptAll_transport (dst : SocketAddr) (xs : List Bytes) (t : Tunnel) :
    AllTransport (encryptAll C t dst xs).1 := by
  induction xs generalizing t with
  | nil => exact allTransport_nil
  | cons x xs ih =>
      intro d hd
      rw [encryptAll] at hd
      rcases List.mem_cons.mp hd with rfl | hmem
      · exact encrypt_head C t x
      · exact ih _ d hmem

theorem sendInner_transport (st : State) (i : UInt32) (dst : SocketAddr) (xs : List Bytes) :
    AllTransport (st.sendInner C i dst xs).2 := by
  rw [State.sendInner]
  split
  · exact allTransport_nil
  · exact encryptAll_transport C dst xs _

theorem outboundInput_transport (st : State) (i : UInt32) (inner : Bytes) (src : SocketAddr) :
    AllTransport (outboundInput C F st i inner src).2.1 := by
  rw [outboundInput]
  split
  · split
    · exact allTransport_nil
    · exact sendInner_transport C _ i src _
  · exact allTransport_nil

theorem icmpInput_transport {st st' : State} {i : UInt32} {inner : Bytes} {src : SocketAddr}
    {out : List Datagram} (h : icmpInput C F st i inner src = some (st', out)) :
    AllTransport out := by
  rw [icmpInput] at h
  split at h
  · obtain ⟨reply, -, hs⟩ := Option.map_eq_some_iff.mp h
    have hsend := sendInner_transport C st i src [reply]
    rwa [hs] at hsend
  · cases h

theorem proxyInput_transport (st : State) (i : UInt32) (inner : Bytes) (src : SocketAddr) :
    AllTransport (proxyInput C F env st i inner src).2.1 := by
  rw [proxyInput]
  split
  · simp only []
    split
    · exact allTransport_nil
    · exact sendInner_transport C _ i src _
  · exact allTransport_nil

theorem httpInput_transport (st : State) (i : UInt32) (inner : Bytes) (src : SocketAddr) :
    AllTransport (httpInput C F env st i inner src).2 := by
  rw [httpInput]
  split
  · split
    · exact allTransport_nil
    · exact sendInner_transport C _ i src _
  · exact allTransport_nil

theorem serviceInput_transport (st : State) (i : UInt32) (inner : Bytes) (src : SocketAddr) :
    AllTransport (serviceInput C F env st i inner src).2 := by
  rw [serviceInput]
  split
  · exact allTransport_nil
  · have hout := outboundInput_transport C F st i inner src
    simp only []
    split
    · exact hout
    · split
      · next h => exact allTransport_append hout (icmpInput_transport C F h)
      · have hproxy := allTransport_append hout
          (proxyInput_transport C F env (outboundInput C F st i inner src).1 i inner src)
        split
        · exact hproxy
        · exact allTransport_append hproxy (httpInput_transport C F env _ i inner src)

theorem handleDecrypted_transport (id : Identity) (st : State) (i : UInt32) (inner : Bytes)
    (src : SocketAddr) : AllTransport (handleDecrypted C F env id st i inner src).2 := by
  rw [handleDecrypted]
  split
  · exact allTransport_nil
  · simp only []
    split
    · exact allTransport_nil
    · split
      · exact allTransport_nil
      · exact serviceInput_transport C F env _ i inner src

theorem keepaliveAll_transport (st : State) : AllTransport (keepaliveAll C st).2 := by
  intro d hd
  obtain ⟨e, -, rfl⟩ := List.mem_map.mp hd
  exact encrypt_head C e.tun []

theorem outboundPeriodic_transport (hk : Housekeeping) (st : State) :
    AllTransport (outboundPeriodic C hk st).2 := by
  rw [outboundPeriodic]
  split
  · exact allTransport_nil
  · split
    · exact allTransport_nil
    · exact sendInner_transport C _ _ _ _

end Transport

/-! ## Disco and STUN -/

theorem sealPacket_chatter {C : Crypto} {priv pub peer : Key} {pt : Bytes} {nonce : Arr 24}
    {pkt : Bytes} (h : Disco.sealPacket C priv pub peer pt nonce = .ok pkt) :
    Chatter pub pkt := by
  rw [Disco.sealPacket] at h
  split at h
  · cases h
  · next ct _ =>
      cases h
      have hslice : slice (Disco.magic ++ pub.1 ++ nonce.1 ++ ct) 6 38 = pub.1 := by
        have hlen : 38 ≤ (Disco.magic ++ pub.1).length := by
          rw [List.length_append, pub.2]
          decide
        rw [List.append_assoc, slice_append_left hlen, slice,
          List.drop_left' (show Disco.magic.length = 6 from rfl)]
        exact List.take_of_length_le (Nat.le_of_eq pub.2)
      exact ⟨by simp [Disco.magic, msgInitiation], by simp [Disco.magic, msgResponse],
        fun _ => hslice⟩

theorem openPacket_sender {C : Crypto} {priv pub : Key} {pkt : Bytes} {msg : Disco.Incoming}
    (h : Disco.openPacket C priv pkt = .ok msg) (hpub : slice pkt 6 38 = pub.1) :
    msg.senderDiscoPub = pub := by
  have hsender : arrAt pkt 6 32 = pub := arrAt_eq hpub
  rw [Disco.openPacket] at h
  split at h
  · cases h
  · simp only [] at h
    split at h
    · cases h
    · split at h
      · cases h
      · cases h
        exact hsender

theorem bindingRequest_chatter (discoPub : Key) (txid : Arr 12) :
    Chatter discoPub (Stun.bindingRequest txid) := by
  have hhead : ∃ rest, Stun.bindingRequest txid = 0 :: rest := ⟨_, rfl⟩
  obtain ⟨rest, hrest⟩ := hhead
  rw [hrest]
  refine ⟨by simp [msgInitiation], by simp [msgResponse], fun hd => ?_⟩
  have hmagic : slice (0 :: rest) 0 6 = Disco.magic := by
    simp only [Disco.isDisco, decide_eq_true_eq] at hd
    exact hd.2
  rw [slice, List.drop_zero] at hmagic
  cases hmagic

/-! ## A chatter packet received -/

/-- The handshakes waited on are the same, and so are the tunnels up to their
counters and TCP servers. -/
structure Kept (st st' : State) : Prop where
  pending : st'.pending = st.pending
  tunnels : ∀ i, (st'.tunnels.get? i).map fixedPart = (st.tunnels.get? i).map fixedPart

theorem Kept.refl (st : State) : Kept st st := ⟨rfl, fun _ => rfl⟩

theorem Frame.kept {st st' : State} (h : Frame st st') : Kept st st' := ⟨h.pending, h.tunnels⟩

section Receive

variable (C : Crypto) (F : Features) (env : Draws) (id : Identity) (targets : List Target)
  (tick : UInt32)

/-- The state and the packet with which a node starts a handshake. -/
def startState (st : State) (peer : Key) (src : SocketAddr) : State × List Datagram :=
  let b := buildInitiation C id.nodePriv id.nodePub peer
    (tai64n env.unixSecs env.unixNanos) env.index env.ephemeral
  ({ st with pending := st.pending.insert peer ⟨src, b.1, b.2, env.index, tick, 0⟩ },
    [⟨src, b.1.1⟩])

/-- The target a PONG of this sender starts a handshake with, if any. -/
def startTarget (targets : List Target) (st : State) (sender : Key) (src : SocketAddr) :
    Option Target :=
  (targets.find? fun t => t.discoPub = sender).filter fun t =>
    ¬(st.pending.contains t.nodePub ∨ st.tunnels.values.any (fun e => e.addr = src)
      ∨ st.tunnels.size + st.pending.size ≥ maxTunnels)

theorem maybeStartHandshake_eq (st : State) (sender : Key) (src : SocketAddr) :
    maybeStartHandshake C env id targets st tick sender src =
      match startTarget targets st sender src with
      | none => (st, [])
      | some t =>
          (if env.sendOk then (startState C env id tick st t.nodePub src).1 else st,
            (startState C env id tick st t.nodePub src).2) := by
  rw [maybeStartHandshake, startTarget]
  cases targets.find? fun t => t.discoPub = sender with
  | none => rfl
  | some t =>
      simp only []
      split
      · next hbusy =>
          rw [Option.filter_some, decide_eq_false (not_not_intro hbusy), if_neg (by decide)]
      · next hfree =>
          rw [Option.filter_some, if_pos (decide_eq_true hfree)]
          rfl

/-- A handshake with the target may start on the path to `src`. -/
structure Admits (targets : List Target) (st : State) (sender : Key) (src : SocketAddr)
    (t : Target) : Prop where
  target : targets.find? (fun t => t.discoPub = sender) = some t
  slot : st.pending.contains t.nodePub = false
  path : st.tunnels.values.any (fun e => e.addr = src) = false
  room : st.tunnels.size + st.pending.size < maxTunnels

theorem startTarget_some {targets : List Target} {st : State} {sender : Key} {src : SocketAddr}
    {t : Target} : startTarget targets st sender src = some t ↔ Admits targets st sender src t := by
  rw [startTarget, Option.filter_eq_some_iff, decide_eq_true_eq]
  simp only [not_or, Bool.not_eq_true, Nat.not_le]
  exact ⟨fun h => ⟨h.1, h.2.1, h.2.2.1, h.2.2.2⟩, fun h => ⟨h.target, h.slot, h.path, h.room⟩⟩

theorem maybeStartHandshake_cases (st : State) {peer : Identity} {src : SocketAddr}
    (hknows : Knows targets peer) (hok : env.sendOk = true) :
    maybeStartHandshake C env id targets st tick peer.discoPub src = (st, []) ∨
    (st.pending.contains peer.nodePub = false ∧
      st.tunnels.values.any (fun e => e.addr = src) = false ∧
      maybeStartHandshake C env id targets st tick peer.discoPub src =
        startState C env id tick st peer.nodePub src) := by
  obtain ⟨t, hfind, hnode⟩ := Option.map_eq_some_iff.mp hknows
  rw [maybeStartHandshake_eq]
  cases hstart : startTarget targets st peer.discoPub src with
  | none => exact .inl rfl
  | some t' =>
      obtain ⟨hfind', hpend, haddr, -⟩ := startTarget_some.mp hstart
      rw [hfind] at hfind'
      cases hfind'
      rw [hnode] at hpend
      simp only [hok, if_true, hnode]
      exact .inr ⟨hpend, haddr, trivial⟩

theorem handleWgTransport_kept {st : State} (pkt : Bytes) {src : SocketAddr}
    (haddr : ∀ i e, st.tunnels.get? i = some e → e.addr = src) :
    Kept st (handleWgTransport C F env id st pkt src).1 ∧
    AllTransport (handleWgTransport C F env id st pkt src).2 := by
  rw [handleWgTransport]
  split
  · exact ⟨Kept.refl st, allTransport_nil⟩
  · simp only []
    split
    · exact ⟨Kept.refl st, allTransport_nil⟩
    · next e he =>
        split
        · exact ⟨Kept.refl st, allTransport_nil⟩
        · next inner _ =>
            refine ⟨?_, handleDecrypted_transport C F env id st _ inner src⟩
            -- the packet comes from where the tunnel already points
            have hroam : st.tunnels.modify (u32le pkt 4) (fun e => { e with addr := src }) =
                st.tunnels := by
              refine Table.modify_eq_self fun v hv => ?_
              rw [← haddr _ v hv]
            have hframe := handleDecrypted_frame C F env id st _ inner src he
            rw [hroam] at hframe
            exact hframe.kept

/-- A chatter packet changes nothing a handshake depends on, except that a
PONG may start one if there is none and no tunnel. -/
theorem handlePacket_chatter {st : State} {peer : Identity} {pkt : Bytes} {src : SocketAddr}
    (hchat : Chatter peer.discoPub pkt) (hknows : Knows targets peer) (hok : env.sendOk = true)
    (haddr : ∀ i e, st.tunnels.get? i = some e → e.addr = src) :
    (Kept st (handlePacket C F env id targets st tick pkt src).1 ∧
      ∀ d ∈ (handlePacket C F env id targets st tick pkt src).2, Chatter id.discoPub d.bytes) ∨
    (st.pending.contains peer.nodePub = false ∧ (∀ i, st.tunnels.get? i = none) ∧
      handlePacket C F env id targets st tick pkt src =
        startState C env id tick { st with confirmed := st.confirmed.insert src }
          peer.nodePub src) := by
  have hstay : ∀ s, Kept st s → (Kept st s ∧ ∀ d ∈ ([] : List Datagram),
      Chatter id.discoPub d.bytes) := fun s hs => ⟨hs, fun d hd => absurd hd List.not_mem_nil⟩
  rw [handlePacket]
  split
  · next hdisco =>
      rw [handleDisco]
      split
      · exact .inl (hstay st (Kept.refl st))
      · next msg hmsg =>
          have hsender := openPacket_sender hmsg (hchat.disco hdisco)
          split
          · split
            · exact .inl (hstay st (Kept.refl st))
            · next reply hreply =>
                refine .inl ⟨Kept.refl st, fun d hd => ?_⟩
                cases List.mem_singleton.mp hd
                exact sealPacket_chatter hreply
          · split
            · simp only [hsender]
              rcases maybeStartHandshake_cases C env id targets tick
                  { st with confirmed := st.confirmed.insert src } hknows hok with
                hno | ⟨hpend, htun, hstart⟩
              · rw [hno]
                exact .inl (hstay _ ⟨rfl, fun _ => rfl⟩)
              · refine .inr ⟨hpend, fun i => ?_, hstart⟩
                cases hi : st.tunnels.get? i with
                | none => rfl
                | some e =>
                    have hany : st.tunnels.values.any (fun e => e.addr = src) = true :=
                      Table.any_values_iff.mpr ⟨i, e, hi, decide_eq_true (haddr i e hi)⟩
                    rw [hany] at htun
                    cases htun
            · exact .inl (hstay st (Kept.refl st))
  · split
    · exact .inl (hstay st (Kept.refl st))
    · rw [if_neg hchat.notInit, if_neg hchat.notResp]
      split
      · obtain ⟨hkept, hout⟩ := handleWgTransport_kept C F env id pkt haddr
        exact .inl ⟨hkept, fun d hd => chatter_of_transport (hout d hd)⟩
      · exact .inl (hstay st (Kept.refl st))

end Receive

/-! ## The periodic step -/

theorem knows_cons {e : Target} {rest : List Target} {id : Identity} :
    Knows (e :: rest) id ↔
      if e.discoPub = id.discoPub then e.nodePub = id.nodePub else Knows rest id := by
  rw [Knows, List.find?_cons]
  by_cases he : e.discoPub = id.discoPub
  · simp [he]
  · simp [he, Knows]

theorem knows_mergeTarget {targets : List Target} {id : Identity} (h : Knows targets id)
    (t : Target) : Knows (mergeTarget targets t) id := by
  induction targets with
  | nil => cases h
  | cons e rest ih =>
      rw [knows_cons] at h
      rw [mergeTarget]
      split
      · rw [knows_cons]
        exact h
      · rw [knows_cons]
        split
        · next he =>
            rw [if_pos he] at h
            exact h
        · next he =>
            rw [if_neg he] at h
            exact ih h

theorem knows_merged {targets : List Target} {id : Identity} (h : Knows targets id)
    (incoming : List Target) : Knows (incoming.foldl mergeTarget targets) id := by
  induction incoming generalizing targets with
  | nil => exact h
  | cons t ts ih => exact ih (knows_mergeTarget h t)

section Periodic

variable (C : Crypto) (F : Features) (hk : Housekeeping) (id : Identity)

/-- What the probes of one target append to the datagrams sent so far. -/
theorem probeEndpoints_append (pkt : Bytes) (eps : List SocketAddr)
    (strikes : Table SocketAddr UInt8) (out : List Datagram) :
    ∃ rest, (probeEndpoints hk pkt eps strikes out).2 = out ++ rest ∧
      ∀ d ∈ rest, d.bytes = pkt ∧ d.dst ∈ eps := by
  induction eps generalizing strikes out with
  | nil => exact ⟨[], (List.append_nil out).symm, fun d hd => absurd hd List.not_mem_nil⟩
  | cons ep eps ih =>
      have hlater : ∀ strikes out, ∃ rest, (probeEndpoints hk pkt eps strikes out).2 = out ++ rest ∧
          ∀ d ∈ rest, d.bytes = pkt ∧ d.dst ∈ ep :: eps := by
        intro strikes out
        obtain ⟨rest, heq, hrest⟩ := ih strikes out
        exact ⟨rest, heq, fun d hd => ⟨(hrest d hd).1, List.mem_cons_of_mem ep (hrest d hd).2⟩⟩
      rw [probeEndpoints]
      simp only []
      split
      · exact hlater _ _
      · obtain ⟨rest, heq, hrest⟩ := hlater _ _
        refine ⟨_, heq.trans (List.append_assoc ..), fun d hd => ?_⟩
        rcases List.mem_append.mp hd with hd | hd
        · cases List.mem_singleton.mp hd
          exact ⟨rfl, List.mem_cons_self⟩
        · exact hrest d hd

theorem sprayTarget_mem {tunnels : Table UInt32 TunnelEntry} {t : Target} {n : Nat} {pkt : Bytes}
    {round : UInt32} : ∀ d ∈ sprayTarget F hk tunnels t n pkt round, d.bytes = pkt := by
  intro d hd
  rw [sprayTarget] at hd
  split at hd
  · obtain ⟨l, hl, hd⟩ := List.mem_flatten.mp hd
    obtain ⟨i, hi, rfl⟩ := List.mem_mapIdx.mp hl
    rw [sprayEndpoint.eq_def] at hd
    split at hd
    · split at hd
      · obtain ⟨p, -, rfl⟩ := List.mem_map.mp hd
        rfl
      · cases hd
    · cases hd
  · cases hd

theorem probeTargets_append (tunnels : Table UInt32 TunnelEntry) (round : UInt32) (n : Nat)
    (ts : List Target) (strikes : Table SocketAddr UInt8) (out : List Datagram) :
    ∃ rest, (probeTargets C F hk id tunnels round n ts strikes out).2 = out ++ rest ∧
      ∀ d ∈ rest, Chatter id.discoPub d.bytes := by
  induction ts generalizing n strikes out with
  | nil => exact ⟨[], (List.append_nil out).symm, fun d hd => absurd hd List.not_mem_nil⟩
  | cons t ts ih =>
      rw [probeTargets]
      split
      · exact ih _ _ _
      · split
        · exact ih _ _ _
        · next pkt hpkt =>
            have hchat := sealPacket_chatter hpkt
            simp only []
            obtain ⟨probes, hprobes, hbytes⟩ :=
              probeEndpoints_append hk pkt t.endpoints strikes out
            obtain ⟨rest, hrest, hall⟩ := ih _ _ _
            refine ⟨probes ++ sprayTarget F hk tunnels t n pkt round ++ rest, ?_, fun d hd => ?_⟩
            · rw [hrest, hprobes]
              simp only [List.append_assoc]
            · rcases List.mem_append.mp hd with hd | hd
              · rcases List.mem_append.mp hd with hd | hd
                · exact (hbytes d hd).1 ▸ hchat
                · exact sprayTarget_mem F hk d hd ▸ hchat
              · exact hall d hd

theorem keepaliveAll_kept (st : State) : Kept st (keepaliveAll C st).1 where
  pending := rfl
  tunnels i := by
    simp only [keepaliveAll, Table.get?_mapValues, Option.map_map]
    rfl

theorem outboundPeriodic_kept (st : State) : Kept st (outboundPeriodic C hk st).1 := by
  rw [outboundPeriodic]
  split
  · exact Kept.refl st
  · split
    · exact Kept.refl st
    · next ob _ _ i e _ =>
        have hset : Frame st { st with outbound := some (outboundKick hk ob).1 } :=
          ⟨rfl, rfl, rfl, fun _ => rfl⟩
        exact (hset.trans (sendInner_frame C _ i e.addr _)).kept

theorem Kept.trans {a b c : State} (h : Kept a b) (h' : Kept b c) : Kept a c where
  pending := h'.pending.trans h.pending
  tunnels i := (h'.tunnels i).trans (h.tunnels i)

/-- A retry drops the handshake, leaves it, or sends it once more. -/
theorem retryPending_cases (tunnels : Table UInt32 TunnelEntry) (tick : UInt32) (p : Pending) :
    retryPending tunnels tick p = (none, []) ∨ retryPending tunnels tick p = (some p, []) ∨
    (p.retries < maxHsRetries ∧ retryPending tunnels tick p =
      (some { p with sentTick := tick, retries := p.retries + 1 }, [⟨p.addr, p.init.1⟩])) := by
  rw [retryPending]
  split
  · exact .inl rfl
  · split
    · split
      · exact .inl rfl
      · next hmax => exact .inr (.inr ⟨UInt32.not_le.mp hmax, rfl⟩)
    · exact .inr (.inl rfl)

theorem get?_retryAll (st : State) (tick : UInt32) (k : Key) :
    (retryAll st tick).1.pending.get? k =
      (st.pending.get? k).bind fun p => (retryPending st.tunnels tick p).1 :=
  Table.get?_filterMap ..

/-- The periodic step: the retries decide what is still waited on and may
resend it, and all else it does is chatter. -/
theorem runPeriodic_spec (st : State) (lp : Loop) (tick : UInt32)
    (stunAddr : Option SocketAddr) :
    Kept (retryAll st tick).1 (runPeriodic C F hk id st lp tick stunAddr).1 ∧
    (runPeriodic C F hk id st lp tick stunAddr).2.1.targets =
      hk.incoming.foldl mergeTarget lp.targets ∧
    ∃ rest, (runPeriodic C F hk id st lp tick stunAddr).2.2 = (retryAll st tick).2 ++ rest ∧
      ∀ d ∈ rest, Chatter id.discoPub d.bytes := by
  -- everything before the STUN request
  have hprobe : ∀ (targets : List Target) (round : UInt32),
      let probed := probeTargets C F hk id (retryAll st tick).1.tunnels round 0 targets
        lp.strikes (retryAll st tick).2
      let kept := keepaliveAll C (retryAll st tick).1
      let obs := if F.outbound then outboundPeriodic C hk kept.1 else (kept.1, [])
      Kept (retryAll st tick).1 obs.1 ∧
      ∃ rest, probed.2 ++ kept.2 ++ obs.2 = (retryAll st tick).2 ++ rest ∧
        ∀ d ∈ rest, Chatter id.discoPub d.bytes := by
    intro targets round probed kept obs
    have hkeep : Kept (retryAll st tick).1 kept.1 := keepaliveAll_kept C _
    have hobs : Kept kept.1 obs.1 ∧ AllTransport obs.2 := by
      simp only [obs]
      split
      · exact ⟨outboundPeriodic_kept C hk _, outboundPeriodic_transport C hk _⟩
      · exact ⟨Kept.refl _, allTransport_nil⟩
    obtain ⟨probes, hprobes, hchat⟩ := probeTargets_append C F hk id
      (retryAll st tick).1.tunnels round 0 targets lp.strikes (retryAll st tick).2
    refine ⟨hkeep.trans hobs.1, probes ++ kept.2 ++ obs.2, ?_, fun d hd => ?_⟩
    · simp only [probed, hprobes, List.append_assoc]
    · rcases List.mem_append.mp hd with hd | hd
      · rcases List.mem_append.mp hd with hd | hd
        · exact hchat d hd
        · exact chatter_of_transport (keepaliveAll_transport C _ d hd)
      · exact chatter_of_transport (hobs.2 d hd)
  let stun : List Datagram := stunAddr.toList.map fun a => ⟨a, Stun.bindingRequest hk.stunTxid⟩
  have hstun : ∀ d ∈ stun, Chatter id.discoPub d.bytes := by
    intro d hd
    obtain ⟨a, -, rfl⟩ := List.mem_map.mp hd
    exact bindingRequest_chatter id.discoPub hk.stunTxid
  rw [runPeriodic]
  simp only []
  by_cases hdue : hk.now - lp.lastProbe ≥ 2000
  · simp only [if_pos hdue]
    obtain ⟨hkept, rest, hout, hrest⟩ :=
      hprobe (hk.incoming.foldl mergeTarget lp.targets) (lp.probeRound + 1)
    split
    · refine ⟨hkept, rfl, rest ++ stun, ?_, fun d hd => ?_⟩
      · exact (congrArg (· ++ stun) hout).trans (List.append_assoc ..)
      · rcases List.mem_append.mp hd with hd | hd
        · exact hrest d hd
        · exact hstun d hd
    · exact ⟨hkept, rfl, rest, hout, hrest⟩
  · simp only [if_neg hdue]
    split
    · exact ⟨Kept.refl _, rfl, stun, rfl, hstun⟩
    · exact ⟨Kept.refl _, rfl, [], (List.append_nil _).symm,
        fun d hd => absurd hd List.not_mem_nil⟩

end Periodic

end TailscaleRust.Proofs
