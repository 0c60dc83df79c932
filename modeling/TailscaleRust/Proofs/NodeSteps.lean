import TailscaleRust.Firmware.NodeRun
import TailscaleRust.Proofs.Chatter

/-!
# What a step does to a node's tables

Most inputs leave the handshakes in flight, the tunnels and the confirmed
paths alone, except that counters advance, TCP state changes and a tunnel
follows its peer's address. `Outcome` names the others, with what they put
into the tables: a PONG that may start a handshake, an initiation that is
answered, a response that completes a handshake or is refused, and the
retries of the periodic work. It is computed from the datagram and the state
before the step by the functions of the source; one lemma per outcome says
what the step then is, and everything shown about runs goes through these.
-/

namespace TailscaleRust.Proofs

open TailscaleRust.Lib TailscaleRust.Core TailscaleRust.Core.Wg
open TailscaleRust.Firmware TailscaleRust.Firmware.Dataplane

/-! ## Outcomes -/

inductive Outcome where
  | quiet
  | pong (tick : UInt32) (env : Draws) (sender : Key) (src : SocketAddr)
  | answer (index : UInt32) (resp : Arr respLen) (tun : Tunnel) (peer : Key) (src : SocketAddr)
  | complete (key : Key) (p : Pending) (tun : Tunnel) (src : SocketAddr)
  | refuse (key : Key)
  | retry (tick : UInt32)

section Outcomes

variable (H : Host) (s : NodeState)

/-- The outcome of a received datagram. -/
def received (tick : UInt32) (pkt : Bytes) (src : SocketAddr) (env : Draws) : Outcome :=
  if Disco.isDisco pkt then
    match Disco.openPacket H.crypto H.identity.discoPriv pkt with
    | .error _ => .quiet
    | .ok msg => if msg.msgType = Disco.pong then .pong tick env msg.senderDiscoPub src else .quiet
  else if Stun.isStun pkt then .quiet
  else if pkt.head? = some msgInitiation then
    match consumeInitiation H.crypto H.identity.nodePriv H.identity.nodePub pkt env.index
        env.ephemeral with
    | .error _ => .quiet
    | .ok (resp, tun, peer) => .answer env.index resp tun peer src
  else if pkt.head? = some msgResponse ∧ 12 ≤ pkt.length then
    match s.st.pending.find? fun _ p => p.ourIndex = u32le pkt 8 with
    | none => .quiet
    | some (key, p) =>
        match p.hs.consumeResponse H.crypto pkt with
        | .error _ => .refuse key
        | .ok tun => .complete key p tun src
  else .quiet

def outcome : Input → Outcome
  | .packet tick pkt src env => received H s tick pkt src env
  | .process tick pkt src env => received H s tick pkt src env
  | .periodic tick _ _ => .retry tick
  | .drain _ => .quiet

end Outcomes

/-- Who a tunnel is with, under which keys and indices. -/
def linkPart (e : TunnelEntry) : Tunnel × Key := ({ e.tun with txCounter := 0 }, e.peerNode)

/-- The tables are the same, the tunnels up to counters, TCP servers and
addresses. -/
structure Steady (st st' : State) : Prop where
  pending : st'.pending = st.pending
  confirmed : st'.confirmed = st.confirmed
  tunnels : ∀ i, (st'.tunnels.get? i).map linkPart = (st.tunnels.get? i).map linkPart

theorem Steady.refl (st : State) : Steady st st := ⟨rfl, rfl, fun _ => rfl⟩

theorem Steady.trans {a b c : State} (h : Steady a b) (h' : Steady b c) : Steady a c where
  pending := h'.pending.trans h.pending
  confirmed := h'.confirmed.trans h.confirmed
  tunnels i := (h'.tunnels i).trans (h.tunnels i)

theorem linkPart_of_fixedPart {e e' : TunnelEntry} (h : fixedPart e' = fixedPart e) :
    linkPart e' = linkPart e :=
  congrArg (fun e => (e.tun, e.peerNode)) h

/-- Agreement on the fixed part of every entry is agreement on who it is with. -/
theorem map_linkPart {o o' : Option TunnelEntry} (h : o'.map fixedPart = o.map fixedPart) :
    o'.map linkPart = o.map linkPart := by
  cases o with
  | none =>
      cases o' with
      | none => rfl
      | some e' => cases h
  | some e =>
      cases o' with
      | none => cases h
      | some e' => exact congrArg some (linkPart_of_fixedPart (Option.some.inj h))

theorem Frame.steady {st st' : State} (h : Frame st st') : Steady st st' :=
  ⟨h.pending, h.confirmed, fun i => map_linkPart (h.tunnels i)⟩

/-- The entry a step leaves under an index, where it leaves the tables alone. -/
theorem get?_of_linkPart {t t' : Table UInt32 TunnelEntry}
    (h : ∀ i, (t'.get? i).map linkPart = (t.get? i).map linkPart) {i : UInt32}
    {e' : TunnelEntry} (he' : t'.get? i = some e') :
    ∃ e, t.get? i = some e ∧ linkPart e' = linkPart e := by
  have hi := h i
  rw [he'] at hi
  obtain ⟨e, he, heq⟩ := Option.map_eq_some_iff.mp hi.symm
  exact ⟨e, he, heq.symm⟩

theorem contains_of_linkPart {t t' : Table UInt32 TunnelEntry}
    (h : ∀ i, (t'.get? i).map linkPart = (t.get? i).map linkPart) (i : UInt32) :
    t'.contains i = t.contains i := by
  have hi := congrArg Option.isSome (h i)
  rwa [Option.isSome_map, Option.isSome_map] at hi

/-! ## Quiet steps -/

section Quiet

variable (C : Crypto) (F : Features) (env : Draws)

theorem handleDecrypted_steady (id : Identity) (st : State) (i : UInt32) (inner : Bytes)
    (src : SocketAddr) : Steady st (handleDecrypted C F env id st i inner src).1 := by
  cases he : st.tunnels.get? i with
  | none =>
      rw [handleDecrypted, he]
      exact Steady.refl st
  | some e =>
      -- the address is no part of who the tunnel is with
      have hroam : Steady st { st with
          tunnels := st.tunnels.modify i fun e => { e with addr := src } } := by
        refine ⟨rfl, rfl, fun j => ?_⟩
        rw [Table.get?_modify]
        split
        · rw [Option.map_map]
          rfl
        · rfl
      exact hroam.trans (handleDecrypted_frame C F env id st i inner src he).steady

theorem handleWgTransport_steady (id : Identity) (st : State) (pkt : Bytes) (src : SocketAddr) :
    Steady st (handleWgTransport C F env id st pkt src).1 ∧
    AllTransport (handleWgTransport C F env id st pkt src).2 := by
  rw [handleWgTransport]
  split
  · exact ⟨Steady.refl st, allTransport_nil⟩
  · simp only []
    split
    · exact ⟨Steady.refl st, allTransport_nil⟩
    · split
      · exact ⟨Steady.refl st, allTransport_nil⟩
      · exact ⟨handleDecrypted_steady C F env id st _ _ src,
          handleDecrypted_transport C F env id st _ _ src⟩

theorem mdnsDrain_steady (ourIp partnerIp : Ipv4Addr) (partnerNode : Key)
    (payloads : List Bytes) (st : State) :
    Steady st (mdnsDrain C ourIp partnerIp partnerNode payloads st).1 ∧
    AllTransport (mdnsDrain C ourIp partnerIp partnerNode payloads st).2 := by
  induction payloads generalizing st with
  | nil => exact ⟨Steady.refl st, allTransport_nil⟩
  | cons payload rest ih =>
      rw [mdnsDrain]
      split
      · exact ih st
      · obtain ⟨hsteady, hout⟩ := ih (st.sendInner C _ _ _).1
        exact ⟨(sendInner_frame C st _ _ _).steady.trans hsteady,
          allTransport_append (sendInner_transport C st _ _ _) hout⟩

end Quiet

/-- A quiet step changes nothing but counters, TCP state and addresses, and
sends nothing a handshake would read. -/
structure Still (H : Host) (st : State) (r : State × List Datagram) : Prop where
  steady : Steady st r.1
  sends : ∀ d ∈ r.2, Chatter H.identity.discoPub d.bytes

theorem still_none (H : Host) (st : State) : Still H st (st, []) :=
  ⟨Steady.refl st, fun _ hd => absurd hd List.not_mem_nil⟩

theorem still_transport {H : Host} {st : State} {r : State × List Datagram}
    (h : Steady st r.1) (hout : AllTransport r.2) : Still H st r :=
  ⟨h, fun d hd => chatter_of_transport (hout d hd)⟩

/-- A transport packet is never anything else. -/
theorem received_transport {H : Host} {s : NodeState} {tick : UInt32} {pkt : Bytes}
    {src : SocketAddr} {env : Draws} (h : pkt.head? = some msgTransport) :
    received H s tick pkt src env = .quiet := by
  have hdisco := not_isDisco_of_head h (by decide)
  have hinit : pkt.head? ≠ some msgInitiation := by
    rw [h]
    decide
  have hresp : ¬(pkt.head? = some msgResponse ∧ 12 ≤ pkt.length) := by
    rw [h]
    intro hr
    exact absurd hr.1 (by decide)
  rw [received, if_neg (by rw [hdisco]; decide), if_neg hinit, if_neg hresp, ite_self]

/-! ## The step, by its outcome -/

section Steps

variable {H : Host} {s : NodeState}

/-- The two ways in differ on transport packets only. -/
theorem step_process (tick : UInt32) (pkt : Bytes) (src : SocketAddr) (env : Draws)
    (h : ¬(pkt.head? = some msgTransport ∧ pkt.length ≥ 16)) :
    H.step s (.process tick pkt src env) = H.step s (.packet tick pkt src env) := by
  rw [Host.step, Host.step, processPacket, if_neg h]

/-- The state is as it was, and nothing goes out that a handshake would read. -/
def Answers (H : Host) (st : State) (r : State × List Datagram) : Prop :=
  ∃ out, r = (st, out) ∧ ∀ d ∈ out, Chatter H.identity.discoPub d.bytes

theorem answers_none (H : Host) (st : State) : Answers H st (st, []) :=
  ⟨[], rfl, fun _ hd => absurd hd List.not_mem_nil⟩

/-- A disco message that is no PONG is answered, at most. -/
theorem handleDisco_answers {targets : List Target} {tick : UInt32} {pkt : Bytes}
    {src : SocketAddr} {env : Draws} {st : State}
    (h : ∀ msg, Disco.openPacket H.crypto H.identity.discoPriv pkt = .ok msg →
      ¬msg.msgType = Disco.pong) :
    Answers H st (handleDisco H.crypto env H.identity targets st tick pkt src) := by
  rw [handleDisco]
  cases hmsg : Disco.openPacket H.crypto H.identity.discoPriv pkt with
  | error e => exact answers_none H st
  | ok msg =>
      simp only [if_neg (h msg hmsg)]
      split
      · split
        · exact answers_none H st
        · next reply hreply =>
            refine ⟨_, rfl, fun d hd => ?_⟩
            cases List.mem_singleton.mp hd
            exact sealPacket_chatter hreply
      · exact answers_none H st

/-- A quiet datagram is a disco message, goes to a tunnel or does nothing. -/
theorem handlePacket_quiet_inv {tick : UInt32} {pkt : Bytes} {src : SocketAddr} {env : Draws}
    (h : received H s tick pkt src env = .quiet) :
    (Disco.isDisco pkt = true ∧
      handlePacket H.crypto H.features env H.identity s.lp.targets s.st tick pkt src =
        handleDisco H.crypto env H.identity s.lp.targets s.st tick pkt src) ∨
    (pkt.head? = some msgTransport ∧
      handlePacket H.crypto H.features env H.identity s.lp.targets s.st tick pkt src =
        handleWgTransport H.crypto H.features env H.identity s.st pkt src) ∨
    handlePacket H.crypto H.features env H.identity s.lp.targets s.st tick pkt src =
      (s.st, []) := by
  rw [received] at h
  rw [handlePacket]
  split at h
  · next hdisco => exact .inl ⟨hdisco, if_pos hdisco⟩
  · next hdisco =>
      rw [if_neg hdisco]
      split at h
      · next hstun => exact .inr (.inr (if_pos hstun))
      · next hstun =>
          rw [if_neg hstun]
          split at h
          · next hinit =>
              rw [if_pos hinit, handleWgInit]
              cases hinitiation : consumeInitiation H.crypto H.identity.nodePriv
                  H.identity.nodePub pkt env.index env.ephemeral with
              | error e => exact .inr (.inr rfl)
              | ok made =>
                  simp only [hinitiation] at h
                  cases h
          · next hinit =>
              rw [if_neg hinit]
              split
              · next hresp =>
                  rw [handleWgResponse]
                  split
                  · exact .inr (.inr rfl)
                  · next hlen =>
                      rw [if_pos ⟨hresp, by omega⟩] at h
                      cases hfind : s.st.pending.find? fun _ p => p.ourIndex = u32le pkt 8 with
                      | none => exact .inr (.inr rfl)
                      | some slot =>
                          simp only [hfind] at h
                          split at h
                          · cases h
                          · cases h
              · split
                · next htransport => exact .inr (.inl ⟨htransport, rfl⟩)
                · exact .inr (.inr rfl)

/-- A disco message that is quiet is no PONG. -/
theorem not_pong_of_quiet {tick : UInt32} {pkt : Bytes} {src : SocketAddr} {env : Draws}
    (h : received H s tick pkt src env = .quiet) (hdisco : Disco.isDisco pkt = true)
    {msg : Disco.Incoming} (hmsg : Disco.openPacket H.crypto H.identity.discoPriv pkt = .ok msg) :
    ¬msg.msgType = Disco.pong := by
  intro hpong
  rw [received, if_pos hdisco, hmsg] at h
  simp only [if_pos hpong] at h
  cases h

/-- A quiet datagram is answered, at most, or goes to a tunnel. -/
theorem handlePacket_quiet_cases {tick : UInt32} {pkt : Bytes} {src : SocketAddr} {env : Draws}
    (h : received H s tick pkt src env = .quiet) :
    Answers H s.st
      (handlePacket H.crypto H.features env H.identity s.lp.targets s.st tick pkt src) ∨
    (pkt.head? = some msgTransport ∧
      handlePacket H.crypto H.features env H.identity s.lp.targets s.st tick pkt src =
        handleWgTransport H.crypto H.features env H.identity s.st pkt src) := by
  rcases handlePacket_quiet_inv h with ⟨hdisco, heq⟩ | htransport | heq
  · rw [heq]
    exact .inl (handleDisco_answers fun msg hmsg => not_pong_of_quiet h hdisco hmsg)
  · exact .inr htransport
  · rw [heq]
    exact .inl (answers_none H s.st)

theorem handlePacket_quiet {tick : UInt32} {pkt : Bytes} {src : SocketAddr} {env : Draws}
    (h : received H s tick pkt src env = .quiet) :
    Still H s.st (handlePacket H.crypto H.features env H.identity s.lp.targets s.st tick pkt
      src) := by
  rcases handlePacket_quiet_cases h with ⟨out, heq, hout⟩ | ⟨-, heq⟩
  · rw [heq]
    exact ⟨Steady.refl s.st, hout⟩
  · obtain ⟨hsteady, hout⟩ :=
      handleWgTransport_steady H.crypto H.features env H.identity s.st pkt src
    rw [heq]
    exact still_transport hsteady hout

theorem step_quiet {ev : Input} (h : outcome H s ev = .quiet) :
    Still H s.st ((H.step s ev).1.st, (H.step s ev).2) := by
  cases ev with
  | packet tick pkt src env => exact handlePacket_quiet h
  | process tick pkt src env =>
      by_cases hfast : pkt.head? = some msgTransport ∧ pkt.length ≥ 16
      · rw [Host.step, processPacket, if_pos hfast]
        simp only []
        split
        · exact still_none H s.st
        · split
          · exact still_none H s.st
          · exact still_transport
              (handleDecrypted_steady H.crypto H.features env H.identity s.st _ _ src)
              (handleDecrypted_transport H.crypto H.features env H.identity s.st _ _ src)
      · rw [step_process tick pkt src env hfast]
        exact handlePacket_quiet h
  | periodic tick hk stunAddr => cases h
  | drain payloads =>
      obtain ⟨hsteady, hout⟩ := mdnsDrain_steady H.crypto H.mdnsOurIp H.mdnsPartnerIp
        H.mdnsPartnerNode payloads s.st
      exact still_transport hsteady hout

/-- What is known of a datagram by its outcome. -/
inductive Reads (H : Host) (s : NodeState) (tick : UInt32) (pkt : Bytes) (src : SocketAddr)
    (env : Draws) : Outcome → Prop
  | quiet : Reads H s tick pkt src env .quiet
  | pong {msg : Disco.Incoming} (hdisco : Disco.isDisco pkt = true)
      (hopen : Disco.openPacket H.crypto H.identity.discoPriv pkt = .ok msg)
      (hpong : msg.msgType = Disco.pong) :
      Reads H s tick pkt src env (.pong tick env msg.senderDiscoPub src)
  | answer {resp : Arr respLen} {tun : Tunnel} {peer : Key} (hdisco : ¬Disco.isDisco pkt = true)
      (hstun : ¬Stun.isStun pkt = true) (hinit : pkt.head? = some msgInitiation)
      (hok : consumeInitiation H.crypto H.identity.nodePriv H.identity.nodePub pkt env.index
        env.ephemeral = .ok (resp, tun, peer)) :
      Reads H s tick pkt src env (.answer env.index resp tun peer src)
  | complete {key : Key} {p : Pending} {tun : Tunnel} (hdisco : ¬Disco.isDisco pkt = true)
      (hstun : ¬Stun.isStun pkt = true) (hinit : ¬pkt.head? = some msgInitiation)
      (hresp : pkt.head? = some msgResponse) (hlen : 12 ≤ pkt.length)
      (hfind : s.st.pending.find? (fun _ p => p.ourIndex = u32le pkt 8) = some (key, p))
      (hok : p.hs.consumeResponse H.crypto pkt = .ok tun) :
      Reads H s tick pkt src env (.complete key p tun src)
  | refuse {key : Key} {p : Pending} {e : String} (hdisco : ¬Disco.isDisco pkt = true)
      (hstun : ¬Stun.isStun pkt = true) (hinit : ¬pkt.head? = some msgInitiation)
      (hresp : pkt.head? = some msgResponse) (hlen : 12 ≤ pkt.length)
      (hfind : s.st.pending.find? (fun _ p => p.ourIndex = u32le pkt 8) = some (key, p))
      (herr : p.hs.consumeResponse H.crypto pkt = .error e) :
      Reads H s tick pkt src env (.refuse key)

theorem received_reads (tick : UInt32) (pkt : Bytes) (src : SocketAddr) (env : Draws) :
    Reads H s tick pkt src env (received H s tick pkt src env) := by
  rw [received]
  split
  · next hdisco =>
      split
      · exact .quiet
      · next msg hmsg =>
          split
          · next hpong => exact .pong hdisco hmsg hpong
          · exact .quiet
  · next hdisco =>
      split
      · exact .quiet
      · next hstun =>
          split
          · next hinit =>
              split
              · exact .quiet
              · next hok => exact .answer hdisco hstun hinit hok
          · next hinit =>
              split
              · next hresp =>
                  split
                  · exact .quiet
                  · next hfind =>
                      split
                      · next herr => exact .refuse hdisco hstun hinit hresp.1 hresp.2 hfind herr
                      · next hok => exact .complete hdisco hstun hinit hresp.1 hresp.2 hfind hok
              · exact .quiet

theorem received_ne_retry (tick : UInt32) (pkt : Bytes) (src : SocketAddr) (env : Draws)
    (tick' : UInt32) : received H s tick pkt src env ≠ .retry tick' := by
  intro hr
  have hreads := received_reads (H := H) (s := s) tick pkt src env
  rw [hr] at hreads
  cases hreads

theorem outcome_received {ev : Input} {tick : UInt32} {pkt : Bytes} {src : SocketAddr}
    {env : Draws} (hev : ev.received? = some (tick, pkt, src, env)) :
    outcome H s ev = received H s tick pkt src env := by
  cases ev with
  | packet tick' pkt' src' env' =>
      cases hev
      rfl
  | process tick' pkt' src' env' =>
      cases hev
      rfl
  | periodic tick' hk stunAddr => cases hev
  | drain payloads => cases hev

/-- An outcome that is neither quiet nor a retry comes from a datagram, and
the step is that of `handle_packet`. -/
theorem step_received {ev : Input} {o : Outcome} (h : outcome H s ev = o) (hquiet : o ≠ .quiet)
    (hretry : ∀ tick, o ≠ .retry tick) :
    ∃ tick pkt src env, ev.received? = some (tick, pkt, src, env) ∧
      Reads H s tick pkt src env o ∧
      H.step s ev = H.step s (.packet tick pkt src env) := by
  cases ev with
  | packet tick pkt src env => exact ⟨tick, pkt, src, env, rfl, h ▸ received_reads .., rfl⟩
  | process tick pkt src env =>
      refine ⟨tick, pkt, src, env, rfl, h ▸ received_reads .., ?_⟩
      refine step_process tick pkt src env fun hfast => hquiet ?_
      rw [← h]
      exact received_transport hfast.1
  | periodic tick hk stunAddr => exact absurd h.symm (hretry tick)
  | drain payloads => exact absurd h.symm hquiet

/-- The handshake a PONG starts, as it is put into the table. -/
def opening (H : Host) (env : Draws) (tick : UInt32) (peer : Key) (src : SocketAddr) : Pending :=
  let b := buildInitiation H.crypto H.identity.nodePriv H.identity.nodePub peer
    (tai64n env.unixSecs env.unixNanos) env.index env.ephemeral
  ⟨src, b.1, b.2, env.index, tick, 0⟩

theorem step_pong {ev : Input} {tick : UInt32} {env : Draws} {sender : Key} {src : SocketAddr}
    (h : outcome H s ev = .pong tick env sender src) :
    (∃ pkt msg, ev.received? = some (tick, pkt, src, env) ∧ Disco.isDisco pkt = true ∧
      Disco.openPacket H.crypto H.identity.discoPriv pkt = .ok msg ∧
      msg.msgType = Disco.pong ∧ msg.senderDiscoPub = sender) ∧
    (H.step s ev).1.st.tunnels = s.st.tunnels ∧
    (H.step s ev).1.st.confirmed = s.st.confirmed.insert src ∧
    (H.step s ev).1.st.pending =
      (match startTarget s.lp.targets s.st sender src with
      | none => s.st.pending
      | some t =>
          if env.sendOk then s.st.pending.insert t.nodePub (opening H env tick t.nodePub src)
          else s.st.pending) ∧
    (H.step s ev).2 =
      (match startTarget s.lp.targets s.st sender src with
      | none => []
      | some t => [⟨src, (opening H env tick t.nodePub src).init.1⟩]) := by
  obtain ⟨tick', pkt, src', env', hev, hreads, hstep⟩ :=
    step_received h (fun hq => by cases hq) (fun _ hr => by cases hr)
  cases hreads with
  | @pong msg hdisco hopen hpong =>
      refine ⟨⟨pkt, msg, hev, hdisco, hopen, hpong, rfl⟩, ?_⟩
      have hnotPing : ¬msg.msgType = Disco.ping := by
        rw [hpong]
        decide
      have hsame : startTarget s.lp.targets { s.st with confirmed := s.st.confirmed.insert src }
          msg.senderDiscoPub src = startTarget s.lp.targets s.st msg.senderDiscoPub src := rfl
      rw [hstep, Host.step, handlePacket, if_pos hdisco, handleDisco, hopen]
      simp only [if_neg hnotPing, if_pos hpong, maybeStartHandshake_eq, hsame]
      cases startTarget s.lp.targets s.st msg.senderDiscoPub src with
      | none => exact ⟨rfl, rfl, rfl, rfl⟩
      | some t =>
          cases hsend : env.sendOk with
          | true => exact ⟨rfl, rfl, rfl, rfl⟩
          | false => exact ⟨rfl, rfl, rfl, rfl⟩

theorem step_answer {ev : Input} {i : UInt32} {resp : Arr respLen} {tun : Tunnel} {peer : Key}
    {src : SocketAddr} (h : outcome H s ev = .answer i resp tun peer src) :
    (∃ tick pkt env, ev.received? = some (tick, pkt, src, env) ∧ env.index = i ∧
      consumeInitiation H.crypto H.identity.nodePriv H.identity.nodePub pkt i env.ephemeral =
        .ok (resp, tun, peer)) ∧
    H.step s ev = ({ s with st := insertTunnel s.st i tun src peer }, [⟨src, resp.1⟩]) := by
  obtain ⟨tick, pkt, src', env, hev, hreads, hstep⟩ :=
    step_received h (fun hq => by cases hq) (fun _ hr => by cases hr)
  cases hreads with
  | answer hdisco hstun hinit hok =>
      refine ⟨⟨tick, pkt, env, hev, rfl, hok⟩, ?_⟩
      rw [hstep, Host.step, handlePacket, if_neg hdisco, if_neg hstun, if_pos hinit,
        handleWgInit, hok]

theorem step_complete {ev : Input} {key : Key} {p : Pending} {tun : Tunnel} {src : SocketAddr}
    (h : outcome H s ev = .complete key p tun src) :
    (∃ tick pkt env, ev.received? = some (tick, pkt, src, env) ∧
      s.st.pending.find? (fun _ p => p.ourIndex = u32le pkt 8) = some (key, p) ∧
      p.hs.consumeResponse H.crypto pkt = .ok tun) ∧
    H.step s ev = (⟨insertTunnel { s.st with pending := s.st.pending.erase key } p.ourIndex
      (tun.keepalive H.crypto).2 src key, s.lp⟩, [⟨src, (tun.keepalive H.crypto).1⟩]) := by
  obtain ⟨tick, pkt, src', env, hev, hreads, hstep⟩ :=
    step_received h (fun hq => by cases hq) (fun _ hr => by cases hr)
  cases hreads with
  | complete hdisco hstun hinit hresp hlen hfind hok =>
      refine ⟨⟨tick, pkt, env, hev, hfind, hok⟩, ?_⟩
      rw [hstep, Host.step, handlePacket, if_neg hdisco, if_neg hstun, if_neg hinit,
        if_pos hresp, handleWgResponse, if_neg (by omega), hfind]
      simp only [hok]

theorem step_refuse {ev : Input} {key : Key} (h : outcome H s ev = .refuse key) :
    (∃ p, s.st.pending.get? key = some p) ∧
    H.step s ev = ({ s with st := { s.st with pending := s.st.pending.erase key } }, []) := by
  obtain ⟨tick, pkt, src', env, hev, hreads, hstep⟩ :=
    step_received h (fun hq => by cases hq) (fun _ hr => by cases hr)
  cases hreads with
  | @refuse _ p _ hdisco hstun hinit hresp hlen hfind herr =>
      refine ⟨⟨p, (Table.find?_some hfind).1⟩, ?_⟩
      rw [hstep, Host.step, handlePacket, if_neg hdisco, if_neg hstun, if_neg hinit,
        if_pos hresp, handleWgResponse, if_neg (by omega), hfind]
      simp only [herr]

theorem runPeriodic_confirmed (C : Crypto) (F : Features) (hk : Housekeeping) (id : Identity)
    (st : State) (lp : Loop) (tick : UInt32) (stunAddr : Option SocketAddr) :
    (runPeriodic C F hk id st lp tick stunAddr).1.confirmed = st.confirmed := by
  have hobs : ∀ st : State, (outboundPeriodic C hk st).1.confirmed = st.confirmed := by
    intro st
    rw [outboundPeriodic]
    split
    · rfl
    · split
      · rfl
      · exact (sendInner_frame C _ _ _ _).confirmed
  rw [runPeriodic]
  simp only []
  by_cases hdue : hk.now - lp.lastProbe ≥ 2000
  · simp only [if_pos hdue]
    cases F.outbound with
    | true =>
        simp only [if_true]
        split
        · exact hobs _
        · exact hobs _
    | false =>
        split
        · rfl
        · rfl
  · simp only [if_neg hdue]
    split
    · rfl
    · rfl

/-- The periodic step, as far as the tables and what a handshake would read
go, is its retries. -/
theorem step_retry {ev : Input} {tick : UInt32} (h : outcome H s ev = .retry tick) :
    ((H.step s ev).1.st.pending = (retryAll s.st tick).1.pending ∧
    (H.step s ev).1.st.confirmed = s.st.confirmed ∧
    ∀ i, ((H.step s ev).1.st.tunnels.get? i).map linkPart =
      (s.st.tunnels.get? i).map linkPart) ∧
    ∃ rest, (H.step s ev).2 = (retryAll s.st tick).2 ++ rest ∧
      ∀ d ∈ rest, Chatter H.identity.discoPub d.bytes := by
  cases ev with
  | packet tick' pkt src env => exact absurd h (received_ne_retry tick' pkt src env tick)
  | process tick' pkt src env => exact absurd h (received_ne_retry tick' pkt src env tick)
  | periodic tick' hk stunAddr =>
      cases h
      obtain ⟨hkept, -, hout⟩ := runPeriodic_spec H.crypto H.features hk H.identity s.st s.lp
        tick stunAddr
      exact ⟨⟨hkept.pending, runPeriodic_confirmed H.crypto H.features hk H.identity s.st s.lp
        tick stunAddr, fun i => map_linkPart (hkept.tunnels i)⟩, hout⟩
  | drain payloads => cases h

end Steps

end TailscaleRust.Proofs
