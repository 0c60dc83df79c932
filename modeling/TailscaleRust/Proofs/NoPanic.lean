import TailscaleRust.Firmware.NodeRun
import TailscaleRust.Proofs.Frame
import TailscaleRust.Proofs.SafeHandlers
import TailscaleRust.Proofs.Tables

/-!
# No received datagram panics the node

What the handlers need of a state is that the client's request fits a packet.
The request is made from the configuration when the client is started, and
no step changes it, so the configuration decides.

On two cores `process_packet` gives up the lock between its lookup and
`handle_decrypted`, so here the second half is a move of its own, on any
tunnel and any bytes.
-/

namespace TailscaleRust.Proofs

open TailscaleRust.Lib TailscaleRust.Lib.Checked TailscaleRust.Core TailscaleRust.Core.Wg
open TailscaleRust.Core.Outbound (TcpClient)
open TailscaleRust.Firmware TailscaleRust.Firmware.Dataplane

/-- The configured request fits a packet, and so does the client's. -/
structure ClientFits (ob : OutboundRun) : Prop where
  configured : 40 + (httpGet ob.cfg).length ≤ 65535
  request : ∀ tc, ob.tcp = some tc → 40 + tc.request.length ≤ 65535

/-- The state's client, if there is one, fits. -/
def OutboundFits (st : State) : Prop := ∀ ob, st.outbound = some ob → ClientFits ob

theorem OutboundFits.requestFits {st : State} (h : OutboundFits st) : RequestFits st :=
  fun ob tc hob htc => (h ob hob).request tc htc

theorem OutboundFits.of_eq {st st' : State} (h : OutboundFits st)
    (heq : st'.outbound = st.outbound) : OutboundFits st' :=
  fun ob hob => h ob (heq ▸ hob)

/-! ## The client -/

theorem onInner_request (c : TcpClient) (inner : Bytes) :
    (c.onInner inner).2.request = c.request := by
  have hdata : ∀ (c : TcpClient) seq payload, (c.onData seq payload).2.request = c.request := by
    intro c seq payload
    rw [TcpClient.onData]
    split
    · rfl
    · dsimp only
      split <;> rfl
  have hfin : ∀ (c : TcpClient) flags, (c.onFin flags).2.request = c.request := by
    intro c flags
    rw [TcpClient.onFin]
    split <;> rfl
  rw [TcpClient.onInner]
  dsimp only
  split
  · rfl
  split
  · rfl
  split
  · rfl
  split
  · rfl
  · exact (hfin _ _).trans (hdata _ _ _)

theorem ClientFits.clientInput {ob : OutboundRun} (h : ClientFits ob) (inner : Bytes) :
    ClientFits (clientInput ob inner).1 := by
  rw [Dataplane.clientInput]
  split
  · exact h
  · next tc htc =>
      split
      · refine ⟨h.configured, fun tc' htc' => ?_⟩
        have hreq : tc'.request = tc.request :=
          Option.some.inj htc' ▸ onInner_request tc inner
        rw [hreq]
        exact h.request tc htc
      · exact h

theorem ClientFits.outboundKick {ob : OutboundRun} (h : ClientFits ob) (hk : Housekeeping) :
    ClientFits (outboundKick hk ob).1 := by
  rw [Dataplane.outboundKick]
  dsimp only
  split
  · exact ⟨h.configured, h.request⟩
  · refine ⟨h.configured, fun tc htc => ?_⟩
    cases htc
    exact h.configured

/-! ## Every step keeps it -/

section Steps

variable (C : Crypto) (F : Features) (env : Draws)

theorem sendInner_outbound (st : State) (i : UInt32) (dst : SocketAddr) (xs : List Bytes) :
    (st.sendInner C i dst xs).1.outbound = st.outbound := by
  rw [State.sendInner]
  split <;> rfl

theorem outboundInput_fits {st : State} (h : OutboundFits st) (i : UInt32) (inner : Bytes)
    (src : SocketAddr) : OutboundFits (outboundInput C F st i inner src).1 := by
  rw [outboundInput]
  split
  · split
    · exact h
    · next ob hob =>
        refine OutboundFits.of_eq (fun ob' hob' => ?_) (sendInner_outbound C _ i src _)
        cases hob'
        exact (h ob hob).clientInput inner
  · exact h

theorem icmpInput_fits {st : State} (h : OutboundFits st) {i : UInt32} {inner : Bytes}
    {src : SocketAddr} {st' : State} {out : List Datagram}
    (hr : icmpInput C F st i inner src = some (st', out)) : OutboundFits st' := by
  rw [icmpInput] at hr
  split at hr
  · obtain ⟨reply, -, hs⟩ := Option.map_eq_some_iff.mp hr
    have hsame := sendInner_outbound C st i src [reply]
    rw [hs] at hsame
    exact h.of_eq hsame
  · cases hr

theorem proxyInput_fits {st : State} (h : OutboundFits st) (i : UInt32) (inner : Bytes)
    (src : SocketAddr) : OutboundFits (proxyInput C F env st i inner src).1 := by
  rw [proxyInput]
  split
  · dsimp only
    split
    · exact h
    · exact h.of_eq (sendInner_outbound C _ i src _)
  · exact h

theorem httpInput_fits {st : State} (h : OutboundFits st) (i : UInt32) (inner : Bytes)
    (src : SocketAddr) : OutboundFits (httpInput C F env st i inner src).1 := by
  rw [httpInput]
  split
  · split
    · exact h
    · exact h.of_eq (sendInner_outbound C _ i src _)
  · exact h

theorem mdnsInput_fits {st st' : State} (h : OutboundFits st) {i : UInt32} {inner : Bytes}
    (hst : mdnsInput F st i inner = some st') : OutboundFits st' := by
  rw [mdnsInput] at hst
  split at hst
  · split at hst
    · cases hst
    · cases hst
      exact h
  · cases hst

theorem serviceInput_fits {st : State} (h : OutboundFits st) (i : UInt32) (inner : Bytes)
    (src : SocketAddr) : OutboundFits (serviceInput C F env st i inner src).1 := by
  rw [serviceInput]
  split
  · next st' hst => exact mdnsInput_fits F h hst
  · have hout := outboundInput_fits C F h i inner src
    dsimp only
    split
    · exact hout
    split
    · next hicmp => exact icmpInput_fits C F hout hicmp
    · have hproxy := proxyInput_fits C F env hout i inner src
      split
      · exact hproxy
      · exact httpInput_fits C F env hproxy i inner src

theorem handleDecrypted_fits (id : Identity) {st : State} (h : OutboundFits st) (i : UInt32)
    (inner : Bytes) (src : SocketAddr) :
    OutboundFits (handleDecrypted C F env id st i inner src).1 := by
  rw [handleDecrypted]
  split
  · exact h
  · dsimp only
    split
    · exact h
    split
    · exact h
    · exact serviceInput_fits C F env (by exact h) i inner src

theorem handleWgTransport_fits (id : Identity) {st : State} (h : OutboundFits st) (pkt : Bytes)
    (src : SocketAddr) : OutboundFits (handleWgTransport C F env id st pkt src).1 := by
  rw [handleWgTransport]
  split
  · exact h
  · dsimp only
    split
    · exact h
    split
    · exact h
    · exact handleDecrypted_fits C F env id h _ _ src

/-- A handshake has nothing to do with the client. -/
theorem handshake_outbound (id : Identity) (targets : List Target) (st : State) (tick : UInt32)
    (pkt : Bytes) (src : SocketAddr) :
    (handleDisco C env id targets st tick pkt src).1.outbound = st.outbound ∧
    (handleWgInit C env id st pkt src).1.outbound = st.outbound ∧
    (handleWgResponse C st pkt src).1.outbound = st.outbound := by
  refine ⟨?_, ?_, ?_⟩
  · rw [handleDisco]
    split
    · rfl
    split
    · split <;> rfl
    split
    · rw [maybeStartHandshake]
      split
      · rfl
      split
      · rfl
      · dsimp only
        split <;> rfl
    · rfl
  · rw [handleWgInit]
    split <;> rfl
  · rw [handleWgResponse]
    split
    · rfl
    split
    · rfl
    · dsimp only
      split <;> rfl

theorem handlePacket_fits (id : Identity) (targets : List Target) {st : State}
    (h : OutboundFits st) (tick : UInt32) (pkt : Bytes) (src : SocketAddr) :
    OutboundFits (handlePacket C F env id targets st tick pkt src).1 := by
  obtain ⟨hdisco, hinit, hresp⟩ := handshake_outbound C env id targets st tick pkt src
  rw [handlePacket]
  split
  · exact h.of_eq hdisco
  split
  · exact h
  split
  · exact h.of_eq hinit
  split
  · exact h.of_eq hresp
  split
  · exact handleWgTransport_fits C F env id h pkt src
  · exact h

theorem processPacket_fits (id : Identity) (targets : List Target) {st : State}
    (h : OutboundFits st) (tick : UInt32) (pkt : Bytes) (src : SocketAddr) :
    OutboundFits (processPacket C F env id targets st tick pkt src).1 := by
  rw [processPacket]
  split
  · dsimp only
    split
    · exact h
    split
    · exact h
    · exact handleDecrypted_fits C F env id h _ _ src
  · exact handlePacket_fits C F env id targets h tick pkt src

theorem outboundPeriodic_fits (hk : Housekeeping) {st : State} (h : OutboundFits st) :
    OutboundFits (outboundPeriodic C hk st).1 := by
  rw [outboundPeriodic]
  split
  · exact h
  · next ob hob =>
      split
      · exact h
      · next i e _ =>
          refine OutboundFits.of_eq (fun ob' hob' => ?_) (sendInner_outbound C _ i e.addr _)
          cases hob'
          exact (h ob hob).outboundKick hk

theorem runPeriodic_fits (hk : Housekeeping) (id : Identity) {st : State} (h : OutboundFits st)
    (lp : Loop) (tick : UInt32) (stunAddr : Option SocketAddr) :
    OutboundFits (runPeriodic C F hk id st lp tick stunAddr).1 := by
  rw [runPeriodic]
  dsimp only
  by_cases hdue : hk.now - lp.lastProbe ≥ 2000
  · have hkeep : OutboundFits (keepaliveAll C (retryAll st tick).1).1 := h
    simp only [if_pos hdue]
    cases F.outbound with
    | true =>
        have hobs := outboundPeriodic_fits C hk hkeep
        split
        · exact hobs
        · exact hobs
    | false =>
        split
        · exact hkeep
        · exact hkeep
  · simp only [if_neg hdue]
    split
    · exact h
    · exact h

theorem mdnsDrain_fits (ourIp partnerIp : Ipv4Addr) (partnerNode : Key) (payloads : List Bytes)
    {st : State} (h : OutboundFits st) :
    OutboundFits (mdnsDrain C ourIp partnerIp partnerNode payloads st).1 := by
  induction payloads generalizing st with
  | nil => exact h
  | cons payload rest ih =>
      rw [mdnsDrain]
      split
      · exact ih h
      · exact ih (h.of_eq (sendInner_outbound C st _ _ _))

end Steps

/-! ## Runs -/

/-- What the cores can do to the shared state: a whole step, or the second
half of `process_packet` once it has the lock again. -/
inductive Move where
  | input (ev : Input)
  | finish (index : UInt32) (inner : Bytes) (src : SocketAddr) (env : Draws)

def Moves (H : Host) (s : NodeState) : Move → NodeState → Prop
  | .input ev, t => H.Steps s ev t
  | .finish i inner src env, t =>
      { s with st := (handleDecrypted H.crypto H.features env H.identity s.st i inner src).1 } = t

theorem step_fits {H : Host} {s t : NodeState} {ev : Input} (h : OutboundFits s.st)
    (hstep : H.Steps s ev t) : OutboundFits t.st := by
  cases hstep
  cases ev with
  | packet tick pkt src env =>
      exact handlePacket_fits H.crypto H.features env H.identity s.lp.targets h tick pkt src
  | process tick pkt src env =>
      exact processPacket_fits H.crypto H.features env H.identity s.lp.targets h tick pkt src
  | periodic tick hk stunAddr =>
      exact runPeriodic_fits H.crypto H.features hk H.identity h s.lp tick stunAddr
  | drain payloads =>
      exact mdnsDrain_fits H.crypto H.mdnsOurIp H.mdnsPartnerIp H.mdnsPartnerNode payloads h

theorem moves_fits {H : Host} {s t : NodeState} {m : Move} (h : OutboundFits s.st)
    (hmove : Moves H s m t) : OutboundFits t.st := by
  cases m with
  | input ev => exact step_fits h hmove
  | finish i inner src env =>
      cases hmove
      exact handleDecrypted_fits H.crypto H.features env H.identity h i inner src

/-- The client has not been started, and its request would fit a packet. -/
def Unstarted (st : State) : Prop :=
  ∀ ob, st.outbound = some ob → ob.tcp = none ∧ 40 + (httpGet ob.cfg).length ≤ 65535

theorem Unstarted.outboundFits {st : State} (h : Unstarted st) : OutboundFits st := by
  intro ob hob
  obtain ⟨htcp, hcfg⟩ := h ob hob
  refine ⟨hcfg, fun tc htc => ?_⟩
  rw [htcp] at htc
  cases htc

/-- The tables are in memory, where a collection has at most `isize::MAX`
bytes. -/
structure InMemory (st : State) : Prop where
  tunnels : st.tunnels.size < 2 ^ 31
  pending : st.pending.size < 2 ^ 31

/-- In every state that is reached, on one core or two, no datagram makes the
receive path fail: with every index, slice, `unwrap` and addition checked it
computes what the model computes. The same holds of a frame of the relay, in
any state of its loop. -/
theorem no_datagram_panics (H : Host) (s₀ s : NodeState) (moves : List Move)
    (hcrypto : Tagged H.crypto) (hstart : Unstarted s₀.st) (hrun : Run (Moves H) s₀ moves s)
    (hmem : InMemory s.st) :
    (∀ env tick pkt src, Realistic env →
      Strict.handlePacket H.crypto H.features env H.identity s.lp.targets s.st tick pkt src =
        .ok (handlePacket H.crypto H.features env H.identity s.lp.targets s.st tick pkt src) ∧
      Strict.processPacket H.crypto H.features env H.identity s.lp.targets s.st tick pkt src =
        .ok (processPacket H.crypto H.features env H.identity s.lp.targets s.st tick pkt src)) ∧
    (∀ env i inner src, Realistic env →
      Strict.handleDecrypted H.crypto H.features env H.identity s.st i inner src =
        .ok (handleDecrypted H.crypto H.features env H.identity s.st i inner src)) ∧
    ∀ env upgrade relay typ payload,
      (∀ up, upgrade = some up → up.ourEndpoints.length * 18 < 2 ^ 31) →
      Strict.serveFrame H.crypto H.features env H.identity upgrade relay typ payload =
        .ok (Derp.serveFrame H.crypto H.features env H.identity upgrade relay typ payload) := by
  have hfits : OutboundFits s.st :=
    hrun.invariant (P := fun s => OutboundFits s.st) hstart.outboundFits moves_fits
  have hsize : s.st.tunnels.size + s.st.pending.size < 2 ^ 32 := by
    have htunnels := hmem.tunnels
    have hpending := hmem.pending
    omega
  refine ⟨?_, ?_, ?_⟩
  · intro env tick pkt src henv
    exact ⟨handlePacket_safe hcrypto H.features henv H.identity _ hsize hfits.requestFits ..,
      processPacket_safe hcrypto H.features henv H.identity _ hsize hfits.requestFits ..⟩
  · intro env i inner src henv
    exact handleDecrypted_safe hcrypto H.features henv H.identity hfits.requestFits i inner src
  · intro env upgrade relay typ payload hup
    exact serveFrame_safe hcrypto H.features env H.identity hup relay typ payload

/-! ## A node with a client -/

theorem transparent_tagged : Tagged transparent where
  chacha k n m ad := transparent_lawful.length_seal k n m ad
  box a b n m ct h := by
    cases h
    exact length_tagSeal _ m

theorem zeroDraws_realistic : Realistic zeroDraws where
  clock := by decide
  lan _ := ⟨[], fun chunk h => absurd h List.not_mem_nil, rfl⟩

/-- The node with two peers, and `/` of one of them to fetch. -/
def clientStart : NodeState := { soloStart with st := { State.empty with
  outbound := some
    { cfg :=
        { ourIp := ⟨[100, 70, 3, 1], rfl⟩, targetIp := ⟨[100, 70, 3, 5], rfl⟩
          targetNode := byteKey 5, httpPort := 80, httpPath := ascii "/" }
      icmpIdent := 0x7d01, icmpSeq := 0, sport := 40000, tcp := none, started := false
      httpDone := false } } }

theorem clientStart_unstarted : Unstarted clientStart.st := by
  intro ob hob
  cases hob
  exact ⟨rfl, by decide⟩

/-- After the initiation of one peer, a PONG of another one: as a datagram,
and as what the relay hands over. -/
theorem no_datagram_panics_client :
    Tagged solo.crypto ∧ Unstarted clientStart.st ∧ Realistic zeroDraws ∧
    ∃ s, Run (Moves solo) clientStart [.input (arrives (initiationOf 7) 7 4)] s ∧
      InMemory s.st ∧ s.st.tunnels.contains 4 = true ∧
      Strict.handlePacket transparent defaultFeatures zeroDraws solo.identity s.lp.targets s.st 0
          (pongOf 5) (lanAddr 5) =
        .ok (handlePacket transparent defaultFeatures zeroDraws solo.identity s.lp.targets s.st 0
          (pongOf 5) (lanAddr 5)) ∧
      Strict.serveFrame transparent defaultFeatures ⟨0, Arr.zero 32, Arr.zero 24, Arr.zero 24, 0⟩
          solo.identity none Derp.ServeState.empty Derp.frameRecvPacket (pongOf 5) =
        .ok (Derp.serveFrame transparent defaultFeatures
          ⟨0, Arr.zero 32, Arr.zero 24, Arr.zero 24, 0⟩ solo.identity none Derp.ServeState.empty
          Derp.frameRecvPacket (pongOf 5)) := by
  have hrun : Run (Moves solo) clientStart [.input (arrives (initiationOf 7) 7 4)] _ :=
    .cons rfl .nil
  have hmem : InMemory (solo.step clientStart (arrives (initiationOf 7) 7 4)).1.st :=
    ⟨by decide +kernel, by decide +kernel⟩
  obtain ⟨hpacket, -, hframe⟩ := no_datagram_panics solo clientStart _ _ transparent_tagged
    clientStart_unstarted hrun hmem
  exact ⟨transparent_tagged, clientStart_unstarted, zeroDraws_realistic, _, hrun, hmem,
    by decide +kernel, (hpacket zeroDraws 0 _ _ zeroDraws_realistic).1,
    hframe _ none _ _ _ fun up h => by cases h⟩

end TailscaleRust.Proofs
