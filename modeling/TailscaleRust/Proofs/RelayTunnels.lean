import TailscaleRust.Firmware.Derp
import TailscaleRust.Lib.Run
import TailscaleRust.Proofs.FastPath
import TailscaleRust.Proofs.Handshake

/-!
# Whose tunnel is under a node key of the relay

`serve` keeps one tunnel per source key of a frame, and the source key is
what the relay wrote in front of the packet. The handshake inside the packet
authenticates a key of its own, which `consume_initiation` returns and
`serve` drops. So the tunnel under `k` is the one of the last accepted
initiation that came in under `k`, whoever signed it: it belongs to `k` in
every state of a run exactly if every accepted initiation of the run came in
under the key it authenticates.
-/

namespace TailscaleRust.Proofs

open TailscaleRust.Lib TailscaleRust.Core TailscaleRust.Core.Wg
open TailscaleRust.Firmware TailscaleRust.Firmware.Dataplane TailscaleRust.Firmware.Derp

/-! ## Accepted initiations -/

/-- The key the relay put in front. -/
def source (f : RelayFrame) : Key := arrAt f.payload 0 32

section Relay

variable (C : Crypto) (id : Identity)

/-- The tunnel and the authenticated key of an initiation we accept. -/
def offered (env : FrameDraws) (pkt : Bytes) : Option (Tunnel × Key) :=
  match consumeInitiation C id.nodePriv id.nodePub pkt env.index env.ephemeral with
  | .error _ => none
  | .ok (_, tun, peerStatic) => some (tun, peerStatic)

/-- The same of a frame that carries one. -/
def accepted (f : RelayFrame) : Option (Tunnel × Key) :=
  let pkt := f.payload.drop 32
  if f.typ = frameRecvPacket ∧ 32 ≤ f.payload.length ∧ pkt ≠ [] ∧ Disco.isDisco pkt = false ∧
      byteAt pkt 0 = msgInitiation then
    offered C id f.env pkt
  else none

/-- The last of them under a source key. -/
def lastAccepted (k : Key) (frames : List RelayFrame) : Option (Tunnel × Key) :=
  frames.reverse.findSome? fun f => if source f = k then accepted C id f else none

/-- The tunnel under every key is the one of an initiation that
authenticated this key. -/
def Bound (frames : List RelayFrame) (st : ServeState) : Prop :=
  ∀ k p, st.peers.get? k = some p → ∃ tun, lastAccepted C id k frames = some (tun, k) ∧
    { p.tun with txCounter := tun.txCounter } = tun

/-- The relay's key is the authenticated one, if there is one. -/
def Labelled (f : RelayFrame) : Prop :=
  ∀ tun peerStatic, accepted C id f = some (tun, peerStatic) → peerStatic = source f

/-! ## One frame -/

variable (F : Features) (upgrade : Option Upgrade)

/-- The tunnel under a key, up to its counter. -/
def tunnelUnder (st : ServeState) (k : Key) : Option Tunnel :=
  (st.peers.get? k).map fun p => keyPart p.tun

theorem relayAll_keyPart (dst : Key) (xs : List Bytes) (t : Tunnel) :
    keyPart (relayAll C t dst xs).2 = keyPart t := by
  induction xs generalizing t with
  | nil => rfl
  | cons x xs ih =>
      rw [relayAll]
      exact ih _

theorem handleInner_keyPart (env : FrameDraws) (p : DerpPeer) (src : Key) (inner : Bytes) :
    keyPart (handleInner C F env p src inner).1.tun = keyPart p.tun := by
  rw [handleInner]
  split
  · exact relayAll_keyPart C src _ p.tun
  · split
    · exact relayAll_keyPart C src _ p.tun
    · rfl

/-- Transport frames leave the keys of every tunnel. -/
theorem tunnelUnder_serveTransport (env : FrameDraws) (st : ServeState) (src : Key)
    (pkt : Bytes) (k : Key) :
    tunnelUnder (serveTransport C F env id st src pkt).1 k = tunnelUnder st k := by
  rw [serveTransport]
  split
  · rfl
  · next p hp =>
      split
      · rfl
      · split
        · simp only [tunnelUnder, Table.get?_modify]
          split
          · next inner _ _ hk =>
              subst hk
              rw [hp, Option.map_some, Option.map_some, Option.map_some, handleInner_keyPart]
          · rfl
        · rfl

/-- An initiation puts its tunnel under the source key. -/
theorem tunnelUnder_serveInit (env : FrameDraws) (st : ServeState) (src : Key) (pkt : Bytes)
    (k : Key) :
    tunnelUnder (serveInit C env id st src pkt).1 k =
      ((if src = k then offered C id env pkt else none).map fun r => keyPart r.1).or
        (tunnelUnder st k) := by
  rw [serveInit, offered]
  cases consumeInitiation C id.nodePriv id.nodePub pkt env.index env.ephemeral with
  | error e => simp only [ite_self, Option.map_none, Option.none_or]
  | ok r =>
      simp only [tunnelUnder, Table.get?_insert]
      by_cases hk : src = k
      · rw [if_pos hk, if_pos hk.symm, Option.map_some, Option.map_some, Option.some_or]
      · rw [if_neg hk, if_neg (Ne.symm hk), Option.map_none, Option.none_or]

/-- The first frame of a source is remembered, and changes no tunnel. -/
theorem serveFrame_state (st : ServeState) (f : RelayFrame) :
    ∃ st₁ : ServeState, st₁.peers = st.peers ∧
      (serveFrame C F f.env id upgrade st f.typ f.payload).1 =
        let pkt := f.payload.drop 32
        if f.typ ≠ frameRecvPacket ∨ f.payload.length < 32 then st
        else if pkt = [] then st
        else if Disco.isDisco pkt then st₁
        else if byteAt pkt 0 = msgInitiation then (serveInit C f.env id st₁ (source f) pkt).1
        else if byteAt pkt 0 = msgTransport then
          (serveTransport C F f.env id st₁ (source f) pkt).1
        else st₁ := by
  cases upgrade with
  | none =>
      refine ⟨st, rfl, ?_⟩
      simp only [serveFrame, apply_ite Prod.fst, source]
  | some up =>
      by_cases hmem : source f ∈ st.upgraded
      · refine ⟨st, rfl, ?_⟩
        rw [source] at hmem
        simp only [serveFrame, apply_ite Prod.fst, source, if_pos hmem]
      · refine ⟨{ st with upgraded := source f :: st.upgraded }, rfl, ?_⟩
        rw [source] at hmem
        simp only [serveFrame, apply_ite Prod.fst, source, if_neg hmem]

/-- What a frame does to the tunnels. -/
theorem tunnelUnder_serveFrame (st : ServeState) (f : RelayFrame) (k : Key) :
    tunnelUnder (serveFrame C F f.env id upgrade st f.typ f.payload).1 k =
      ((if source f = k then accepted C id f else none).map fun r => keyPart r.1).or
        (tunnelUnder st k) := by
  obtain ⟨st₁, hpeers, hstate⟩ := serveFrame_state C id F upgrade st f
  have hsame : ∀ st', tunnelUnder st' k = tunnelUnder st k ∧ accepted C id f = none →
      tunnelUnder st' k =
        ((if source f = k then accepted C id f else none).map fun r => keyPart r.1).or
          (tunnelUnder st k) := by
    intro st' h
    rw [h.1, h.2, ite_self, Option.map_none, Option.none_or]
  have hunder : tunnelUnder st₁ k = tunnelUnder st k := by
    rw [tunnelUnder, hpeers, tunnelUnder]
  rw [hstate]
  simp only []
  split
  · next h =>
      refine hsame st ⟨rfl, if_neg fun hacc => ?_⟩
      rcases h with h | h
      · exact h hacc.1
      · have := hacc.2.1
        omega
  · next h =>
      split
      · next hpkt => exact hsame st ⟨rfl, if_neg fun hacc => hacc.2.2.1 hpkt⟩
      · next hpkt =>
          split
          · next hdisco =>
              refine hsame st₁ ⟨hunder, if_neg fun hacc => ?_⟩
              rw [hacc.2.2.2.1] at hdisco
              cases hdisco
          · next hdisco =>
              split
              · next hinit =>
                  have hacc : accepted C id f = offered C id f.env (f.payload.drop 32) :=
                    if_pos ⟨not_not.mp fun ht => h (.inl ht), by omega, hpkt, by simpa using hdisco,
                      hinit⟩
                  rw [tunnelUnder_serveInit, hacc, hunder]
              · next hinit =>
                  have hacc : accepted C id f = none := if_neg fun hacc => hinit hacc.2.2.2.2
                  split
                  · rw [tunnelUnder_serveTransport]
                    exact hsame st₁ ⟨hunder, hacc⟩
                  · exact hsame st₁ ⟨hunder, hacc⟩

/-! ## Runs -/

theorem lastAccepted_snoc (k : Key) (frames : List RelayFrame) (f : RelayFrame) :
    lastAccepted C id k (frames ++ [f]) =
      (if source f = k then accepted C id f else none).or (lastAccepted C id k frames) := by
  rw [lastAccepted, List.reverse_append, List.reverse_singleton, List.singleton_append,
    List.findSome?_cons, lastAccepted]
  cases if source f = k then accepted C id f else none with
  | none => rfl
  | some r => rfl

/-- The tunnel under a key is the one of the last accepted initiation. -/
theorem tunnelUnder_run {frames : List RelayFrame} {st : ServeState}
    (h : Run (Serves C F id upgrade) ServeState.empty frames st) (k : Key) :
    tunnelUnder st k = (lastAccepted C id k frames).map fun r => keyPart r.1 := by
  refine h.history (P := fun frames st => tunnelUnder st k =
    (lastAccepted C id k frames).map fun r => keyPart r.1) rfl ?_
  intro frames st f st' hst hstep
  rw [Serves] at hstep
  rw [← hstep, tunnelUnder_serveFrame, lastAccepted_snoc, hst, Option.map_or]

theorem bound_iff {frames : List RelayFrame} {st : ServeState}
    (h : Run (Serves C F id upgrade) ServeState.empty frames st) :
    Bound C id frames st ↔
      ∀ k tun peerStatic, lastAccepted C id k frames = some (tun, peerStatic) → peerStatic = k := by
  have hunder := tunnelUnder_run C id F upgrade h
  refine ⟨?_, ?_⟩
  · intro hbound k tun peerStatic hlast
    have hk := hunder k
    rw [hlast, Option.map_some, tunnelUnder] at hk
    obtain ⟨p, hp, -⟩ := Option.map_eq_some_iff.mp hk
    obtain ⟨tun', hlast', -⟩ := hbound k p hp
    have heq := Option.some.inj (hlast.symm.trans hlast')
    exact (Prod.ext_iff.mp heq).2
  · intro hall k p hp
    have hk := hunder k
    rw [tunnelUnder, hp, Option.map_some] at hk
    obtain ⟨⟨tun, peerStatic⟩, hlast, hkey⟩ := Option.map_eq_some_iff.mp hk.symm
    obtain rfl := hall k tun peerStatic hlast
    refine ⟨tun, hlast, ?_⟩
    have hfields := congrArg (fun t => { t with txCounter := tun.txCounter }) hkey
    exact hfields.symm

/-- The last initiation under a key is one of the frames. -/
theorem lastAccepted_mem {k : Key} {frames : List RelayFrame} {r : Tunnel × Key}
    (h : lastAccepted C id k frames = some r) :
    ∃ f ∈ frames, source f = k ∧ accepted C id f = some r := by
  obtain ⟨f, hf, hacc⟩ := List.exists_of_findSome?_eq_some h
  split at hacc
  · next hk => exact ⟨f, List.mem_reverse.mp hf, hk, hacc⟩
  · cases hacc

/-- The tunnels of a run belong to the keys they are under, in every state
of the run, exactly if every accepted initiation of the run came in under
the key it authenticates. -/
theorem relay_tunnels_bound_iff (frames : List RelayFrame) :
    (∀ past st, past <+: frames → Run (Serves C F id upgrade) ServeState.empty past st →
      Bound C id past st) ↔
    ∀ f ∈ frames, Labelled C id f := by
  refine ⟨?_, ?_⟩
  · intro hbound f hf tun peerStatic hacc
    obtain ⟨past, rest, rfl⟩ := List.append_of_mem hf
    obtain ⟨st, hrun⟩ :
        ∃ st, Run (Serves C F id upgrade) ServeState.empty (past ++ [f]) st :=
      exists_run (fun _ _ => ⟨_, rfl⟩) _ _
    have hpre : past ++ [f] <+: past ++ f :: rest := ⟨rest, by simp⟩
    have hall := (bound_iff C id F upgrade hrun).mp (hbound _ st hpre hrun)
    apply hall (source f) tun peerStatic
    rw [lastAccepted_snoc, if_pos rfl, hacc, Option.some_or]
  · intro hlabel past st hpre hrun
    rw [bound_iff C id F upgrade hrun]
    intro k tun peerStatic hlast
    obtain ⟨f, hf, hk, hacc⟩ := lastAccepted_mem C id hlast
    rw [hlabel f (hpre.subset hf) tun peerStatic hacc, hk]

end Relay

/-! ## A frame with another key in front -/

/-- The scalar one. -/
def oneKey : Key := ⟨1 :: List.replicate 31 0, rfl⟩

/-- An initiation of the holder of `oneKey`, to a node whose private key is
zero, that the relay passes on under the key of zeros. -/
def mislabelled : RelayFrame where
  typ := frameRecvPacket
  payload := zeros 32 ++ (initiation transparent oneKey (Arr.zero 32) (Arr.zero 32)
    (Arr.zero 12) 5).1.1
  env := ⟨0, Arr.zero 32, Arr.zero 24, Arr.zero 24, 0⟩

theorem mislabelled_source : source mislabelled = Arr.zero 32 := by
  apply arrAt_eq
  rw [mislabelled, slice_append_left (by rw [length_zeros])]
  exact slice_self (by rw [length_zeros])

theorem mislabelled_accepted :
    ∃ tun, accepted transparent zeroIdentity mislabelled = some (tun, oneKey) := by
  obtain ⟨-, resp, -, tun, -, hconsume, -⟩ := handshake_run transparent_lawful oneKey
    (Arr.zero 32) (Arr.zero 32) (Arr.zero 32) (Arr.zero 12) 5 0
  obtain ⟨htype, -, -⟩ := buildInitiation_header transparent oneKey oneKey (Arr.zero 32)
    (Arr.zero 12) 5 (Arr.zero 32)
  have hpkt : mislabelled.payload.drop 32 =
      (initiation transparent oneKey (Arr.zero 32) (Arr.zero 32) (Arr.zero 12) 5).1.1 :=
    List.drop_left' length_zeros
  have hlen : 0 < (mislabelled.payload.drop 32).length := by
    rw [hpkt, (initiation transparent oneKey _ _ _ 5).1.2, initLen]
    omega
  have hfirst : byteAt (mislabelled.payload.drop 32) 0 = msgInitiation := by
    rw [hpkt]
    exact htype
  have hhead := head?_eq_byteAt hlen
  rw [hfirst] at hhead
  have hguard : mislabelled.typ = frameRecvPacket ∧ 32 ≤ mislabelled.payload.length ∧
      mislabelled.payload.drop 32 ≠ [] ∧ Disco.isDisco (mislabelled.payload.drop 32) = false ∧
      byteAt (mislabelled.payload.drop 32) 0 = msgInitiation := by
    refine ⟨rfl, ?_, List.ne_nil_of_length_pos hlen, not_isDisco_of_head hhead (by decide), hfirst⟩
    rw [List.length_drop] at hlen
    omega
  have hresult : consumeInitiation transparent zeroIdentity.nodePriv zeroIdentity.nodePub
      (mislabelled.payload.drop 32) mislabelled.env.index mislabelled.env.ephemeral =
        .ok (resp, tun, oneKey) := by
    have hpriv : zeroIdentity.nodePriv = Arr.zero 32 := rfl
    have hpub : zeroIdentity.nodePub = pubkey transparent (Arr.zero 32) := rfl
    have hindex : mislabelled.env.index = 0 := rfl
    have heph : mislabelled.env.ephemeral = Arr.zero 32 := rfl
    have hone : pubkey transparent oneKey = oneKey := rfl
    rw [hpkt, hpriv, hpub, hindex, heph, hconsume, hone]
  refine ⟨tun, ?_⟩
  simp only [accepted]
  rw [if_pos hguard, offered, hresult]

/-- The tunnel of `oneKey` is put under the key of zeros. -/
theorem mislabelled_not_bound :
    ∃ st, Run (Serves transparent defaultFeatures zeroIdentity none) ServeState.empty
      [mislabelled] st ∧ ¬Bound transparent zeroIdentity [mislabelled] st := by
  obtain ⟨tun, hacc⟩ := mislabelled_accepted
  refine ⟨_, .cons rfl .nil, fun hbound => ?_⟩
  have hall := (bound_iff transparent zeroIdentity defaultFeatures none (.cons rfl .nil)).mp hbound
  have hlast : lastAccepted transparent zeroIdentity (Arr.zero 32) [mislabelled] =
      some (tun, oneKey) := by
    have hsnoc := lastAccepted_snoc transparent zeroIdentity (Arr.zero 32) [] mislabelled
    rwa [mislabelled_source, if_pos rfl, hacc, Option.some_or] at hsnoc
  have heq := hall (Arr.zero 32) tun oneKey hlast
  revert heq
  decide

end TailscaleRust.Proofs
