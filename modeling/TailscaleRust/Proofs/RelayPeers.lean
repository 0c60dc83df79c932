import TailscaleRust.Proofs.Padding
import TailscaleRust.Proofs.RelayNonces

/-!
# One relay connection, many peers

All relayed peers share a connection, a table and a loop. Still a frame reads
and writes only what is kept under its source key, and all it sends goes to
this key, so a session as one peer sees it is the session of its own frames.
A peer that has shaken hands keeps its tunnel through whatever the others
send, and through everything under its own key but another handshake.
-/

namespace TailscaleRust.Proofs.Relay

open TailscaleRust.Lib TailscaleRust.Core TailscaleRust.Core.Wg TailscaleRust.Core.Icmp
open TailscaleRust.Firmware TailscaleRust.Firmware.Dataplane TailscaleRust.Firmware.Derp
open TailscaleRust.Proofs.DerpSession

/-! ## What is kept under a key -/

/-- Two states keep the same under a key. -/
structure SameUnder (k : Key) (st st' : ServeState) : Prop where
  peer : st'.peers.get? k = st.peers.get? k
  known : k ∈ st'.upgraded ↔ k ∈ st.upgraded

theorem SameUnder.refl (k : Key) (st : ServeState) : SameUnder k st st := ⟨rfl, Iff.rfl⟩

theorem SameUnder.symm {k : Key} {st st' : ServeState} (h : SameUnder k st st') :
    SameUnder k st' st :=
  ⟨h.peer.symm, h.known.symm⟩

theorem SameUnder.trans {k : Key} {st st' st'' : ServeState} (h : SameUnder k st st')
    (h' : SameUnder k st' st'') : SameUnder k st st'' :=
  ⟨h'.peer.trans h.peer, h'.known.trans h.known⟩

/-- Everything a frame sends goes to one key. -/
structure SentTo (k : Key) (s : Sends) : Prop where
  packets : ∀ p ∈ s.packets, p.dst = k
  targets : ∀ t ∈ s.targets, t.nodePub = k

theorem sentTo_none (k : Key) : SentTo k Sends.none :=
  ⟨fun _ h => absurd h List.not_mem_nil, fun _ h => absurd h List.not_mem_nil⟩

section Frame

variable (C : Crypto) (F : Features) (id : Identity) (upgrade : Option Upgrade)

/-! ## A frame of another source -/

theorem contact_other (env : FrameDraws) (st : ServeState) {src k : Key} (h : src ≠ k) :
    SameUnder k st (contact C id upgrade env st src).1 := by
  refine ⟨by rw [contact_peers], ?_⟩
  unfold contact
  split
  · exact Iff.rfl
  · split
    · exact Iff.rfl
    · show k ∈ src :: st.upgraded ↔ _
      rw [List.mem_cons]
      exact ⟨fun hk => hk.resolve_left fun heq => h heq.symm, .inr⟩

theorem serveInit_other (env : FrameDraws) (st : ServeState) {src k : Key} (pkt : Bytes)
    (h : src ≠ k) : SameUnder k st (serveInit C env id st src pkt).1 := by
  rw [serveInit]
  split
  · exact .refl k st
  · refine ⟨?_, Iff.rfl⟩
    simp only []
    rw [Table.get?_insert, if_neg (Ne.symm h)]

theorem serveTransport_other (env : FrameDraws) (st : ServeState) {src k : Key} (pkt : Bytes)
    (h : src ≠ k) : SameUnder k st (serveTransport C F env id st src pkt).1 := by
  rw [serveTransport]
  split
  · exact .refl k st
  · split
    · exact .refl k st
    · split
      · refine ⟨?_, Iff.rfl⟩
        simp only []
        rw [Table.get?_modify, if_neg (Ne.symm h)]
      · exact .refl k st

theorem dispatch_other (env : FrameDraws) (st : ServeState) {src k : Key} (pkt : Bytes)
    (h : src ≠ k) : SameUnder k st (dispatch C F id upgrade env st src pkt).1 := by
  rw [dispatch]
  split
  · exact .refl k st
  · split
    · exact serveInit_other C id env st pkt h
    · split
      · exact serveTransport_other C F id env st pkt h
      · exact .refl k st

theorem serveFrame_other (st : ServeState) {f : RelayFrame} {k : Key} (h : source f ≠ k) :
    SameUnder k st (serveFrame C F f.env id upgrade st f.typ f.payload).1 := by
  by_cases hf : Carries f
  · rw [serveFrame_carries C F id upgrade st hf]
    exact (contact_other C id upgrade f.env st h).trans (dispatch_other C F id upgrade f.env _ _ h)
  · rw [serveFrame_idle C F id upgrade st hf]
    exact .refl k st

/-! ## Where a frame's sends go -/

theorem relayAll_dst (dst : Key) (xs : List Bytes) (t : Tunnel) :
    ∀ p ∈ (relayAll C t dst xs).1, p.dst = dst := by
  induction xs generalizing t with
  | nil => exact fun p hp => absurd hp List.not_mem_nil
  | cons x xs ih =>
      intro p hp
      rcases List.mem_cons.mp hp with rfl | hp
      · rfl
      · exact ih _ p hp

theorem handleInner_dst (env : FrameDraws) (q : DerpPeer) (src : Key) (inner : Bytes) :
    ∀ p ∈ (handleInner C F env q src inner).2, p.dst = src := by
  rw [handleInner]
  split
  · exact relayAll_dst C src _ q.tun
  · split
    · exact relayAll_dst C src _ q.tun
    · exact fun p hp => absurd hp List.not_mem_nil

theorem contact_sentTo (env : FrameDraws) (st : ServeState) (src : Key) :
    SentTo src (contact C id upgrade env st src).2 := by
  unfold contact
  split
  · exact sentTo_none src
  · split
    · exact sentTo_none src
    · unfold tryUpgrade
      split
      · exact sentTo_none src
      · split
        · exact sentTo_none src
        · refine ⟨fun p hp => ?_, fun t ht => ?_⟩
          · simp only [] at hp
            split at hp
            · rw [List.mem_singleton.mp hp]
            · cases hp
          · rw [List.mem_singleton.mp ht]

theorem serveDisco_sentTo (env : FrameDraws) (src : Key) (pkt : Bytes) :
    SentTo src (serveDisco C env id upgrade src pkt) := by
  rw [serveDisco]
  split
  · exact sentTo_none src
  · split
    · simp only []
      split
      · exact sentTo_none src
      · refine ⟨fun p hp => ?_, fun t ht => absurd ht List.not_mem_nil⟩
        rw [List.mem_singleton.mp hp]
    · split
      · refine ⟨fun p hp => absurd hp List.not_mem_nil, fun t ht => ?_⟩
        rw [List.mem_singleton.mp ht]
      · exact sentTo_none src

theorem dispatch_sentTo (env : FrameDraws) (st : ServeState) (src : Key) (pkt : Bytes) :
    SentTo src (dispatch C F id upgrade env st src pkt).2 := by
  rw [dispatch]
  split
  · exact serveDisco_sentTo C id upgrade env src pkt
  · split
    · refine ⟨fun p hp => ?_, fun t ht => absurd ht List.not_mem_nil⟩
      simp only [serveInit] at hp
      split at hp
      · cases hp
      · rw [List.mem_singleton.mp hp]
    · split
      · refine ⟨fun p hp => ?_, fun t ht => absurd ht List.not_mem_nil⟩
        simp only [serveTransport] at hp
        split at hp
        · cases hp
        · next q _ =>
            split at hp
            · cases hp
            · next inner _ =>
                split at hp
                · exact handleInner_dst C F env q src inner p hp
                · cases hp
      · exact sentTo_none src

theorem serveFrame_sentTo (st : ServeState) (f : RelayFrame) :
    SentTo (source f) (serveFrame C F f.env id upgrade st f.typ f.payload).2 := by
  by_cases hf : Carries f
  · rw [serveFrame_carries C F id upgrade st hf]
    have hfirst := contact_sentTo C id upgrade f.env st (source f)
    have hrest := dispatch_sentTo C F id upgrade f.env
      (contact C id upgrade f.env st (source f)).1 (source f) (f.payload.drop 32)
    refine ⟨fun p hp => ?_, fun t ht => ?_⟩
    · rcases List.mem_append.mp hp with hp | hp
      · exact hfirst.packets p hp
      · exact hrest.packets p hp
    · rcases List.mem_append.mp ht with ht | ht
      · exact hfirst.targets t ht
      · exact hrest.targets t ht
  · rw [serveFrame_idle C F id upgrade st hf]
    exact sentTo_none _

/-! ## A frame of the source itself -/

theorem contact_own (env : FrameDraws) {st st' : ServeState} {k : Key} (h : SameUnder k st st') :
    SameUnder k (contact C id upgrade env st k).1 (contact C id upgrade env st' k).1 ∧
      (contact C id upgrade env st' k).2 = (contact C id upgrade env st k).2 := by
  cases upgrade with
  | none => exact ⟨h, rfl⟩
  | some up =>
      rw [contact_some, contact_some]
      by_cases hk : k ∈ st.upgraded
      · rw [if_pos hk, if_pos (h.known.mpr hk)]
        exact ⟨h, rfl⟩
      · rw [if_neg hk, if_neg fun hk' => hk (h.known.mp hk')]
        refine ⟨⟨h.peer, ?_⟩, rfl⟩
        simp only [List.mem_cons, true_or]

theorem serveInit_own (env : FrameDraws) {st st' : ServeState} {k : Key} (pkt : Bytes)
    (h : SameUnder k st st') :
    SameUnder k (serveInit C env id st k pkt).1 (serveInit C env id st' k pkt).1 ∧
      (serveInit C env id st' k pkt).2 = (serveInit C env id st k pkt).2 := by
  rw [serveInit, serveInit]
  split
  · exact ⟨h, rfl⟩
  · refine ⟨⟨?_, h.known⟩, rfl⟩
    simp only []
    rw [Table.get?_insert, Table.get?_insert, if_pos rfl, if_pos rfl]

theorem serveTransport_own (env : FrameDraws) {st st' : ServeState} {k : Key} (pkt : Bytes)
    (h : SameUnder k st st') :
    SameUnder k (serveTransport C F env id st k pkt).1 (serveTransport C F env id st' k pkt).1 ∧
      (serveTransport C F env id st' k pkt).2 = (serveTransport C F env id st k pkt).2 := by
  rw [serveTransport, serveTransport, h.peer]
  split
  · exact ⟨h, rfl⟩
  · split
    · exact ⟨h, rfl⟩
    · split
      · refine ⟨⟨?_, h.known⟩, rfl⟩
        simp only []
        rw [Table.get?_modify, Table.get?_modify, if_pos rfl, if_pos rfl, h.peer]
      · exact ⟨h, rfl⟩

theorem dispatch_own (env : FrameDraws) {st st' : ServeState} {k : Key} (pkt : Bytes)
    (h : SameUnder k st st') :
    SameUnder k (dispatch C F id upgrade env st k pkt).1
        (dispatch C F id upgrade env st' k pkt).1 ∧
      (dispatch C F id upgrade env st' k pkt).2 = (dispatch C F id upgrade env st k pkt).2 := by
  rw [dispatch, dispatch]
  split
  · exact ⟨h, rfl⟩
  · split
    · obtain ⟨hsame, hout⟩ := serveInit_own C id env pkt h
      exact ⟨hsame, by rw [hout]⟩
    · split
      · obtain ⟨hsame, hout⟩ := serveTransport_own C F id env pkt h
        exact ⟨hsame, by rw [hout]⟩
      · exact ⟨h, rfl⟩

theorem serveFrame_own {st st' : ServeState} (f : RelayFrame) (h : SameUnder (source f) st st') :
    SameUnder (source f) (serveFrame C F f.env id upgrade st f.typ f.payload).1
        (serveFrame C F f.env id upgrade st' f.typ f.payload).1 ∧
      (serveFrame C F f.env id upgrade st' f.typ f.payload).2 =
        (serveFrame C F f.env id upgrade st f.typ f.payload).2 := by
  by_cases hf : Carries f
  · rw [serveFrame_carries C F id upgrade st hf, serveFrame_carries C F id upgrade st' hf]
    obtain ⟨hfirst, hout⟩ := contact_own C id upgrade f.env h
    obtain ⟨hrest, hout'⟩ := dispatch_own C F id upgrade f.env (f.payload.drop 32) hfirst
    exact ⟨hrest, by simp only [hout, hout']⟩
  · rw [serveFrame_idle C F id upgrade st hf, serveFrame_idle C F id upgrade st' hf]
    exact ⟨h, rfl⟩

/-! ## A session as one peer sees it -/

/-- The part of what is sent that goes to a key. -/
def Sends.toward (k : Key) (s : Sends) : Sends :=
  ⟨s.packets.filter fun p => p.dst = k, s.targets.filter fun t => t.nodePub = k⟩

def Sends.append (a b : Sends) : Sends := ⟨a.packets ++ b.packets, a.targets ++ b.targets⟩

theorem toward_append (k : Key) (a b : Sends) :
    Sends.toward k (Sends.append a b) = Sends.append (Sends.toward k a) (Sends.toward k b) := by
  simp only [Sends.toward, Sends.append, List.filter_append]

theorem SentTo.toward {k : Key} {s : Sends} (h : SentTo k s) : Sends.toward k s = s := by
  have hp : s.packets.filter (fun p => p.dst = k) = s.packets :=
    List.filter_eq_self.mpr fun p hp => decide_eq_true (h.packets p hp)
  have ht : s.targets.filter (fun t => t.nodePub = k) = s.targets :=
    List.filter_eq_self.mpr fun t ht => decide_eq_true (h.targets t ht)
  rw [Sends.toward, hp, ht]

theorem SentTo.toward_other {k src : Key} {s : Sends} (h : SentTo src s) (hne : src ≠ k) :
    Sends.toward k s = Sends.none := by
  have hp : s.packets.filter (fun p => p.dst = k) = [] :=
    List.filter_eq_nil_iff.mpr fun p hp => by
      rw [decide_eq_true_eq, h.packets p hp]
      exact hne
  have ht : s.targets.filter (fun t => t.nodePub = k) = [] :=
    List.filter_eq_nil_iff.mpr fun t ht => by
      rw [decide_eq_true_eq, h.targets t ht]
      exact hne
  rw [Sends.toward, hp, ht]
  rfl

theorem served_under (k : Key) (frames : List RelayFrame) {st st' : ServeState}
    (h : SameUnder k st st') :
    let whole := served C F id upgrade st frames
    let own := served C F id upgrade st' (frames.filter fun f => source f = k)
    SameUnder k whole.1 own.1 ∧ own.2 = Sends.toward k whole.2 := by
  induction frames generalizing st st' with
  | nil => exact ⟨h, rfl⟩
  | cons f frames ih =>
      intro whole own
      have hto := serveFrame_sentTo C F id upgrade st f
      have hwhole : whole.2 = Sends.append
          (serveFrame C F f.env id upgrade st f.typ f.payload).2
          (served C F id upgrade (serveFrame C F f.env id upgrade st f.typ f.payload).1
            frames).2 := rfl
      rw [hwhole, toward_append]
      by_cases hk : source f = k
      · subst hk
        obtain ⟨hsame, hout⟩ := serveFrame_own C F id upgrade f h
        obtain ⟨hlast, hrest⟩ := ih hsame
        have hfilter : (f :: frames).filter (fun g => source g = source f) =
            f :: frames.filter fun g => source g = source f :=
          List.filter_cons_of_pos (decide_eq_true rfl)
        simp only [own, hfilter]
        rw [hto.toward, ← hrest, ← hout]
        exact ⟨hlast, rfl⟩
      · have hother := serveFrame_other C F id upgrade st hk
        obtain ⟨hlast, hrest⟩ := ih (hother.symm.trans h)
        have hfilter : (f :: frames).filter (fun g => source g = k) =
            frames.filter fun g => source g = k :=
          List.filter_cons_of_neg (by rwa [decide_eq_true_eq])
        simp only [own, hfilter]
        rw [hto.toward_other hk, hrest]
        exact ⟨hlast, rfl⟩

/-- In every session of the relay and for every key: the tunnel and the
connection kept under it, and the packets and targets sent to it, in order,
are those of the session in which only its own frames come. -/
theorem relay_peers_independent (k : Key) (frames : List RelayFrame) :
    let whole := served C F id upgrade ServeState.empty frames
    let own := served C F id upgrade ServeState.empty (frames.filter fun f => source f = k)
    own.1.peers.get? k = whole.1.peers.get? k ∧
      own.2.packets = whole.2.packets.filter (fun p => p.dst = k) ∧
      own.2.targets = whole.2.targets.filter (fun t => t.nodePub = k) := by
  obtain ⟨hsame, hout⟩ := served_under C F id upgrade k frames (.refl k ServeState.empty)
  exact ⟨hsame.peer, congrArg Sends.packets hout, congrArg Sends.targets hout⟩

end Frame

/-! ## A peer that has shaken hands -/

section Peer

variable {C : Crypto} {F : Features} {id : Identity} {upgrade : Option Upgrade}

theorem served_append (st : ServeState) (a b : List RelayFrame) :
    served C F id upgrade st (a ++ b) =
      ((served C F id upgrade (served C F id upgrade st a).1 b).1,
        Sends.append (served C F id upgrade st a).2
          (served C F id upgrade (served C F id upgrade st a).1 b).2) := by
  induction a generalizing st with
  | nil => rfl
  | cons f a ih =>
      rw [List.cons_append, served, served]
      simp only [ih, Sends.append, List.append_assoc]

/-- A packet as the relay passes it on. -/
def relayed (k : Key) (pkt : Bytes) (env : FrameDraws) : RelayFrame :=
  ⟨frameRecvPacket, k.1 ++ pkt, env⟩

theorem relayed_drop (k : Key) (pkt : Bytes) (env : FrameDraws) :
    (relayed k pkt env).payload.drop 32 = pkt :=
  List.drop_left' k.2

theorem relayed_source (k : Key) (pkt : Bytes) (env : FrameDraws) :
    source (relayed k pkt env) = k := by
  apply arrAt_eq
  rw [relayed, slice_append_left (by rw [k.2])]
  exact slice_self (by rw [k.2])

theorem relayed_carries (k : Key) {pkt : Bytes} (env : FrameDraws) (h : pkt ≠ []) :
    Carries (relayed k pkt env) := by
  refine ⟨rfl, ?_, ?_⟩
  · rw [relayed, List.length_append, k.2]
    omega
  · rw [relayed_drop]
    exact h

/-- The upgrade of a key is over, or there is none. -/
def Known (upgrade : Option Upgrade) (k : Key) (st : ServeState) : Prop :=
  upgrade.isSome → k ∈ st.upgraded

theorem contact_known {env : FrameDraws} {st : ServeState} {k : Key} (h : Known upgrade k st) :
    contact C id upgrade env st k = (st, Sends.none) := by
  cases upgrade with
  | none => rfl
  | some up => rw [contact_some, if_pos (h rfl)]

theorem known_contact (env : FrameDraws) (st : ServeState) (src : Key) {k : Key}
    (h : k = src ∨ Known upgrade k st) : Known upgrade k (contact C id upgrade env st src).1 := by
  cases upgrade with
  | none => exact fun h => absurd h (by decide)
  | some up =>
      intro _
      rw [contact_some]
      split
      · next hmem =>
          rcases h with rfl | h
          · exact hmem
          · exact h rfl
      · exact List.mem_cons.mpr (h.imp_right fun h => h rfl)

theorem dispatch_upgraded (env : FrameDraws) (st : ServeState) (src : Key) (pkt : Bytes) :
    (dispatch C F id upgrade env st src pkt).1.upgraded = st.upgraded := by
  simp only [dispatch, serveInit, serveTransport]
  repeat' split
  all_goals rfl

theorem known_serveFrame (st : ServeState) (f : RelayFrame) {k : Key}
    (h : Carries f ∧ k = source f ∨ Known upgrade k st) :
    Known upgrade k (serveFrame C F f.env id upgrade st f.typ f.payload).1 := by
  by_cases hf : Carries f
  · rw [serveFrame_carries C F id upgrade st hf]
    intro hup
    show k ∈ (dispatch C F id upgrade f.env _ _ _).1.upgraded
    rw [dispatch_upgraded]
    exact known_contact f.env st (source f) (h.imp_left And.right) hup
  · rw [serveFrame_idle C F id upgrade st hf]
    exact h.resolve_left fun h => hf h.1

theorem known_served (frames : List RelayFrame) {st : ServeState} {k : Key}
    (h : Known upgrade k st) : Known upgrade k (served C F id upgrade st frames).1 := by
  induction frames generalizing st with
  | nil => exact h
  | cons f frames ih => exact ih (known_serveFrame st f (.inr h))

/-- The tunnel stays while no initiation under its key is accepted. -/
theorem tunnelUnder_served {k : Key} (frames : List RelayFrame) (st : ServeState)
    (h : ∀ f ∈ frames, source f = k → accepted C id f = none) :
    tunnelUnder (served C F id upgrade st frames).1 k = tunnelUnder st k := by
  induction frames generalizing st with
  | nil => rfl
  | cons f frames ih =>
      have hfirst : (if source f = k then accepted C id f else none) = none := by
        split
        · next hk => exact h f List.mem_cons_self hk
        · rfl
      have hrest := ih (serveFrame C F f.env id upgrade st f.typ f.payload).1
        fun g hg => h g (List.mem_cons_of_mem f hg)
      refine hrest.trans ?_
      rw [tunnelUnder_serveFrame, hfirst, Option.map_none, Option.none_or]

/-- What a frame adds to a session. -/
theorem served_snoc (st : ServeState) (a : List RelayFrame) (f : RelayFrame) :
    (served C F id upgrade st (a ++ [f])).2 = Sends.append (served C F id upgrade st a).2
      (serveFrame C F f.env id upgrade (served C F id upgrade st a).1 f.typ f.payload).2 := by
  rw [served_append]
  simp only [served, Sends.append, Sends.none, List.append_nil]

variable (F upgrade) in
/-- An initiation to us is answered, and the two tunnels mirror each other. -/
theorem serveFrame_initiation (hC : C.Lawful) (hpub : id.nodePub = pubkey C id.nodePriv)
    (privI ephI : Key) (ts : Arr 12) (i : UInt32) (k : Key) (env : FrameDraws) (st : ServeState) :
    let init := initiation C privI id.nodePriv ephI ts i
    let f := relayed k init.1.1 env
    ∃ (resp : Arr respLen) (tI tR : Tunnel) (first : Sends),
      (serveFrame C F f.env id upgrade st f.typ f.payload).2 =
        Sends.append first ⟨[⟨k, resp.1⟩], []⟩ ∧
      init.2.consumeResponse C resp.1 = .ok tI ∧
      tunnelUnder (serveFrame C F f.env id upgrade st f.typ f.payload).1 k = some tR ∧
      tI.sendKey = tR.recvKey ∧ tI.recvKey = tR.sendKey := by
  intro init f
  obtain ⟨run, resp, tI, tR, -, hcons, hresp, -, -, -, -, hkeys, hI, hR⟩ :=
    handshake_run hC privI id.nodePriv ephI env.ephemeral ts i env.index
  rw [← hpub] at hcons
  have htype : byteAt init.1.1 0 = msgInitiation :=
    (buildInitiation_header C privI (pubkey C privI) (pubkey C id.nodePriv) ts i ephI).1
  have hlen : 0 < init.1.1.length := by
    rw [init.1.2]
    decide
  have hdisco : Disco.isDisco init.1.1 = false :=
    not_isDisco_of_head ((head?_eq_byteAt hlen).trans (congrArg some htype)) (by decide)
  have hf : Carries f := relayed_carries k env (List.ne_nil_of_length_pos hlen)
  have hinit : ∀ st', dispatch C F id upgrade f.env st' k init.1.1 =
      ({ st' with peers := st'.peers.insert k ⟨tR, Tcp.TcpServer.new⟩ },
        ⟨[⟨k, resp.1⟩], []⟩) := by
    intro st'
    rw [dispatch, if_neg (by rw [hdisco]; decide), if_pos htype, serveInit]
    simp only [show consumeInitiation C id.nodePriv id.nodePub init.1.1 f.env.index
      f.env.ephemeral = _ from hcons]
  have hframe := serveFrame_carries C F id upgrade st hf
  rw [relayed_source, relayed_drop] at hframe
  simp only [hinit] at hframe
  rw [hframe]
  refine ⟨resp, tI, tR, _, rfl, hresp, ?_, ?_, ?_⟩
  · simp only [tunnelUnder, Table.get?_insert, if_pos, Option.map_some]
    rw [keyPart, hR]
  · rw [hI, hR, hkeys]
  · rw [hI, hR, hkeys]

/-- An echo request through the tunnel of a known key is answered through it. -/
theorem serveFrame_ping (hC : C.Lawful) (hicmp : F.icmp = true) {k : Key} {st : ServeState}
    (tI : Tunnel) {tR : Tunnel} (hunder : tunnelUnder st k = some tR)
    (hsend : tI.sendKey = tR.recvKey) (hrecv : tI.recvKey = tR.sendKey)
    (hknown : Known upgrade k st) {x reply : Bytes} (hx : DeclaresLength x)
    (h20 : 20 ≤ x.length) (hallowed : srcAllowed id.allowedSrcs x = true)
    (hreply : echoReplyAny x = some reply) (env : FrameDraws) :
    ∃ pkt y, (serveFrame C F env id upgrade st frameRecvPacket
        (k.1 ++ (tI.encrypt C x).1)).2 = ⟨[⟨k, pkt⟩], []⟩ ∧
      tI.decrypt C pkt = .ok y ∧ Padded reply y := by
  obtain ⟨p, hp, hkeyPart⟩ := Option.map_eq_some_iff.mp hunder
  have hkeys : p.tun.recvKey = tI.sendKey ∧ tI.recvKey = p.tun.sendKey := by
    rw [hsend, hrecv, ← hkeyPart]
    exact ⟨rfl, rfl⟩
  obtain ⟨hdec, -⟩ := decrypt_encrypt hC (t := tI) (x := x) hkeys.1
  obtain ⟨m, hm, -⟩ := pad16_padded x
  have halike := handledAlike_append (zeros m) hx h20
  rw [hm] at hdec
  have hfirst := encrypt_type C tI x
  have hne : (tI.encrypt C x).1 ≠ [] := by
    rw [encrypt_eq]
    exact List.cons_ne_nil _ _
  have hlen := List.length_pos_of_ne_nil hne
  have hdisco : Disco.isDisco (tI.encrypt C x).1 = false :=
    not_isDisco_of_head ((head?_eq_byteAt hlen).trans (congrArg some hfirst)) (by decide)
  have hf := relayed_carries k env hne
  have hframe := serveFrame_carries C F id upgrade st hf
  rw [relayed_source, relayed_drop, contact_known hknown] at hframe
  have hinner : x ++ zeros m ≠ [] ∧ srcAllowed id.allowedSrcs (x ++ zeros m) = true := by
    refine ⟨fun h => ?_, by rw [halike.filter, hallowed]⟩
    rw [(List.append_eq_nil_iff.mp h).1] at h20
    simp at h20
  have hout : (serveTransport C F env id st k (tI.encrypt C x).1).2 =
      [⟨k, (p.tun.encrypt C reply).1⟩] := by
    rw [serveTransport, hp]
    simp only [hdec]
    rw [if_pos hinner, handleInner, if_pos hicmp, halike.echo, hreply]
    rfl
  have hsends : (serveFrame C F env id upgrade st frameRecvPacket
      (k.1 ++ (tI.encrypt C x).1)).2 = ⟨[⟨k, (p.tun.encrypt C reply).1⟩], []⟩ := by
    refine (congrArg Prod.snd hframe).trans ?_
    have hdispatch : (dispatch C F id upgrade env st k (tI.encrypt C x).1).2 =
        ⟨[⟨k, (p.tun.encrypt C reply).1⟩], []⟩ := by
      rw [dispatch, if_neg (by rw [hdisco]; decide), if_neg (by rw [hfirst]; decide),
        if_pos hfirst, hout]
    exact hdispatch
  obtain ⟨hback, -⟩ := decrypt_encrypt hC (t := p.tun) (x := reply) hkeys.2
  exact ⟨_, _, hsends, hback, pad16_padded reply⟩

/-- A peer shakes hands over the relay at any point of a session. Whatever
frames come after, as long as no other initiation is accepted under its key,
an echo request it sends then, sealed under any counter, makes the session
send one more packet, to it, from which it reads the echo reply. -/
theorem relay_ping_answered (C : Crypto) (hC : C.Lawful) (F : Features) (hicmp : F.icmp = true)
    (id : Identity) (hpub : id.nodePub = pubkey C id.nodePriv) (upgrade : Option Upgrade)
    (privI ephI : Key) (ts : Arr 12) (i : UInt32) (k : Key) (env₀ : FrameDraws)
    (past mid : List RelayFrame)
    (hmid : ∀ f ∈ mid, source f = k → accepted C id f = none) :
    let init := initiation C privI id.nodePriv ephI ts i
    let session := served C F id upgrade ServeState.empty
    let began := past ++ [relayed k init.1.1 env₀]
    ∃ (resp : Arr respLen) (tI : Tunnel) (first : List Packet),
      (session began).2.packets = (session past).2.packets ++ first ++ [⟨k, resp.1⟩] ∧
      init.2.consumeResponse C resp.1 = .ok tI ∧
      ∀ (c : UInt64) (x reply : Bytes) (env : FrameDraws), DeclaresLength x → 20 ≤ x.length →
        srcAllowed id.allowedSrcs x = true → echoReplyAny x = some reply →
        ∃ pkt y,
          (session (began ++ mid ++
            [relayed k (({ tI with txCounter := c } : Tunnel).encrypt C x).1 env])).2.packets =
            (session (began ++ mid)).2.packets ++ [⟨k, pkt⟩] ∧
          tI.decrypt C pkt = .ok y ∧ Padded reply y := by
  intro init session began
  obtain ⟨resp, tI, tR, first, hout, hresp, hunder, hsend, hrecv⟩ :=
    serveFrame_initiation F upgrade hC hpub privI ephI ts i k env₀
      (session past).1
  have hbegan : (session began).1 = (serveFrame C F env₀ id upgrade (session past).1
      frameRecvPacket (k.1 ++ init.1.1)).1 := by
    simp only [session, began, served_append]
    rfl
  have hne : init.1.1 ≠ [] := by
    refine List.ne_nil_of_length_pos ?_
    rw [init.1.2]
    decide
  have hcarries : Carries (relayed k init.1.1 env₀) := relayed_carries k env₀ hne
  have hlast : (session (began ++ mid)).1 = (served C F id upgrade (session began).1 mid).1 := by
    simp only [session, served_append]
  have htun : tunnelUnder (session (began ++ mid)).1 k = some tR := by
    rw [hlast, tunnelUnder_served mid _ hmid, hbegan]
    exact hunder
  have hknown : Known upgrade k (session (began ++ mid)).1 := by
    rw [hlast]
    apply known_served
    rw [hbegan]
    exact known_serveFrame _ (relayed k init.1.1 env₀)
      (.inl ⟨hcarries, (relayed_source k _ _).symm⟩)
  refine ⟨resp, tI, first.packets, ?_, hresp, ?_⟩
  · simp only [session, began]
    rw [served_snoc, hout]
    simp only [Sends.append, List.append_assoc]
  · intro c x reply env hx h20 hallowed hreply
    obtain ⟨pkt, y, hframe, hdec, hpad⟩ := serveFrame_ping (F := F) hC hicmp
      { tI with txCounter := c } htun hsend hrecv hknown hx h20 hallowed hreply env
    refine ⟨pkt, y, ?_, hdec, hpad⟩
    simp only [session]
    rw [served_snoc]
    exact congrArg (fun s => (Sends.append _ s).packets) hframe

end Peer

/-! Another source in between, and a ping of 28 bytes. -/

private def noDraws : FrameDraws := ⟨0, Arr.zero 32, Arr.zero 24, Arr.zero 24, 0⟩

private def stray : RelayFrame := relayed (Arr.zero 32) [9] noDraws

private theorem stray_other : ∀ f ∈ [stray], source f = oneKey →
    accepted transparent zeroIdentity f = none := by
  intro f hf hsource
  rw [List.mem_singleton.mp hf, stray, relayed_source] at hsource
  exact absurd hsource (by decide)

private def hello : RelayFrame :=
  relayed oneKey (initiation transparent oneKey zeroIdentity.nodePriv (Arr.zero 32) (Arr.zero 12)
    5).1.1 noDraws

theorem relay_ping_answered_stray :
    ∃ (tI : Tunnel) (pkt y reply : Bytes), echoReplyAny ping28 = some reply ∧
      (served transparent defaultFeatures zeroIdentity none ServeState.empty
        ([hello, stray] ++ [relayed oneKey (tI.encrypt transparent ping28).1
          noDraws])).2.packets.getLast? = some ⟨oneKey, pkt⟩ ∧
      tI.decrypt transparent pkt = .ok y ∧ Padded reply y := by
  obtain ⟨resp, tI, first, -, -, hping⟩ := relay_ping_answered transparent transparent_lawful
    defaultFeatures rfl zeroIdentity rfl none oneKey (Arr.zero 32) (Arr.zero 12) 5 oneKey noDraws
    [] [stray] stray_other
  obtain ⟨reply, hreply⟩ := Option.isSome_iff_exists.mp
    (show (echoReplyAny ping28).isSome = true by decide)
  obtain ⟨pkt, y, hsent, hdec, hpad⟩ := hping 0 ping28 reply noDraws
    (.inl (by decide)) (by decide) rfl hreply
  refine ⟨{ tI with txCounter := 0 }, pkt, y, reply, hreply, ?_, hdec, hpad⟩
  have hlist : [hello, stray] = [] ++ [hello] ++ [stray] := rfl
  rw [hlist, hello, hsent, List.getLast?_concat]

/-! ## Upgrades -/

section Upgrades

variable (C : Crypto) (F : Features) (id : Identity) (up : Upgrade)

/-- The first packet of a source in a session. -/
def FirstOf (past : List RelayFrame) (f : RelayFrame) : Prop :=
  Carries f ∧ ∀ g ∈ past, Carries g → source g ≠ source f

instance (past : List RelayFrame) (f : RelayFrame) : Decidable (FirstOf past f) :=
  inferInstanceAs (Decidable (_ ∧ _))

theorem contact_upgraded (env : FrameDraws) (st : ServeState) (src k : Key) :
    k ∈ (contact C id (some up) env st src).1.upgraded ↔ k = src ∨ k ∈ st.upgraded := by
  rw [contact_some]
  split
  · next hmem =>
      refine ⟨.inr, fun h => ?_⟩
      rcases h with rfl | h
      · exact hmem
      · exact h
  · exact List.mem_cons

theorem serveFrame_upgraded (st : ServeState) (f : RelayFrame) (k : Key) :
    k ∈ (serveFrame C F f.env id (some up) st f.typ f.payload).1.upgraded ↔
      Carries f ∧ source f = k ∨ k ∈ st.upgraded := by
  by_cases hf : Carries f
  · rw [serveFrame_carries C F id (some up) st hf]
    show k ∈ (dispatch C F id (some up) f.env _ _ _).1.upgraded ↔ _
    rw [dispatch_upgraded, contact_upgraded, eq_comm]
    simp only [hf, true_and]
  · rw [serveFrame_idle C F id (some up) st hf]
    simp only [hf, false_and, false_or]

/-- The known sources are those that have sent a packet. -/
theorem served_upgraded (frames : List RelayFrame) (st : ServeState) (k : Key) :
    k ∈ (served C F id (some up) st frames).1.upgraded ↔
      (∃ f ∈ frames, Carries f ∧ source f = k) ∨ k ∈ st.upgraded := by
  induction frames generalizing st with
  | nil => simp [served]
  | cons f frames ih =>
      refine (ih (serveFrame C F f.env id (some up) st f.typ f.payload).1).trans ?_
      rw [serveFrame_upgraded, List.exists_mem_cons_iff, or_left_comm, or_assoc]

/-- Upgrades apart, a packet does the same whether there are any or not. -/
theorem dispatch_upgrade (env : FrameDraws) (st st' : ServeState) (h : st'.peers = st.peers)
    (src : Key) (pkt : Bytes) :
    (dispatch C F id (some up) env st' src pkt).1.peers =
        (dispatch C F id none env st src pkt).1.peers ∧
      (dispatch C F id (some up) env st' src pkt).2.packets =
        (dispatch C F id none env st src pkt).2.packets := by
  simp only [dispatch]
  split
  · refine ⟨h, ?_⟩
    simp only [serveDisco]
    split
    · rfl
    · split
      · rfl
      · simp only [Option.isSome_none, Bool.false_eq_true, and_false, if_false]
        split <;> rfl
  · split
    · simp only [serveInit]
      split
      · exact ⟨h, rfl⟩
      · exact ⟨by rw [h], rfl⟩
    · split
      · simp only [serveTransport, h]
        split
        · exact ⟨h, rfl⟩
        · split
          · exact ⟨h, rfl⟩
          · split
            · exact ⟨rfl, rfl⟩
            · exact ⟨h, rfl⟩
      · exact ⟨h, rfl⟩

theorem serveFrame_upgrade {st st' : ServeState} (h : st'.peers = st.peers) (f : RelayFrame) :
    (serveFrame C F f.env id (some up) st' f.typ f.payload).1.peers =
        (serveFrame C F f.env id none st f.typ f.payload).1.peers ∧
      (serveFrame C F f.env id (some up) st' f.typ f.payload).2.packets =
        (if Carries f ∧ source f ∉ st'.upgraded then
          (tryUpgrade C f.env id up (source f)).packets else []) ++
          (serveFrame C F f.env id none st f.typ f.payload).2.packets := by
  by_cases hf : Carries f
  · rw [serveFrame_carries C F id (some up) st' hf, serveFrame_carries C F id none st hf]
    obtain ⟨hpeers, hout⟩ := dispatch_upgrade C F id up f.env st
      (contact C id (some up) f.env st' (source f)).1
      ((contact_peers C id (some up) f.env st' (source f)).trans h) (source f)
      (f.payload.drop 32)
    refine ⟨hpeers, ?_⟩
    show (contact C id (some up) f.env st' (source f)).2.packets ++ _ = _ ++ ([] ++ _)
    rw [hout, List.nil_append]
    congr 1
    rw [contact_some]
    by_cases hmem : source f ∈ st'.upgraded
    · rw [if_pos hmem, if_neg fun h => h.2 hmem]
      rfl
    · rw [if_neg hmem, if_pos ⟨hf, hmem⟩]
  · rw [serveFrame_idle C F id (some up) st' hf, serveFrame_idle C F id none st hf,
      if_neg fun h => hf h.1]
    exact ⟨h, rfl⟩

theorem served_upgrade (frames : List RelayFrame) {st st' : ServeState}
    (h : st'.peers = st.peers) :
    (served C F id (some up) st' frames).1.peers = (served C F id none st frames).1.peers := by
  induction frames generalizing st st' with
  | nil => exact h
  | cons f frames ih => exact ih (serveFrame_upgrade C F id up h f).1

/-- In every session with upgrades: the tunnels and connections are those of
the session without, and every frame sends what it does there, behind the
announcement of our endpoints exactly if it is the first packet of its source. -/
theorem upgrade_at_first_contact (past : List RelayFrame) (f : RelayFrame) :
    let on := served C F id (some up) ServeState.empty
    let off := served C F id none ServeState.empty
    (on past).1.peers = (off past).1.peers ∧
      ∃ answers, (off (past ++ [f])).2.packets = (off past).2.packets ++ answers ∧
        (on (past ++ [f])).2.packets = (on past).2.packets ++
          ((if FirstOf past f then (tryUpgrade C f.env id up (source f)).packets else []) ++
            answers) := by
  intro on off
  have hpeers : (on past).1.peers = (off past).1.peers := served_upgrade C F id up past rfl
  obtain ⟨-, hout⟩ := serveFrame_upgrade C F id up hpeers f
  have hfirst : (Carries f ∧ source f ∉ (on past).1.upgraded) ↔ FirstOf past f := by
    rw [served_upgraded, FirstOf]
    refine and_congr_right fun _ => ⟨?_, ?_⟩
    · intro hnew g hg hcarries heq
      exact hnew (.inl ⟨g, hg, hcarries, heq⟩)
    · rintro hnew (⟨g, hg, hcarries, heq⟩ | hmem)
      · exact hnew g hg hcarries heq
      · exact absurd hmem List.not_mem_nil
  rw [if_congr hfirst rfl rfl] at hout
  refine ⟨hpeers, (serveFrame C F f.env id none (off past).1 f.typ f.payload).2.packets, ?_, ?_⟩
  · exact congrArg Sends.packets (served_snoc ServeState.empty past f)
  · refine (congrArg Sends.packets (served_snoc ServeState.empty past f)).trans ?_
    exact congrArg _ hout

end Upgrades

end TailscaleRust.Proofs.Relay
