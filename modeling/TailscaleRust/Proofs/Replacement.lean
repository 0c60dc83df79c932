import TailscaleRust.Proofs.Tables

/-!
# What a new tunnel replaces

`insert_tunnel` drops the tunnels to the new tunnel's address and whatever
stood under its index. Neither is the peer's key, so three things depend on
where a handshake comes from and on the index drawn for it: whether the
peer's own old tunnel goes, whether another peer's tunnel stays, and whether
the table grows. Each is characterised by a condition on the state the
handshake finds; the first and the last are kept by a run exactly while its
steps meet their condition.
-/

namespace TailscaleRust.Proofs

open TailscaleRust.Lib TailscaleRust.Core TailscaleRust.Core.Wg
open TailscaleRust.Firmware TailscaleRust.Firmware.Dataplane

/-! ## The tunnel a step adds -/

/-- The index, the peer and the address of the tunnel a step adds, when a
handshake completes in it. -/
def installed (H : Host) (s : NodeState) (ev : Input) : Option (UInt32 × Key × SocketAddr) :=
  match outcome H s ev with
  | .answer i _ _ peer src => some (i, peer, src)
  | .complete key p _ src => some (p.ourIndex, key, src)
  | _ => none

section Installed

variable {H : Host} {s : NodeState} {ev : Input} {i : UInt32} {peer : Key} {src : SocketAddr}

theorem tunnels_of_installed (h : installed H s ev = some (i, peer, src)) :
    ∃ tun, ∀ j, (H.step s ev).1.st.tunnels.get? j =
      if j = i then some ⟨tun, src, peer, Tcp.TcpServer.new⟩
      else (s.st.tunnels.get? j).filter fun e => e.addr ≠ src := by
  rw [installed] at h
  split at h
  · next resp tun _ _ ho =>
      cases h
      rw [(step_answer ho).2]
      exact ⟨tun, tunnels_insertTunnel s.st i tun src peer⟩
  · next p tun _ ho =>
      cases h
      rw [(step_complete ho).2]
      exact ⟨_, tunnels_insertTunnel _ p.ourIndex _ src peer⟩
  · cases h

theorem tunnels_of_not_installed (h : installed H s ev = none) (j : UInt32) :
    ((H.step s ev).1.st.tunnels.get? j).map linkPart = (s.st.tunnels.get? j).map linkPart := by
  rw [installed] at h
  cases ho : outcome H s ev with
  | quiet => exact (step_quiet ho).steady.tunnels j
  | pong tick env sender src => rw [(step_pong ho).2.1]
  | answer i resp tun peer src =>
      rw [ho] at h
      cases h
  | complete key p tun src =>
      rw [ho] at h
      cases h
  | refuse key => rw [(step_refuse ho).2]
  | retry tick => exact (step_retry ho).1.2.2 j

end Installed

/-! ## One tunnel for each peer -/

def OnePerPeer (st : State) : Prop :=
  ∀ i j e e', st.tunnels.get? i = some e → st.tunnels.get? j = some e' →
    e.peerNode = e'.peerNode → i = j

/-- When a handshake completes, every tunnel its peer has goes to the address
it came from, or stands under the index it draws. -/
def replacesOwn (H : Host) (s : NodeState) (ev : Input) : Bool :=
  match installed H s ev with
  | none => true
  | some (i, peer, src) =>
      s.st.tunnels.all fun j e => e.peerNode ≠ peer ∨ e.addr = src ∨ j = i

section OnePerPeer

variable {H : Host} {s : NodeState} {ev : Input}

theorem onePerPeer_of_linkPart {st st' : State}
    (hsame : ∀ i, (st'.tunnels.get? i).map linkPart = (st.tunnels.get? i).map linkPart)
    (h : OnePerPeer st) : OnePerPeer st' := by
  intro i j e e' he he' hpeer
  obtain ⟨f, hf, heq⟩ := get?_of_linkPart hsame he
  obtain ⟨f', hf', heq'⟩ := get?_of_linkPart hsame he'
  have hp : e.peerNode = f.peerNode := congrArg Prod.snd heq
  have hp' : e'.peerNode = f'.peerNode := congrArg Prod.snd heq'
  refine h i j f f' hf hf' ?_
  rw [← hp, ← hp', hpeer]

/-- A tunnel of another index that is there after a handshake was there
before, and goes elsewhere. -/
theorem kept_of_installed {i : UInt32} {peer : Key} {src : SocketAddr}
    {tunnels : Table UInt32 TunnelEntry} {tun : Tunnel}
    (hstep : ∀ j, tunnels.get? j =
      if j = i then some ⟨tun, src, peer, Tcp.TcpServer.new⟩
      else (s.st.tunnels.get? j).filter fun e => e.addr ≠ src)
    {j : UInt32} {e : TunnelEntry} (hj : j ≠ i) :
    tunnels.get? j = some e ↔ s.st.tunnels.get? j = some e ∧ e.addr ≠ src := by
  rw [hstep, if_neg hj, Option.filter_eq_some_iff, decide_eq_true_eq]

theorem onePerPeer_step_iff (h : OnePerPeer s.st) :
    replacesOwn H s ev = true ↔ OnePerPeer (H.step s ev).1.st := by
  rw [replacesOwn]
  split
  · next hnone =>
      exact ⟨fun _ => onePerPeer_of_linkPart (tunnels_of_not_installed hnone) h, fun _ => rfl⟩
  · next i peer src hsome =>
      obtain ⟨tun, hstep⟩ := tunnels_of_installed hsome
      have hnew : (H.step s ev).1.st.tunnels.get? i =
          some ⟨tun, src, peer, Tcp.TcpServer.new⟩ := by rw [hstep, if_pos rfl]
      rw [Table.all_iff]
      simp only [decide_eq_true_eq]
      refine ⟨?_, ?_⟩
      · intro hown
        -- an old tunnel that stayed is not with the peer of the new one
        have hold : ∀ j e, j ≠ i → (H.step s ev).1.st.tunnels.get? j = some e →
            e.peerNode ≠ peer := by
          intro j e hj he hpeer
          obtain ⟨hget, haddr⟩ := (kept_of_installed hstep hj).mp he
          rcases hown j e hget with hne | hsrc | hi
          · exact hne hpeer
          · exact haddr hsrc
          · exact hj hi
        intro j k e e' he he' hpeer
        by_cases hj : j = i
        · by_cases hk : k = i
          · rw [hj, hk]
          · rw [hj, hnew] at he
            cases he
            exact absurd hpeer.symm (hold k e' hk he')
        · by_cases hk : k = i
          · rw [hk, hnew] at he'
            cases he'
            exact absurd hpeer (hold j e hj he)
          · exact h j k e e' ((kept_of_installed hstep hj).mp he).1
              ((kept_of_installed hstep hk).mp he').1 hpeer
      · intro hone j e he
        by_cases hpeer : e.peerNode = peer
        · by_cases haddr : e.addr = src
          · exact .inr (.inl haddr)
          · by_cases hj : j = i
            · exact .inr (.inr hj)
            · have hstays := (kept_of_installed hstep hj).mpr ⟨he, haddr⟩
              exact absurd (hone j i e _ hstays hnew hpeer) hj
        · exact .inl hpeer

/-- The lookup by peer finds the peer's tunnel, the only one there is. -/
theorem find?_peer_iff {st : State} (h : OnePerPeer st) {peer : Key} {i : UInt32}
    {e : TunnelEntry} :
    st.tunnels.find? (fun _ e => e.peerNode = peer) = some (i, e) ↔
      st.tunnels.get? i = some e ∧ e.peerNode = peer := by
  refine ⟨?_, ?_⟩
  · intro hfind
    obtain ⟨hget, hpeer⟩ := Table.find?_some hfind
    exact ⟨hget, of_decide_eq_true hpeer⟩
  · intro hentry
    obtain ⟨hget, hpeer⟩ := hentry
    cases hfind : st.tunnels.find? fun _ e => e.peerNode = peer with
    | none =>
        have hnot := Table.find?_none hfind hget
        rw [decide_eq_false_iff_not] at hnot
        exact absurd hpeer hnot
    | some f =>
        obtain ⟨j, e'⟩ := f
        obtain ⟨hget', hpeer'⟩ := Table.find?_some hfind
        have hj : j = i := h j i e' e hget' hget ((of_decide_eq_true hpeer').trans hpeer.symm)
        subst hj
        rw [hget'] at hget
        cases hget
        rfl

theorem onePerPeer_fresh (h : Fresh s) : OnePerPeer s.st := by
  intro i j e e' he
  rw [h.tunnels] at he
  cases he

end OnePerPeer

/-- A run has one tunnel per peer throughout exactly while every handshake
that completes replaces the peer's own tunnels. In its states the lookup by
peer finds the one tunnel there is, and after the next such handshake the
new one. -/
theorem one_tunnel_per_peer_iff (H : Host) (s₀ s : NodeState) (evs : List Input)
    (hfresh : Fresh s₀) :
    (Run (Guarded (fun s ev => replacesOwn H s ev = true) H.Steps) s₀ evs s ↔
      Run (Keeping (fun s => OnePerPeer s.st) H.Steps) s₀ evs s) ∧
    (Run (Guarded (fun s ev => replacesOwn H s ev = true) H.Steps) s₀ evs s →
      OnePerPeer s.st ∧
      (∀ peer i e, s.st.tunnels.find? (fun _ e => e.peerNode = peer) = some (i, e) ↔
        s.st.tunnels.get? i = some e ∧ e.peerNode = peer) ∧
      ∀ ev i peer src, replacesOwn H s ev = true → installed H s ev = some (i, peer, src) →
        ∃ e, (H.step s ev).1.st.tunnels.find? (fun _ e => e.peerNode = peer) = some (i, e)) := by
  have hone := onePerPeer_fresh hfresh
  have hiff : Run (Guarded (fun s ev => replacesOwn H s ev = true) H.Steps) s₀ evs s ↔
      Run (Keeping (fun s => OnePerPeer s.st) H.Steps) s₀ evs s := by
    refine run_guarded_iff_keeping (I := fun _ => True) (fun _ _ => trivial) ?_ trivial hone
    intro s ev t _ h hstep
    rw [← hstep]
    exact onePerPeer_step_iff h
  refine ⟨hiff, ?_⟩
  intro hrun
  have hlast : OnePerPeer s.st := (hiff.mp hrun).keeps hone
  refine ⟨hlast, fun peer i e => find?_peer_iff hlast, ?_⟩
  intro ev i peer src hown hsome
  obtain ⟨tun, hstep⟩ := tunnels_of_installed hsome
  refine ⟨⟨tun, src, peer, Tcp.TcpServer.new⟩, ?_⟩
  exact (find?_peer_iff ((onePerPeer_step_iff hlast).mp hown)).mpr
    ⟨by rw [hstep, if_pos rfl], rfl⟩

/-- A peer shakes hands from one address and then from another. -/
def movedPeer : List Input := [arrives (initiationOf 7) 7 4, arrives (initiationOf 7) 8 6]

/-- The peer shakes hands again from where it was. -/
def returnedPeer : List Input := [arrives (initiationOf 7) 7 4, arrives (initiationOf 7) 7 6]

def peerAt (s : NodeState) (i : UInt32) : Option Key :=
  (s.st.tunnels.get? i).map TunnelEntry.peerNode

theorem peerAt_some {s : NodeState} {i : UInt32} {peer : Key} (h : peerAt s i = some peer) :
    ∃ e, s.st.tunnels.get? i = some e ∧ e.peerNode = peer :=
  Option.map_eq_some_iff.mp h

-- both runs in one evaluation, which goes through the handshake's constants once
theorem peerAt_moved_returned :
    (peerAt (solo.after soloStart movedPeer) 4 = some (byteKey 7) ∧
      peerAt (solo.after soloStart movedPeer) 6 = some (byteKey 7)) ∧
    solo.checks (replacesOwn solo) soloStart returnedPeer = true ∧
      peerAt (solo.after soloStart returnedPeer) 4 = none ∧
      peerAt (solo.after soloStart returnedPeer) 6 = some (byteKey 7) := by
  decide +kernel

theorem moved_peer_has_two :
    Fresh soloStart ∧ ∃ s, Run solo.Steps soloStart movedPeer s ∧ ¬OnePerPeer s.st := by
  refine ⟨solo_fresh, _, solo.run_after soloStart movedPeer, fun hone => ?_⟩
  obtain ⟨h4, h6⟩ := peerAt_moved_returned.1
  obtain ⟨e, he, hpeer⟩ := peerAt_some h4
  obtain ⟨e', he', hpeer'⟩ := peerAt_some h6
  exact absurd (hone 4 6 e e' he he' (hpeer.trans hpeer'.symm)) (by decide)

theorem one_tunnel_per_peer_solo :
    ∃ s, Run (Guarded (fun s ev => replacesOwn solo s ev = true) solo.Steps) soloStart
        returnedPeer s ∧ peerAt s 4 = none ∧ peerAt s 6 = some (byteKey 7) ∧ OnePerPeer s.st := by
  obtain ⟨hok, h4, h6⟩ := peerAt_moved_returned.2
  have hrun := solo.guarded_run_after (replacesOwn solo) soloStart returnedPeer hok
  obtain ⟨-, hone⟩ := one_tunnel_per_peer_iff solo soloStart _ returnedPeer solo_fresh
  exact ⟨_, hrun, h4, h6, (hone hrun).1⟩

/-! ## The tunnels of other peers -/

/-- A handshake that completes leaves the tunnels of the other peers in the
table exactly if none of them goes to the address it came from or stands
under the index it draws. -/
theorem other_tunnels_kept_iff (H : Host) (s : NodeState) (ev : Input) (i : UInt32) (peer : Key)
    (src : SocketAddr) (h : installed H s ev = some (i, peer, src)) :
    (∀ j e, s.st.tunnels.get? j = some e → e.peerNode ≠ peer →
      ∃ e', (H.step s ev).1.st.tunnels.get? j = some e' ∧ e'.peerNode = e.peerNode ∧
        e'.tun = e.tun ∧ e'.tcp = e.tcp) ↔
    ∀ j e, s.st.tunnels.get? j = some e → e.peerNode ≠ peer → e.addr ≠ src ∧ j ≠ i := by
  obtain ⟨tun, hstep⟩ := tunnels_of_installed h
  refine ⟨?_, ?_⟩
  · intro hkept j e he hpeer
    obtain ⟨e', he', hpeer', -⟩ := hkept j e he hpeer
    have hj : j ≠ i := by
      intro hj
      rw [hstep, if_pos hj] at he'
      cases he'
      exact hpeer hpeer'.symm
    obtain ⟨hget, haddr⟩ := (kept_of_installed hstep hj).mp he'
    rw [he] at hget
    cases hget
    exact ⟨haddr, hj⟩
  · intro hspared j e he hpeer
    obtain ⟨haddr, hj⟩ := hspared j e he hpeer
    exact ⟨e, (kept_of_installed hstep hj).mpr ⟨he, haddr⟩, rfl, rfl, rfl⟩

/-- A handshake completes and another peer's tunnel is gone. -/
def Evicts (H : Host) (s : NodeState) (ev : Input) : Prop :=
  ∃ i peer src j e, installed H s ev = some (i, peer, src) ∧
    s.st.tunnels.get? j = some e ∧ e.peerNode ≠ peer ∧
    ¬∃ e', (H.step s ev).1.st.tunnels.get? j = some e' ∧ e'.peerNode = e.peerNode ∧
      e'.tun = e.tun ∧ e'.tcp = e.tcp

theorem evicts_of_peerAt {s : NodeState} {ev : Input} {i : UInt32} {src : SocketAddr}
    (h : installed solo s ev = some (i, byteKey 7, src)) (hbefore : peerAt s 4 = some (byteKey 5))
    (hafter : peerAt (solo.step s ev).1 4 ≠ some (byteKey 5)) : Evicts solo s ev := by
  obtain ⟨e, he, hpeer⟩ := peerAt_some hbefore
  refine ⟨i, byteKey 7, src, 4, e, h, he, ?_, ?_⟩
  · rw [hpeer]
    decide
  · intro hfound
    obtain ⟨e', he', hpeer', -⟩ := hfound
    exact hafter (Option.map_eq_some_iff.mpr ⟨e', he', hpeer'.trans hpeer⟩)

/-- The node after one peer's handshake. -/
def afterOne : NodeState := solo.after soloStart [arrives (initiationOf 5) 5 4]

theorem afterOne_next :
    peerAt afterOne 4 = some (byteKey 5) ∧
    (installed solo afterOne (arrives (initiationOf 7) 7 4) = some (4, byteKey 7, lanAddr 7) ∧
      peerAt (solo.step afterOne (arrives (initiationOf 7) 7 4)).1 4 ≠ some (byteKey 5)) ∧
    (installed solo afterOne (arrives (initiationOf 7) 5 6) = some (6, byteKey 7, lanAddr 5) ∧
      peerAt (solo.step afterOne (arrives (initiationOf 7) 5 6)).1 4 ≠ some (byteKey 5)) ∧
    installed solo afterOne (arrives (initiationOf 7) 7 6) = some (6, byteKey 7, lanAddr 7) ∧
      afterOne.st.tunnels.all (fun j e => e.addr ≠ lanAddr 7 ∧ j ≠ 6) = true := by
  decide +kernel

/-- After one peer's handshake, another one for which the node draws the same
index, and another one that comes from the same address. -/
theorem handshake_evicts_other :
    Fresh soloStart ∧
    ∃ s, Run solo.Steps soloStart [arrives (initiationOf 5) 5 4] s ∧
      Evicts solo s (arrives (initiationOf 7) 7 4) ∧
      Evicts solo s (arrives (initiationOf 7) 5 6) := by
  obtain ⟨h5, hindex, haddr, -⟩ := afterOne_next
  exact ⟨solo_fresh, afterOne, solo.run_after soloStart _, evicts_of_peerAt hindex.1 h5 hindex.2,
    evicts_of_peerAt haddr.1 h5 haddr.2⟩

theorem other_tunnels_kept_solo :
    ∃ s, Run solo.Steps soloStart [arrives (initiationOf 5) 5 4] s ∧
      peerAt s 4 = some (byteKey 5) ∧
      ∀ j e, s.st.tunnels.get? j = some e → e.peerNode ≠ byteKey 7 →
        ∃ e', (solo.step s (arrives (initiationOf 7) 7 6)).1.st.tunnels.get? j = some e' ∧
          e'.peerNode = e.peerNode ∧ e'.tun = e.tun ∧ e'.tcp = e.tcp := by
  obtain ⟨h5, -, -, hsome, hspared⟩ := afterOne_next
  refine ⟨afterOne, solo.run_after soloStart _, h5, ?_⟩
  refine (other_tunnels_kept_iff solo afterOne (arrives (initiationOf 7) 7 6) 6 (byteKey 7)
    (lanAddr 7) hsome).mpr ?_
  intro j e he hpeer
  exact of_decide_eq_true (Table.all_iff.mp hspared j e he)

/-! ## The cap -/

def Capped (st : State) : Prop := st.tunnels.size + st.pending.size ≤ maxTunnels

/-- An initiation is answered only when, next to the tunnels that the new one
does not replace and the handshakes in flight, there is room for it. -/
def hasRoom (H : Host) (s : NodeState) (ev : Input) : Bool :=
  match outcome H s ev with
  | .answer i _ _ _ src =>
      ((s.st.tunnels.retain fun _ e => e.addr ≠ src).erase i).size + s.st.pending.size < maxTunnels
  | _ => true

section Cap

variable {H : Host} {s : NodeState} {ev : Input}

theorem size_insertTunnel (st : State) (i : UInt32) (tun : Tunnel) (addr : SocketAddr)
    (peer : Key) : (insertTunnel st i tun addr peer).tunnels.size =
      ((st.tunnels.retain fun _ e => e.addr ≠ addr).erase i).size + 1 :=
  Table.size_insert _ i _

theorem size_insertTunnel_le (st : State) (i : UInt32) (tun : Tunnel) (addr : SocketAddr)
    (peer : Key) : (insertTunnel st i tun addr peer).tunnels.size ≤ st.tunnels.size + 1 := by
  rw [size_insertTunnel]
  have herase := Table.size_erase_le (st.tunnels.retain fun _ e => e.addr ≠ addr) i
  have hretain := Table.size_retain_le st.tunnels fun _ e => e.addr ≠ addr
  omega

theorem size_of_linkPart {t t' : Table UInt32 TunnelEntry}
    (h : ∀ i, (t'.get? i).map linkPart = (t.get? i).map linkPart) : t'.size = t.size :=
  Table.size_eq_of_contains fun i => contains_of_linkPart h i

/-- Only an answer can break the cap. -/
theorem capped_step_iff (h : Capped s.st) :
    hasRoom H s ev = true ↔ Capped (H.step s ev).1.st := by
  rw [Capped] at h ⊢
  rw [hasRoom]
  cases ho : outcome H s ev with
  | quiet =>
      have hsteady := (step_quiet ho).steady
      rw [hsteady.pending, size_of_linkPart hsteady.tunnels]
      exact ⟨fun _ => h, fun _ => rfl⟩
  | pong tick env sender src =>
      obtain ⟨-, htun, -, hpend, -⟩ := step_pong ho
      refine ⟨fun _ => ?_, fun _ => rfl⟩
      rw [htun, hpend]
      split
      · exact h
      · next t hstart =>
          have hroom := (startTarget_some.mp hstart).room
          split
          · have hle := Table.size_insert_le s.st.pending t.nodePub
              (opening H env tick t.nodePub src)
            omega
          · exact h
  | answer i resp tun peer src =>
      rw [(step_answer ho).2]
      have hsize := size_insertTunnel s.st i tun src peer
      have hpend : (insertTunnel s.st i tun src peer).pending = s.st.pending := rfl
      simp only [decide_eq_true_eq, hsize, hpend]
      omega
  | complete key p tun src =>
      obtain ⟨⟨_, _, _, _, hfind, _⟩, hstep⟩ := step_complete ho
      refine ⟨fun _ => ?_, fun _ => rfl⟩
      rw [hstep]
      have hle := size_insertTunnel_le { s.st with pending := s.st.pending.erase key } p.ourIndex
        (tun.keepalive H.crypto).2 src key
      have hone := Table.size_erase (Table.find?_some hfind).1
      refine Nat.le_trans (Nat.add_le_add_right hle _) ?_
      show s.st.tunnels.size + 1 + (s.st.pending.erase key).size ≤ maxTunnels
      omega
  | refuse key =>
      refine ⟨fun _ => ?_, fun _ => rfl⟩
      rw [(step_refuse ho).2]
      have hle := Table.size_erase_le s.st.pending key
      show s.st.tunnels.size + (s.st.pending.erase key).size ≤ maxTunnels
      omega
  | retry tick =>
      obtain ⟨⟨hpend, -, htun⟩, -⟩ := step_retry ho
      refine ⟨fun _ => ?_, fun _ => rfl⟩
      rw [hpend, size_of_linkPart htun]
      have hle := Table.size_filterMap_le s.st.pending fun _ p =>
        (retryPending s.st.tunnels tick p).1
      show s.st.tunnels.size + (s.st.pending.filterMap _).size ≤ maxTunnels
      omega

end Cap

/-- A run stays within the cap exactly while every initiation it answers
finds room. -/
theorem tunnel_cap_iff (H : Host) (s₀ s : NodeState) (evs : List Input) (hfresh : Fresh s₀) :
    (Run (Guarded (fun s ev => hasRoom H s ev = true) H.Steps) s₀ evs s ↔
      Run (Keeping (fun s => Capped s.st) H.Steps) s₀ evs s) ∧
    (Run (Guarded (fun s ev => hasRoom H s ev = true) H.Steps) s₀ evs s → Capped s.st) := by
  have hempty : Capped s₀.st := by
    rw [Capped, hfresh.tunnels, hfresh.pending]
    exact Nat.zero_le _
  have hiff : Run (Guarded (fun s ev => hasRoom H s ev = true) H.Steps) s₀ evs s ↔
      Run (Keeping (fun s => Capped s.st) H.Steps) s₀ evs s := by
    refine run_guarded_iff_keeping (I := fun _ => True) (fun _ _ => trivial) ?_ trivial hempty
    intro s ev t _ h hstep
    rw [← hstep]
    exact capped_step_iff h
  exact ⟨hiff, fun hrun => (hiff.mp hrun).keeps hempty⟩

/-- One initiation, from nine addresses. -/
def ninefold : List Input :=
  (List.range 9).map fun k => arrives (initiationOf 7) (UInt8.ofNat k) (UInt32.ofNat k)

theorem sizes_evaluated :
    maxTunnels < (solo.after soloStart ninefold).st.tunnels.size ∧
    solo.checks (hasRoom solo) soloStart startAndAnswer = true ∧
      (solo.after soloStart startAndAnswer).st.tunnels.size = 1 ∧
      (solo.after soloStart startAndAnswer).st.pending.size = 1 := by
  decide +kernel

theorem ninefold_exceeds_cap :
    Fresh soloStart ∧ ∃ s, Run solo.Steps soloStart ninefold s ∧ ¬Capped s.st := by
  refine ⟨solo_fresh, _, solo.run_after soloStart ninefold, fun hcap => ?_⟩
  have hnine := sizes_evaluated.1
  rw [Capped] at hcap
  omega

theorem tunnel_cap_solo :
    ∃ s, Run (Guarded (fun s ev => hasRoom solo s ev = true) solo.Steps) soloStart
        startAndAnswer s ∧ s.st.tunnels.size = 1 ∧ s.st.pending.size = 1 ∧ Capped s.st := by
  obtain ⟨hok, htun, hpend⟩ := sizes_evaluated.2
  have hrun := solo.guarded_run_after (hasRoom solo) soloStart startAndAnswer hok
  obtain ⟨-, hcap⟩ := tunnel_cap_iff solo soloStart _ startAndAnswer solo_fresh
  exact ⟨_, hrun, htun, hpend, hcap hrun⟩

end TailscaleRust.Proofs
