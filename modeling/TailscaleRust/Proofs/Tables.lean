import TailscaleRust.Proofs.NodeSteps
import TailscaleRust.Proofs.Agreement

/-!
# The tunnel table and the table of pending handshakes

What the two tables of a node hold along every run: whose key an entry
names and where the entry comes from, how often a slot sends, how many
entries there are for one peer, what a new tunnel does to the others, and
how many entries there are in all.

An index is kept in five places. The invariant ties them together, and ties
every entry to the inputs of the run it was made from: a tunnel to the
initiation that was answered, or to the initiation sent and the response to
it, and a slot to the draws its initiation was built from.
-/

namespace TailscaleRust.Proofs

open TailscaleRust.Lib TailscaleRust.Core TailscaleRust.Core.Wg
open TailscaleRust.Firmware TailscaleRust.Firmware.Dataplane

/-! ## Where the entries come from -/

section Origins

variable (H : Host) (evs : List Input)

/-- The initiation was built for this peer, with the draws of an input of
the run. -/
def Built (peer : Key) (init : Arr initLen) (hs : Handshake) : Prop :=
  ∃ ev ∈ evs, ∃ tick pkt src env, ev.received? = some (tick, pkt, src, env) ∧
    buildInitiation H.crypto H.identity.nodePriv H.identity.nodePub peer
      (tai64n env.unixSecs env.unixNanos) env.index env.ephemeral = (init, hs)

/-- The handshake of the run that produced the tunnel authenticated this
peer: its static key is the one `consume_initiation` returned, or the one
the initiation was built for. -/
inductive Origin (peer : Key) (tun : Tunnel) : Prop
  | answered {ev : Input} {tick : UInt32} {pkt : Bytes} {src : SocketAddr} {env : Draws}
      {resp : Arr respLen} (hev : ev ∈ evs) (hrecv : ev.received? = some (tick, pkt, src, env))
      (hok : consumeInitiation H.crypto H.identity.nodePriv H.identity.nodePub pkt env.index
        env.ephemeral = .ok (resp, tun, peer))
  | initiated {ev : Input} {tick : UInt32} {pkt : Bytes} {src : SocketAddr} {env : Draws}
      {init : Arr initLen} {hs : Handshake} (hbuilt : Built H evs peer init hs) (hev : ev ∈ evs)
      (hrecv : ev.received? = some (tick, pkt, src, env))
      (hok : hs.consumeResponse H.crypto pkt = .ok tun)

/-- A tunnel as it was when the handshake produced it. -/
def TunnelOk (k : UInt32) (e : TunnelEntry) : Prop :=
  e.tun.ourIndex = k ∧ Origin H evs e.peerNode { e.tun with txCounter := 0 }

structure PendingOk (n : Key) (p : Pending) : Prop where
  hs : p.hs.ourIndex = p.ourIndex
  wire : u32le p.init.1 4 = p.ourIndex
  type : byteAt p.init.1 0 = msgInitiation
  built : Built H evs n p.init p.hs
  retries : p.retries ≤ maxHsRetries

structure TablesOk (st : State) : Prop where
  tunnels : ∀ k e, st.tunnels.get? k = some e → TunnelOk H evs k e
  pending : ∀ n p, st.pending.get? n = some p → PendingOk H evs n p

end Origins

section Tables

variable {H : Host} {evs : List Input} {s : NodeState} {ev : Input}

theorem Built.append {peer : Key} {init : Arr initLen} {hs : Handshake}
    (h : Built H evs peer init hs) (ev : Input) : Built H (evs ++ [ev]) peer init hs := by
  obtain ⟨ev', hev', h⟩ := h
  exact ⟨ev', List.mem_append_left _ hev', h⟩

theorem Origin.append {peer : Key} {tun : Tunnel} (h : Origin H evs peer tun) (ev : Input) :
    Origin H (evs ++ [ev]) peer tun := by
  cases h with
  | answered hev hrecv hok => exact .answered (List.mem_append_left _ hev) hrecv hok
  | initiated hbuilt hev hrecv hok =>
      exact .initiated (hbuilt.append ev) (List.mem_append_left _ hev) hrecv hok

theorem PendingOk.append {n : Key} {p : Pending} (h : PendingOk H evs n p) (ev : Input) :
    PendingOk H (evs ++ [ev]) n p :=
  { h with built := h.built.append ev }

theorem TablesOk.append {st : State} (h : TablesOk H evs st) (ev : Input) :
    TablesOk H (evs ++ [ev]) st where
  tunnels k e he := ⟨(h.tunnels k e he).1, (h.tunnels k e he).2.append ev⟩
  pending n p hp := (h.pending n p hp).append ev

theorem tunnelOk_of_linkPart {k : UInt32} {e e' : TunnelEntry} (heq : linkPart e' = linkPart e)
    (h : TunnelOk H evs k e) : TunnelOk H evs k e' := by
  have hindex : e'.tun.ourIndex = e.tun.ourIndex := congrArg (fun l => l.1.ourIndex) heq
  refine ⟨hindex.trans h.1, ?_⟩
  show Origin H evs (linkPart e').2 (linkPart e').1
  rw [heq]
  exact h.2

/-- Where the tunnels are with the same peers as before, all is as it was. -/
theorem tunnelsOk_of_linkPart {t t' : Table UInt32 TunnelEntry}
    (hsame : ∀ i, (t'.get? i).map linkPart = (t.get? i).map linkPart)
    (h : ∀ k e, t.get? k = some e → TunnelOk H evs k e) :
    ∀ k e, t'.get? k = some e → TunnelOk H evs k e := by
  intro k e' he'
  obtain ⟨e, he, heq⟩ := get?_of_linkPart hsame he'
  exact tunnelOk_of_linkPart heq (h k e he)

theorem tunnelsOk_insertTunnel {st : State} {i : UInt32} {tun : Tunnel} {src : SocketAddr}
    {peer : Key} (h : ∀ k e, st.tunnels.get? k = some e → TunnelOk H evs k e)
    (hnew : tun.ourIndex = i) (horigin : Origin H evs peer { tun with txCounter := 0 }) :
    ∀ k e, (insertTunnel st i tun src peer).tunnels.get? k = some e → TunnelOk H evs k e := by
  intro k e he
  rw [tunnels_insertTunnel] at he
  split at he
  · next hk =>
      cases he
      exact ⟨hnew.trans hk.symm, horigin⟩
  · exact h k e (Option.filter_eq_some_iff.mp he).1

/-- The slot a PONG fills. -/
theorem pendingOk_opening {tick : UInt32} {pkt : Bytes} {src : SocketAddr} {env : Draws}
    (hrecv : ev.received? = some (tick, pkt, src, env)) (tick' : UInt32) (peer : Key) :
    PendingOk H (evs ++ [ev]) peer (opening H env tick' peer src) := by
  obtain ⟨htype, hwire, hindex⟩ := buildInitiation_header H.crypto H.identity.nodePriv
    H.identity.nodePub peer (tai64n env.unixSecs env.unixNanos) env.index env.ephemeral
  exact
    { hs := hindex
      wire := hwire
      type := htype
      built := ⟨ev, List.mem_append_right _ (List.mem_singleton.mpr rfl), tick, pkt, src, env,
        hrecv, rfl⟩
      retries := by
        show (0 : UInt32) ≤ maxHsRetries
        decide }

theorem pendingOk_retry {n : Key} {tunnels : Table UInt32 TunnelEntry} {tick : UInt32}
    {p q : Pending} (h : PendingOk H evs n p) (hq : (retryPending tunnels tick p).1 = some q) :
    PendingOk H evs n q := by
  rcases retryPending_cases tunnels tick p with hdrop | hkeep | ⟨hlt, hsend⟩
  · rw [hdrop] at hq
    cases hq
  · rw [hkeep] at hq
    cases hq
    exact h
  · rw [hsend] at hq
    cases hq
    refine { hs := h.hs, wire := h.wire, type := h.type, built := h.built, retries := ?_ }
    have hmax : maxHsRetries.toNat = 4 := rfl
    rw [UInt32.lt_iff_toNat_lt] at hlt
    show p.retries + 1 ≤ maxHsRetries
    rw [UInt32.le_iff_toNat_le, UInt32.toNat_add]
    have hone : (1 : UInt32).toNat = 1 := rfl
    omega

theorem tablesOk_step (h : TablesOk H evs s.st) :
    TablesOk H (evs ++ [ev]) (H.step s ev).1.st := by
  have hkept := h.append ev
  have hlast : ev ∈ evs ++ [ev] := List.mem_append_right _ (List.mem_singleton.mpr rfl)
  cases ho : outcome H s ev with
  | quiet =>
      have hsteady := (step_quiet ho).steady
      refine ⟨tunnelsOk_of_linkPart hsteady.tunnels hkept.tunnels, fun n p hp => ?_⟩
      exact hkept.pending n p (hsteady.pending ▸ hp)
  | pong tick env sender src =>
      obtain ⟨⟨pkt, msg, hrecv, -⟩, htun, -, hpend, -⟩ := step_pong ho
      refine ⟨htun ▸ hkept.tunnels, fun n p hp => ?_⟩
      rw [hpend] at hp
      split at hp
      · exact hkept.pending n p hp
      · split at hp
        · rw [Table.get?_insert] at hp
          split at hp
          · next hn =>
              cases hp
              exact hn ▸ pendingOk_opening hrecv tick _
          · exact hkept.pending n p hp
        · exact hkept.pending n p hp
  | answer i resp tun peer src =>
      obtain ⟨⟨tick, pkt, env, hrecv, hi, hok⟩, hstep⟩ := step_answer ho
      obtain ⟨-, -, -, hindex, -, hzero⟩ := consumeInitiation_header hok
      rw [hstep]
      have horigin : Origin H (evs ++ [ev]) peer { tun with txCounter := 0 } := by
        rw [← hzero]
        exact .answered hlast hrecv (hi ▸ hok)
      exact ⟨tunnelsOk_insertTunnel hkept.tunnels hindex horigin, hkept.pending⟩
  | complete key p tun src =>
      obtain ⟨⟨tick, pkt, env, hrecv, hfind, hok⟩, hstep⟩ := step_complete ho
      have hp := hkept.pending key p (Table.find?_some hfind).1
      obtain ⟨-, hindex, hzero⟩ := consumeResponse_header hok
      rw [hstep]
      have horigin : Origin H (evs ++ [ev]) key { tun with txCounter := 0 } := by
        rw [← hzero]
        exact .initiated hp.built hlast hrecv hok
      refine ⟨tunnelsOk_insertTunnel hkept.tunnels (hindex.trans hp.hs) horigin, ?_⟩
      intro n q hq
      have hq' : (s.st.pending.erase key).get? n = some q := hq
      rw [Table.get?_erase] at hq'
      split at hq'
      · cases hq'
      · exact hkept.pending n q hq'
  | refuse key =>
      rw [(step_refuse ho).2]
      refine ⟨hkept.tunnels, fun n q hq => ?_⟩
      have hq' : (s.st.pending.erase key).get? n = some q := hq
      rw [Table.get?_erase] at hq'
      split at hq'
      · cases hq'
      · exact hkept.pending n q hq'
  | retry tick =>
      obtain ⟨⟨hpend, -, htun⟩, -⟩ := step_retry ho
      refine ⟨tunnelsOk_of_linkPart htun hkept.tunnels, fun n q hq => ?_⟩
      rw [hpend, get?_retryAll] at hq
      obtain ⟨p, hp, hq⟩ := Option.bind_eq_some_iff.mp hq
      exact pendingOk_retry (hkept.pending n p hp) hq

theorem tablesOk_fresh (h : Fresh s) : TablesOk H [] s.st where
  tunnels k e he := by
    rw [h.tunnels] at he
    cases he
  pending n p hp := by
    rw [h.pending] at hp
    cases hp

theorem tablesOk_run {s₀ : NodeState} (hfresh : Fresh s₀) (hrun : Run H.Steps s₀ evs s) :
    TablesOk H evs s.st :=
  hrun.history (P := fun evs s => TablesOk H evs s.st) (tablesOk_fresh hfresh)
    fun h hstep => hstep ▸ tablesOk_step h

end Tables

/-! ## How often a slot sends

The sends of a step are told apart by the slot they are made for, and
counted from the step that fills the slot for as long as it is there. -/

section Sends

variable (H : Host)

/-- The initiations a step sends for a peer's slot. -/
def slotSends (s : NodeState) (ev : Input) (n : Key) : List Datagram :=
  match outcome H s ev with
  | .pong tick env sender src =>
      match startTarget s.lp.targets s.st sender src with
      | none => []
      | some t =>
          if t.nodePub = n then [⟨src, (opening H env tick t.nodePub src).init.1⟩] else []
  | .retry tick => ((s.st.pending.get? n).map fun p => (retryPending s.st.tunnels tick p).2).getD []
  | _ => []

/-- The initiations among the datagrams a step sends. -/
def initiations (out : List Datagram) : List Datagram :=
  out.filter fun d => d.bytes.head? = some msgInitiation

/-- The count after a run: it goes on while the slot is there, and starts
again with the next one. -/
def sendTally (n : Key) : NodeState → Nat → List Input → Nat
  | _, c, [] => c
  | s, c, ev :: evs =>
      sendTally n (H.step s ev).1
        ((if s.st.pending.contains n then c else 0) + (slotSends H s ev n).length) evs

end Sends

section Sends

variable {H : Host} {evs : List Input} {s : NodeState} {ev : Input} {n : Key} {c : Nat}

/-- The count of a slot that is there is one more than its retries, and the
last count of one that is gone is within the bound. -/
def Tallied (n : Key) (st : State) (c : Nat) : Prop :=
  match st.pending.get? n with
  | some p => c = 1 + p.retries.toNat ∧ p.retries ≤ maxHsRetries
  | none => c ≤ 1 + maxHsRetries.toNat

theorem Tallied.le {st : State} (h : Tallied n st c) : c ≤ 1 + maxHsRetries.toNat := by
  rw [Tallied] at h
  split at h
  · have hle := UInt32.le_iff_toNat_le.mp h.2
    omega
  · exact h

/-- A step that neither sends for a slot nor touches it. -/
theorem tallied_same {st st' : State} (hpend : st'.pending.get? n = st.pending.get? n)
    (h : Tallied n st c) : Tallied n st' ((if st.pending.contains n then c else 0) + 0) := by
  rw [Tallied] at h ⊢
  rw [hpend]
  cases hp : st.pending.get? n with
  | none =>
      rw [Table.contains, hp]
      exact Nat.zero_le _
  | some p =>
      rw [hp] at h
      rw [Table.contains, hp]
      exact h

theorem tallied_erase {st st' : State} {key : Key} (hpend : st'.pending = st.pending.erase key)
    (h : Tallied n st c) : Tallied n st' ((if st.pending.contains n then c else 0) + 0) := by
  by_cases hn : n = key
  · rw [Tallied, hpend, Table.get?_erase, if_pos hn]
    have hle := h.le
    simp only []
    split
    · exact hle
    · exact Nat.zero_le _
  · refine tallied_same ?_ h
    rw [hpend, Table.get?_erase, if_neg hn]

theorem tallied_pong {tick : UInt32} {env : Draws} {sender : Key} {src : SocketAddr}
    (ho : outcome H s ev = .pong tick env sender src) (h : Tallied n s.st c) :
    Tallied n (H.step s ev).1.st
      ((if s.st.pending.contains n then c else 0) + (slotSends H s ev n).length) := by
  obtain ⟨-, -, -, hpend, -⟩ := step_pong ho
  rw [slotSends, ho]
  simp only []
  cases hstart : startTarget s.lp.targets s.st sender src with
  | none =>
      rw [hstart] at hpend
      exact tallied_same (by rw [hpend]) h
  | some t =>
      rw [hstart] at hpend
      simp only [] at hpend ⊢
      by_cases hn : t.nodePub = n
      · have hfree := (startTarget_some.mp hstart).slot
        rw [hn] at hfree
        rw [if_pos hn, hfree, if_neg Bool.false_ne_true, Tallied]
        split at hpend
        · rw [hpend, Table.get?_insert, if_pos hn.symm]
          exact ⟨rfl, by show (0 : UInt32) ≤ maxHsRetries; decide⟩
        · rw [hpend, Table.get?_eq_none_iff.mpr hfree]
          show 1 ≤ 1 + maxHsRetries.toNat
          omega
      · rw [if_neg hn]
        refine tallied_same ?_ h
        rw [hpend]
        split
        · rw [Table.get?_insert, if_neg (Ne.symm hn)]
        · rfl

theorem tallied_retry {tick : UInt32} (ho : outcome H s ev = .retry tick)
    (h : Tallied n s.st c) :
    Tallied n (H.step s ev).1.st
      ((if s.st.pending.contains n then c else 0) + (slotSends H s ev n).length) := by
  obtain ⟨⟨hpend, -, -⟩, -⟩ := step_retry ho
  have hget : (H.step s ev).1.st.pending.get? n =
      (s.st.pending.get? n).bind fun p => (retryPending s.st.tunnels tick p).1 := by
    rw [hpend, get?_retryAll]
  rw [slotSends, ho]
  cases hp : s.st.pending.get? n with
  | none =>
      rw [hp] at hget
      exact tallied_same (hget.trans hp.symm) h
  | some p =>
      rw [hp] at hget
      have hcontains : s.st.pending.contains n = true := by rw [Table.contains, hp]; rfl
      have hle := h.le
      rw [Tallied, hp] at h
      simp only [Option.bind_some] at hget
      simp only [hcontains, if_true, Option.map_some, Option.getD_some]
      rcases retryPending_cases s.st.tunnels tick p with hdrop | hkeep | ⟨hlt, hsend⟩
      · rw [hdrop] at hget ⊢
        rw [Tallied, hget]
        exact hle
      · rw [hkeep] at hget ⊢
        rw [Tallied, hget]
        exact h
      · rw [hsend] at hget ⊢
        rw [Tallied, hget]
        have hsucc : (p.retries + 1).toNat = p.retries.toNat + 1 := by
          have hlt' := UInt32.lt_iff_toNat_lt.mp hlt
          have hmax : maxHsRetries.toNat = 4 := rfl
          have hone : (1 : UInt32).toNat = 1 := rfl
          rw [UInt32.toNat_add]
          omega
        refine ⟨?_, ?_⟩
        · show c + 1 = 1 + (p.retries + 1).toNat
          rw [hsucc, h.1]
          omega
        · show p.retries + 1 ≤ maxHsRetries
          rw [UInt32.le_iff_toNat_le, hsucc]
          exact UInt32.lt_iff_toNat_lt.mp hlt

theorem tallied_step (h : Tallied n s.st c) :
    Tallied n (H.step s ev).1.st
      ((if s.st.pending.contains n then c else 0) + (slotSends H s ev n).length) := by
  cases ho : outcome H s ev with
  | pong tick env sender src => exact tallied_pong ho h
  | retry tick => exact tallied_retry ho h
  | quiet =>
      rw [slotSends, ho]
      exact tallied_same (by rw [(step_quiet ho).steady.pending]) h
  | answer i resp tun peer src =>
      rw [slotSends, ho, (step_answer ho).2]
      exact tallied_same rfl h
  | complete key p tun src =>
      rw [slotSends, ho, (step_complete ho).2]
      exact tallied_erase rfl h
  | refuse key =>
      rw [slotSends, ho, (step_refuse ho).2]
      exact tallied_erase rfl h

theorem tallied_run {s₀ : NodeState} (hrun : Run H.Steps s₀ evs s) {c : Nat}
    (h : Tallied n s₀.st c) : Tallied n s.st (sendTally H n s₀ c evs) := by
  induction hrun generalizing c with
  | nil => exact h
  | cons hstep _ ih =>
      rw [sendTally, hstep]
      exact ih (hstep ▸ tallied_step h)

theorem initiations_of_chatter {out : List Datagram} (key : Key)
    (h : ∀ d ∈ out, Chatter key d.bytes) : initiations out = [] := by
  refine List.filter_eq_nil_iff.mpr fun d hd => ?_
  rw [decide_eq_true_eq]
  exact (h d hd).notInit

theorem slotSends_retry {tick : UInt32} (ho : outcome H s ev = .retry tick) :
    (s.st.pending.entries.map Prod.fst).flatMap (slotSends H s ev) = (retryAll s.st tick).2 := by
  rw [retryAll, Table.values, List.flatMap_map, List.flatMap_map]
  refine List.flatMap_congr fun e he => ?_
  rw [slotSends, ho]
  simp only [Table.mem_entries_iff.mp he, Option.map_some, Option.getD_some]

theorem initiations_retryAll (h : TablesOk H evs s.st) (tick : UInt32) :
    initiations (retryAll s.st tick).2 = (retryAll s.st tick).2 := by
  refine List.filter_eq_self.mpr fun d hd => ?_
  obtain ⟨p, hp, hd⟩ := List.mem_flatMap.mp hd
  obtain ⟨⟨n, p'⟩, hmem, rfl⟩ := List.mem_map.mp hp
  have htype := (h.pending n p' (Table.mem_entries_iff.mp hmem)).type
  rcases retryPending_cases s.st.tunnels tick p' with hdrop | hkeep | ⟨-, hsend⟩
  · rw [hdrop] at hd
    cases hd
  · rw [hkeep] at hd
    cases hd
  · rw [hsend] at hd
    cases List.mem_singleton.mp hd
    rw [decide_eq_true_eq, head?_eq_byteAt (by rw [p'.init.2]; decide), htype]

/-- Only a PONG and the retries make a node send an initiation. -/
theorem initiations_silent
    (hpong : ∀ tick env sender src, outcome H s ev ≠ .pong tick env sender src)
    (hretry : ∀ tick, outcome H s ev ≠ .retry tick) :
    initiations (H.step s ev).2 = [] ∧ ∀ n, slotSends H s ev n = [] := by
  cases ho : outcome H s ev with
  | quiet =>
      refine ⟨initiations_of_chatter _ (step_quiet ho).sends, fun n => ?_⟩
      rw [slotSends, ho]
  | pong tick env sender src => exact absurd ho (hpong tick env sender src)
  | answer i resp tun peer src =>
      obtain ⟨⟨_, _, _, _, _, hok⟩, hstep⟩ := step_answer ho
      obtain ⟨htype, -⟩ := consumeInitiation_header hok
      refine ⟨?_, fun n => ?_⟩
      · rw [hstep]
        refine List.filter_eq_nil_iff.mpr fun d hd => ?_
        cases List.mem_singleton.mp hd
        rw [decide_eq_true_eq, head?_eq_byteAt (by rw [resp.2]; decide), htype]
        decide
      · rw [slotSends, ho]
  | complete key p tun src =>
      refine ⟨?_, fun n => ?_⟩
      · rw [(step_complete ho).2]
        refine initiations_of_chatter key fun d hd => ?_
        cases List.mem_singleton.mp hd
        exact chatter_of_transport (encrypt_head H.crypto tun [])
      · rw [slotSends, ho]
  | refuse key =>
      refine ⟨by rw [(step_refuse ho).2]; rfl, fun n => ?_⟩
      rw [slotSends, ho]
  | retry tick => exact absurd ho (hretry tick)

/-- What a PONG makes a node send is the initiation. -/
theorem initiations_pong {tick : UInt32} {env : Draws} {sender : Key} {src : SocketAddr}
    (ho : outcome H s ev = .pong tick env sender src) :
    initiations (H.step s ev).2 =
      match startTarget s.lp.targets s.st sender src with
      | none => []
      | some t => [⟨src, (opening H env tick t.nodePub src).init.1⟩] := by
  obtain ⟨-, -, -, -, hout⟩ := step_pong ho
  rw [hout]
  cases startTarget s.lp.targets s.st sender src with
  | none => rfl
  | some t =>
      obtain ⟨htype, -⟩ := buildInitiation_header H.crypto H.identity.nodePriv
        H.identity.nodePub t.nodePub (tai64n env.unixSecs env.unixNanos) env.index env.ephemeral
      refine List.filter_eq_self.mpr fun d hd => ?_
      cases List.mem_singleton.mp hd
      rw [decide_eq_true_eq,
        head?_eq_byteAt (by rw [(opening H env tick t.nodePub src).init.2]; decide)]
      exact congrArg some htype

/-- Every initiation a step sends is sent for one slot. -/
theorem initiations_eq (h : TablesOk H evs s.st) :
    ∃ keys : List Key, keys.Nodup ∧
      initiations (H.step s ev).2 = keys.flatMap (slotSends H s ev) ∧
      ∀ n, n ∉ keys → slotSends H s ev n = [] := by
  have hsilent : (∀ tick env sender src, outcome H s ev ≠ .pong tick env sender src) →
      (∀ tick, outcome H s ev ≠ .retry tick) → ∃ keys : List Key, keys.Nodup ∧
        initiations (H.step s ev).2 = keys.flatMap (slotSends H s ev) ∧
        ∀ n, n ∉ keys → slotSends H s ev n = [] := by
    intro hpong hretry
    obtain ⟨hout, hnone⟩ := initiations_silent hpong hretry
    exact ⟨[], List.nodup_nil, hout, fun n _ => hnone n⟩
  cases ho : outcome H s ev with
  | quiet =>
      exact hsilent (fun _ _ _ _ h => by cases ho.symm.trans h)
        (fun _ h => by cases ho.symm.trans h)
  | pong tick env sender src =>
      have hout := initiations_pong ho
      cases hstart : startTarget s.lp.targets s.st sender src with
      | none =>
          rw [hstart] at hout
          refine ⟨[], List.nodup_nil, hout, fun n _ => ?_⟩
          rw [slotSends, ho]
          simp only [hstart]
      | some t =>
          rw [hstart] at hout
          have hslot : ∀ n, slotSends H s ev n =
              if t.nodePub = n then [⟨src, (opening H env tick t.nodePub src).init.1⟩] else [] := by
            intro n
            rw [slotSends, ho]
            simp only [hstart]
          refine ⟨[t.nodePub], List.nodup_singleton _, ?_, fun n hn => ?_⟩
          · rw [hout, List.flatMap_singleton, hslot, if_pos rfl]
          · rw [hslot, if_neg fun heq => hn (List.mem_singleton.mpr heq.symm)]
  | answer i resp tun peer src =>
      exact hsilent (fun _ _ _ _ h => by cases ho.symm.trans h)
        (fun _ h => by cases ho.symm.trans h)
  | complete key p tun src =>
      exact hsilent (fun _ _ _ _ h => by cases ho.symm.trans h)
        (fun _ h => by cases ho.symm.trans h)
  | refuse key =>
      exact hsilent (fun _ _ _ _ h => by cases ho.symm.trans h)
        (fun _ h => by cases ho.symm.trans h)
  | retry tick =>
      obtain ⟨-, rest, hout, hrest⟩ := step_retry ho
      refine ⟨_, s.st.pending.nodup, ?_, fun n hn => ?_⟩
      · rw [slotSends_retry ho, hout, initiations, List.filter_append]
        have hnone : rest.filter _ = [] := initiations_of_chatter _ hrest
        rw [hnone, List.append_nil]
        exact initiations_retryAll h tick
      · rw [slotSends, ho]
        rw [Table.mem_keys_iff, Bool.not_eq_true] at hn
        simp only [Table.get?_eq_none_iff.mpr hn, Option.map_none, Option.getD_none]

end Sends

/-- Every state of every run. An entry of the tunnel table is kept under the
index its tunnel has, with the key that the handshake authenticated from
which the tunnel came; the four copies of a pending handshake's index agree,
its initiation was built for its peer, and it is not retried too often: the
slot sent at most one initiation more than the retries it may have, counting
every initiation the node sends. A response that selects a slot bears the
index `consume_response` will ask for. -/
theorem tables_consistent (H : Host) (s₀ s : NodeState) (evs : List Input) (hfresh : Fresh s₀)
    (hrun : Run H.Steps s₀ evs s) :
    (∀ k e, s.st.tunnels.get? k = some e → e.tun.ourIndex = k ∧
      Origin H evs e.peerNode { e.tun with txCounter := 0 }) ∧
    (∀ n p, s.st.pending.get? n = some p →
      p.hs.ourIndex = p.ourIndex ∧ u32le p.init.1 4 = p.ourIndex ∧
      byteAt p.init.1 0 = msgInitiation ∧ Built H evs n p.init p.hs ∧
      p.retries ≤ maxHsRetries) ∧
    (∀ n, sendTally H n s₀ 0 evs ≤ 1 + maxHsRetries.toNat) ∧
    (∀ ev, ∃ keys : List Key, keys.Nodup ∧
      initiations (H.step s ev).2 = keys.flatMap (slotSends H s ev) ∧
      ∀ n, n ∉ keys → slotSends H s ev n = []) ∧
    (∀ pkt n p, s.st.pending.find? (fun _ p => p.ourIndex = u32le pkt 8) = some (n, p) →
      u32le pkt 8 = p.hs.ourIndex) := by
  have hok := tablesOk_run hfresh hrun
  refine ⟨hok.tunnels, fun n p hp => ?_, fun n => ?_, fun ev => initiations_eq hok,
    fun pkt n p hfind => ?_⟩
  · have h := hok.pending n p hp
    exact ⟨h.hs, h.wire, h.type, h.built, h.retries⟩
  · have hzero : Tallied n s₀.st 0 := by
      rw [Tallied, hfresh.pending]
      exact Nat.zero_le _
    exact (tallied_run hrun hzero).le
  · obtain ⟨hp, hindex⟩ := Table.find?_some hfind
    rw [(hok.pending n p hp).hs]
    exact (of_decide_eq_true hindex).symm

/-! ## One node, run

The default build over the transparent crypto, with two peers it knows. A
key is one repeated byte, and a node is named by that byte. -/

def solo : Host where
  crypto := transparent
  features := defaultFeatures
  identity := duo.ident .left
  mdnsOurIp := Arr.zero 4
  mdnsPartnerIp := Arr.zero 4
  mdnsPartnerNode := Arr.zero 32

def soloStart : NodeState where
  st := State.empty
  lp :=
    { targets := [5, 7].map fun b =>
        { name := "peer", discoPub := byteKey b, nodePub := byteKey b, endpoints := []
          spray := false }
      strikes := Table.empty, lastProbe := 0, lastStun := 0, probeRound := 0 }

theorem solo_fresh : Fresh soloStart := ⟨rfl, rfl, rfl⟩

def lanAddr (host : UInt8) : SocketAddr := .v4 ⟨[10, 0, 0, host], rfl⟩ 41641

/-- A datagram from a host of the network; the node draws this index. -/
def arrives (pkt : Bytes) (host : UInt8) (index : UInt32) : Input :=
  .packet 0 pkt (lanAddr host) { zeroDraws with index := index, ephemeral := byteKey 11 }

/-- The initiation of a peer. -/
def initiationOf (peer : UInt8) : Bytes :=
  (buildInitiation transparent (byteKey peer) (byteKey peer) solo.identity.nodePub (Arr.zero 12)
    77 (byteKey 13)).1.1

/-- A PONG of a peer, to a transaction id of zeros. -/
def pongOf (peer : UInt8) : Bytes :=
  match Disco.sealPacket transparent (byteKey peer) (byteKey peer) solo.identity.discoPub
      (Disco.pongPlaintext (Arr.zero 12) (lanAddr 3)) (Arr.zero 24) with
  | .ok pkt => pkt
  | .error _ => []

/-- One handshake started, another one answered. -/
def startAndAnswer : List Input := [arrives (pongOf 5) 5 9, arrives (initiationOf 7) 7 4]

theorem tables_consistent_solo :
    ∃ s, Run solo.Steps soloStart startAndAnswer s ∧
      s.st.tunnels.contains 4 = true ∧ s.st.pending.contains (byteKey 5) = true ∧
      (∀ k e, s.st.tunnels.get? k = some e → e.tun.ourIndex = k ∧
        Origin solo startAndAnswer e.peerNode { e.tun with txCounter := 0 }) ∧
      sendTally solo (byteKey 5) soloStart 0 startAndAnswer ≤ 5 := by
  have hrun := solo.run_after soloStart startAndAnswer
  obtain ⟨htun, -, hsends, -⟩ := tables_consistent solo soloStart _ startAndAnswer solo_fresh hrun
  exact ⟨_, hrun, by decide +kernel, by decide +kernel, htun, hsends (byteKey 5)⟩

end TailscaleRust.Proofs
