import TailscaleRust.Proofs.Pacing

/-!
# Runs that are a number of passes apart

Two runs that handle the same datagrams, one of them with some passes more,
are the same as far as handshakes go, if the counts of every pending slot are
moved by the number of these passes. The tunnels agree on who they are with,
under which keys and at which address; what the passes have sent through them
does not matter here.

An additional pass moves the counts of the passes to come. It may not come
while a handshake is pending: it would leave the count of the slot behind.
-/

namespace TailscaleRust.Proofs

open TailscaleRust.Lib TailscaleRust.Core TailscaleRust.Core.Wg
open TailscaleRust.Firmware TailscaleRust.Firmware.Dataplane

/-! ## The relation -/

/-- A handshake sent so many passes later. -/
def sentLater (k : UInt32) (p : Pending) : Pending := { p with sentTick := p.sentTick + k }

/-- Who a tunnel is with, and where. -/
def pathPart (e : TunnelEntry) : (Tunnel × Key) × SocketAddr := (linkPart e, e.addr)

structure Mirrors (k : UInt32) (s s' : NodeState) : Prop where
  targets : s'.lp.targets = s.lp.targets
  pending : s'.st.pending = s.st.pending.mapValues (sentLater k)
  paths : ∀ i, (s'.st.tunnels.get? i).map pathPart = (s.st.tunnels.get? i).map pathPart

/-- The same of the loops: their counts are apart by as much. -/
structure LoopMirrors (k : UInt32) (s s' : LoopState) : Prop where
  node : Mirrors k s.node s'.node
  tick : s'.tick = s.tick + k
  shtick : s'.shtick = s.shtick + k

section Paths

variable {t t' : Table UInt32 TunnelEntry}

theorem paths_iff : (∀ i, (t'.get? i).map pathPart = (t.get? i).map pathPart) ↔
    (∀ i, (t'.get? i).map linkPart = (t.get? i).map linkPart) ∧
    ∀ i, (t'.get? i).map TunnelEntry.addr = (t.get? i).map TunnelEntry.addr := by
  refine ⟨?_, ?_⟩
  · intro h
    refine ⟨fun i => ?_, fun i => ?_⟩
    · have hi := congrArg (Option.map Prod.fst) (h i)
      rwa [Option.map_map, Option.map_map] at hi
    · have hi := congrArg (Option.map Prod.snd) (h i)
      rwa [Option.map_map, Option.map_map] at hi
  · rintro ⟨hlink, haddr⟩ i
    have hlink := hlink i
    have haddr := haddr i
    cases ht : t.get? i with
    | none =>
        rw [ht] at hlink
        rw [Option.map_eq_none_iff.mp hlink]
    | some e =>
        rw [ht] at hlink haddr
        obtain ⟨e', he', hpart⟩ := Option.map_eq_some_iff.mp hlink
        rw [he'] at haddr ⊢
        exact congrArg some (Prod.ext hpart (Option.some.inj haddr))

theorem any_addr_of_paths (h : ∀ i, (t'.get? i).map pathPart = (t.get? i).map pathPart)
    (a : SocketAddr) :
    t'.values.any (fun e => e.addr = a) = t.values.any fun e => e.addr = a := by
  have hdir : ∀ t t' : Table UInt32 TunnelEntry,
      (∀ i, (t'.get? i).map pathPart = (t.get? i).map pathPart) →
      t'.values.any (fun e => e.addr = a) = true → t.values.any (fun e => e.addr = a) = true := by
    intro t t' h hany
    obtain ⟨i, e', he', ha⟩ := Table.any_values_iff.mp hany
    have hi := (paths_iff.mp h).2 i
    rw [he'] at hi
    obtain ⟨e, he, heq⟩ := Option.map_eq_some_iff.mp hi.symm
    rw [← of_decide_eq_true ha]
    exact Table.any_values_iff.mpr ⟨i, e, he, decide_eq_true heq⟩
  exact Bool.eq_iff_iff.mpr ⟨hdir t t' h, hdir t' t fun i => (h i).symm⟩

/-- A tunnel is inserted in both. -/
theorem paths_insertTunnel {st st' : State}
    (h : ∀ i, (st'.tunnels.get? i).map pathPart = (st.tunnels.get? i).map pathPart)
    (i : UInt32) (tun : Tunnel) (addr : SocketAddr) (peer : Key) (j : UInt32) :
    ((insertTunnel st' i tun addr peer).tunnels.get? j).map pathPart =
      ((insertTunnel st i tun addr peer).tunnels.get? j).map pathPart := by
  rw [tunnels_insertTunnel, tunnels_insertTunnel]
  split
  · rfl
  · have hj := h j
    cases hget : st.tunnels.get? j with
    | none =>
        rw [hget] at hj
        rw [Option.map_eq_none_iff.mp hj]
    | some e =>
        rw [hget] at hj
        obtain ⟨e', he', hpart⟩ := Option.map_eq_some_iff.mp hj
        have haddr : e'.addr = e.addr := congrArg Prod.snd hpart
        rw [he', Option.filter_some, Option.filter_some, haddr]
        split
        · exact congrArg some hpart
        · rfl

end Paths

/-! ## One datagram in both -/

section Datagram

variable {H : Host} {k : UInt32} {s s' : NodeState}

theorem startTarget_mirrors (h : Mirrors k s s') (sender : Key) (src : SocketAddr) :
    startTarget s'.lp.targets s'.st sender src = startTarget s.lp.targets s.st sender src := by
  have hslot : ∀ n, s'.st.pending.contains n = s.st.pending.contains n := by
    intro n
    rw [h.pending, Table.contains, Table.get?_mapValues, Option.isSome_map, Table.contains]
  have hsize : s'.st.tunnels.size = s.st.tunnels.size :=
    Table.size_eq_of_contains (contains_of_linkPart (paths_iff.mp h.paths).1)
  rw [startTarget, startTarget, h.targets, any_addr_of_paths h.paths, hsize,
    Table.size_eq_of_contains hslot]
  simp only [hslot]

theorem opensAt_mirrors (h : Mirrors k s s') (pkt : Bytes) :
    opensAt H.crypto s'.st pkt = opensAt H.crypto s.st pkt := by
  have hi := (paths_iff.mp h.paths).1 (u32le pkt 4)
  have hkey := congrArg (Option.map fun l : Tunnel × Key => l.1.recvKey) hi
  have hboth : ∀ st : State, opensAt H.crypto st pkt =
      ((st.tunnels.get? (u32le pkt 4)).map fun e => e.tun.recvKey).any fun key =>
        (decryptTransport H.crypto key pkt).isSome := by
    intro st
    rw [opensAt, Option.any_map]
  rw [Option.map_map, Option.map_map] at hkey
  rw [hboth, hboth]
  exact congrArg _ hkey

/-- A PONG opens the same handshake, so many passes later. -/
theorem pending_pong_mirrors (h : Mirrors k s s') {ev ev' : Input} {tick : UInt32} {env : Draws}
    {sender : Key} {src : SocketAddr} (ho : outcome H s ev = .pong tick env sender src)
    (ho' : outcome H s' ev' = .pong (tick + k) env sender src) :
    (H.step s' ev').1.st.pending = (H.step s ev).1.st.pending.mapValues (sentLater k) := by
  obtain ⟨-, -, -, hpend, -⟩ := step_pong ho
  obtain ⟨-, -, -, hpend', -⟩ := step_pong ho'
  rw [hpend, hpend', startTarget_mirrors h]
  cases startTarget s.lp.targets s.st sender src with
  | none => exact h.pending
  | some t =>
      simp only []
      split
      · rw [← Table.insert_mapValues, h.pending]
        rfl
      · exact h.pending

/-- The outcome of the same datagram in the other run. -/
def laterOutcome (k : UInt32) : Outcome → Outcome
  | .pong tick env sender src => .pong (tick + k) env sender src
  | .complete key p tun src => .complete key (sentLater k p) tun src
  | .quiet => .quiet
  | .answer index resp tun peer src => .answer index resp tun peer src
  | .refuse key => .refuse key
  | .retry tick => .retry (tick + k)

theorem received_mirrors (h : Mirrors k s s') (tick : UInt32) (pkt : Bytes) (src : SocketAddr)
    (env : Draws) :
    received H s' (tick + k) pkt src env = laterOutcome k (received H s tick pkt src env) := by
  have hfind : s'.st.pending.find? (fun _ p => p.ourIndex = u32le pkt 8) =
      (s.st.pending.find? fun _ p => p.ourIndex = u32le pkt 8).map fun e =>
        (e.1, sentLater k e.2) := by
    rw [h.pending, Table.find?_mapValues]
    rfl
  rw [received, received, hfind]
  split
  · split
    · rfl
    · split
      · rfl
      · rfl
  · split
    · rfl
    · split
      · split
        · rfl
        · rfl
      · split
        · cases s.st.pending.find? fun _ p => p.ourIndex = u32le pkt 8 with
          | none => rfl
          | some slot =>
              obtain ⟨key, p⟩ := slot
              have hsame : (sentLater k p).hs = p.hs := rfl
              simp only [Option.map_some, hsame]
              cases p.hs.consumeResponse H.crypto pkt with
              | error e => rfl
              | ok tun => rfl
        · rfl

end Datagram

section Steps

variable {H : Host} {k : UInt32} {s s' : LoopState}

theorem outcome_mirrors (h : LoopMirrors k s s') (e : LoopEvent) :
    outcome H s'.node (s'.input e) = laterOutcome k (outcome H s.node (s.input e)) := by
  cases e with
  | pass hk stunAddr payloads => exact congrArg Outcome.retry h.tick
  | datagram time dualcore pkt src env =>
      have hreceived := received_mirrors (H := H) h.node s.shtick pkt src env
      rw [← h.shtick] at hreceived
      cases dualcore with
      | false => exact hreceived
      | true => exact hreceived

theorem roams_mirrors (h : LoopMirrors k s s') (e : LoopEvent) :
    roams H s'.node (s'.input e) = roams H s.node (s.input e) := by
  cases e with
  | pass hk stunAddr payloads => rfl
  | datagram time dualcore pkt src env =>
      have hopens := opensAt_mirrors (H := H) h.node pkt
      cases dualcore with
      | false =>
          show (if opensAt H.crypto s'.node.st pkt ∧ _ then _ else _) = _
          rw [hopens]
          rfl
      | true =>
          show (if opensAt H.crypto s'.node.st pkt then _ else _) = _
          rw [hopens]
          rfl

/-- A step that adds no tunnel moves the same one in both. -/
theorem addrAt_mirrors (h : LoopMirrors k s s') (e : LoopEvent)
    (hinst : installed H s.node (s.input e) = none)
    (hinst' : installed H s'.node (s'.input e) = none) (i : UInt32) :
    addrAt (H.step s'.node (s'.input e)).1.st i = addrAt (H.step s.node (s.input e)).1.st i := by
  have hbefore : addrAt s'.node.st i = addrAt s.node.st i := (paths_iff.mp h.node.paths).2 i
  cases hroams : roams H s.node (s.input e) with
  | none =>
      rw [addrAt_step_none ((roams_mirrors h e).trans hroams) hinst',
        addrAt_step_none hroams hinst, hbefore]
  | some r =>
      cases e with
      | pass hk stunAddr payloads => cases hroams
      | datagram time dualcore pkt src env =>
          obtain ⟨tick, pkt', env', hev, -, hopen⟩ := roams_received hroams
          have hin := received_input s time dualcore pkt src env
          have hin' := received_input s' time dualcore pkt src env
          rw [hev] at hin
          cases hin
          have hhead := (head_of_opensAt hopen).1
          rw [addrAt_step_transport hin' hhead, addrAt_step_transport hev hhead,
            roams_mirrors h, hbefore]

/-- The same datagram in both. -/
theorem mirrors_datagram (h : LoopMirrors k s s') (time : Nat) (dualcore : Bool) (pkt : Bytes)
    (src : SocketAddr) (env : Draws) :
    Mirrors k (H.step s.node (s.input (.datagram time dualcore pkt src env))).1
      (H.step s'.node (s'.input (.datagram time dualcore pkt src env))).1 := by
  have ho' := outcome_mirrors (H := H) h (.datagram time dualcore pkt src env)
  have haddr := addrAt_mirrors (H := H) h (.datagram time dualcore pkt src env)
  have htargets : ∀ s : LoopState,
      (H.step s.node (s.input (.datagram time dualcore pkt src env))).1.lp.targets =
        s.node.lp.targets := by
    intro s
    rw [targets_step (show H.Steps s.node _ _ from rfl)]
    cases dualcore with
    | false => rfl
    | true => rfl
  have hboth := (htargets s').trans (h.node.targets.trans (htargets s).symm)
  have hlinks := (paths_iff.mp h.node.paths).1
  cases ho : outcome H s.node (s.input (.datagram time dualcore pkt src env)) with
  | quiet =>
      rw [ho] at ho'
      refine ⟨hboth, ?_, paths_iff.mpr ⟨fun i => ?_, haddr ?_ ?_⟩⟩
      · rw [(step_quiet ho').steady.pending, (step_quiet ho).steady.pending, h.node.pending]
      · exact ((step_quiet ho').steady.tunnels i).trans
          ((hlinks i).trans ((step_quiet ho).steady.tunnels i).symm)
      · rw [installed, ho]
      · rw [installed, ho']
        rfl
  | pong tick env sender src =>
      rw [ho] at ho'
      refine ⟨hboth, pending_pong_mirrors h.node ho ho', ?_⟩
      rw [(step_pong ho).2.1, (step_pong ho').2.1]
      exact h.node.paths
  | answer i resp tun peer src =>
      rw [ho] at ho'
      rw [(step_answer ho).2, (step_answer ho').2]
      exact ⟨h.node.targets, h.node.pending, paths_insertTunnel h.node.paths i tun src peer⟩
  | complete key p tun src =>
      rw [ho] at ho'
      rw [(step_complete ho).2, (step_complete ho').2]
      refine ⟨h.node.targets, ?_, ?_⟩
      · show s'.node.st.pending.erase key = (s.node.st.pending.erase key).mapValues _
        rw [h.node.pending, Table.erase_mapValues]
      · refine paths_insertTunnel ?_ _ _ src key
        exact h.node.paths
  | refuse key =>
      rw [ho] at ho'
      rw [(step_refuse ho).2, (step_refuse ho').2]
      refine ⟨h.node.targets, ?_, h.node.paths⟩
      show s'.node.st.pending.erase key = (s.node.st.pending.erase key).mapValues _
      rw [h.node.pending, Table.erase_mapValues]
  | retry tick =>
      cases dualcore with
      | false => exact absurd ho (received_ne_retry _ _ _ _ tick)
      | true => exact absurd ho (received_ne_retry _ _ _ _ tick)

/-! ## Passes -/

theorem targets_pass (s : LoopState) (hk : Housekeeping) (stunAddr : Option SocketAddr)
    (payloads : List Bytes) :
    (H.loopStep s (.pass hk stunAddr payloads)).1.node.lp.targets =
      hk.incoming.foldl mergeTarget s.node.lp.targets :=
  targets_step (show H.Steps s.node (.periodic s.tick hk stunAddr) _ from rfl)

/-- A pass moves no tunnel. -/
theorem paths_pass (s : LoopState) (hk : Housekeeping) (stunAddr : Option SocketAddr)
    (payloads : List Bytes) (i : UInt32) :
    ((H.loopStep s (.pass hk stunAddr payloads)).1.node.st.tunnels.get? i).map pathPart =
      (s.node.st.tunnels.get? i).map pathPart := by
  have hretry := step_retry (show outcome H s.node (.periodic s.tick hk stunAddr) = _ from rfl)
  have hdrain := step_quiet (show outcome H (H.step s.node (.periodic s.tick hk stunAddr)).1
    (.drain payloads) = .quiet from rfl)
  refine paths_iff.mpr ⟨fun i => ?_, fun i => ?_⟩ i
  · exact (hdrain.steady.tunnels i).trans (hretry.1.2.2 i)
  · have hfirst : addrAt (H.step s.node (.periodic s.tick hk stunAddr)).1.st i =
        addrAt s.node.st i := addrAt_step_none rfl rfl i
    have hthen : addrAt (H.step (H.step s.node (.periodic s.tick hk stunAddr)).1
        (.drain payloads)).1.st i =
        addrAt (H.step s.node (.periodic s.tick hk stunAddr)).1.st i := addrAt_step_none rfl rfl i
    exact hthen.trans hfirst

/-- Two counts that are moved by as much are as far apart. -/
theorem sub_later (tick sent k : UInt32) : tick + k - (sent + k) = tick - sent := by
  calc tick + k - (sent + k)
      = tick - sent + sent + k - (sent + k) := by rw [UInt32.sub_add_cancel]
    _ = tick - sent := by rw [UInt32.add_assoc, UInt32.add_sub_cancel]

theorem retryPending_later {t t' : Table UInt32 TunnelEntry}
    (h : ∀ i, (t'.get? i).map pathPart = (t.get? i).map pathPart) (tick : UInt32) (p : Pending) :
    retryPending t' (tick + k) (sentLater k p) =
      ((retryPending t tick p).1.map (sentLater k), (retryPending t tick p).2) := by
  rw [retryPending, retryPending]
  show (if t'.values.any (fun e => e.addr = p.addr) then _
    else if tick + k - (p.sentTick + k) > pendingTimeoutTicks then
      (if p.retries ≥ maxHsRetries then _ else _) else _) = _
  rw [any_addr_of_paths h, sub_later]
  split
  · rfl
  · split
    · split
      · rfl
      · rfl
    · rfl

/-- A pass in both, at whatever time and with whatever draws. -/
theorem mirrors_pass (h : LoopMirrors k s s') {hk hk' : Housekeeping}
    (hin : hk'.incoming = hk.incoming) (stunAddr stunAddr' : Option SocketAddr)
    (payloads payloads' : List Bytes) :
    LoopMirrors k (H.loopStep s (.pass hk stunAddr payloads)).1
      (H.loopStep s' (.pass hk' stunAddr' payloads')).1 where
  node := by
    refine ⟨?_, ?_, fun i => ?_⟩
    · rw [targets_pass, targets_pass, hin, h.node.targets]
    · have hretry : ∀ (st : State) tick, (retryAll st tick).1.pending =
          st.pending.filterMap fun _ p => (retryPending st.tunnels tick p).1 := fun _ _ => rfl
      rw [pending_pass, pending_pass, hretry, hretry, h.node.pending, h.tick,
        Table.filterMap_mapValues, Table.mapValues_filterMap]
      congr 1
      funext n p
      rw [retryPending_later h.node.paths]
    · rw [paths_pass, paths_pass]
      exact h.node.paths i
  tick := by
    show s'.tick + 1 = s.tick + 1 + k
    rw [h.tick, UInt32.add_assoc, UInt32.add_comm k 1, UInt32.add_assoc]
  shtick := h.tick

theorem Mirrors.trans {j k : UInt32} {a b c : NodeState} (h : Mirrors j a b)
    (h' : Mirrors k b c) : Mirrors (j + k) a c where
  targets := h'.targets.trans h.targets
  pending := by
    rw [h'.pending, h.pending, Table.mapValues_mapValues]
    congr 1
    funext p
    rw [sentLater, sentLater, sentLater, UInt32.add_assoc]
  paths i := (h'.paths i).trans (h.paths i)

/-- Where nothing is pending, any number of passes will do. -/
theorem mirrors_of_empty {a b : NodeState} (ha : a.st.pending = Table.empty)
    (hb : b.st.pending = Table.empty) (htargets : b.lp.targets = a.lp.targets)
    (hpaths : ∀ i, (b.st.tunnels.get? i).map pathPart = (a.st.tunnels.get? i).map pathPart)
    (j : UInt32) : Mirrors j a b := by
  refine ⟨htargets, ?_, hpaths⟩
  rw [ha, hb]
  rfl

theorem retryOf_mirrors (h : LoopMirrors k s s') (n : Key) {hk hk' : Housekeeping}
    (stunAddr stunAddr' : Option SocketAddr) (payloads payloads' : List Bytes) :
    retryOf H n s' (.pass hk' stunAddr' payloads') =
      retryOf H n s (.pass hk stunAddr payloads) := by
  have hget : s'.node.st.pending.get? n = (s.node.st.pending.get? n).map (sentLater k) := by
    rw [h.node.pending, Table.get?_mapValues]
  cases hp : s.node.st.pending.get? n with
  | none =>
      rw [hp] at hget
      rw [retryOf, retryOf, hp, hget]
      rfl
  | some p =>
      rw [hp] at hget
      have hdiff : s'.tick - (sentLater k p).sentTick = s.tick - p.sentTick := by
        rw [h.tick]
        exact sub_later s.tick p.sentTick k
      rw [retryOf_pass hget, retryOf_pass hp, hdiff, any_addr_of_paths h.node.paths]
      rfl

end Steps

/-! ## Runs -/

section Runs

variable (H : Host)

/-- An additional event that does nothing to a handshake: a datagram that is
ignored, or another pass while none is pending and no target comes. -/
def Idle (s : LoopState) (e : LoopEvent) : Prop :=
  match e with
  | .pass hk _ _ =>
      s.node.st.pending = Table.empty ∧ hk.incoming = [] ∧ s.shtick + 1 = s.tick
  | .datagram .. => H.loopStep s e = (s, [])

/-- Two runs with the same datagrams and the same passes, apart from what is
idle. Passes with nothing pending may come at other times. -/
inductive Alike : LoopState → LoopState → List LoopEvent → List LoopEvent → Prop
  | nil {s s' : LoopState} : Alike s s' [] []
  | datagram {s s' : LoopState} {es es' : List LoopEvent} {e : LoopEvent}
      (hdatagram : e.isPass = false)
      (rest : Alike (H.loopStep s e).1 (H.loopStep s' e).1 es es') :
      Alike s s' (e :: es) (e :: es')
  | pass {s s' : LoopState} {es es' : List LoopEvent} {hk hk' : Housekeeping}
      {stunAddr stunAddr' : Option SocketAddr} {payloads payloads' : List Bytes}
      (hin : hk'.incoming = hk.incoming)
      (htime : s.node.st.pending = Table.empty ∨ hk'.now = hk.now)
      (rest : Alike (H.loopStep s (.pass hk stunAddr payloads)).1
        (H.loopStep s' (.pass hk' stunAddr' payloads')).1 es es') :
      Alike s s' (.pass hk stunAddr payloads :: es) (.pass hk' stunAddr' payloads' :: es')
  | left {s s' : LoopState} {es es' : List LoopEvent} {e : LoopEvent} (hidle : Idle H s e)
      (rest : Alike (H.loopStep s e).1 s' es es') : Alike s s' (e :: es) es'
  | right {s s' : LoopState} {es es' : List LoopEvent} {e : LoopEvent} (hidle : Idle H s' e)
      (rest : Alike s (H.loopStep s' e).1 es es') : Alike s s' es (e :: es')

end Runs

section Runs

variable {H : Host} {n : Key} {k : UInt32} {s s' : LoopState}

theorem retryOf_idle {e : LoopEvent} (h : Idle H s e) : retryOf H n s e = none := by
  cases e with
  | pass hk stunAddr payloads =>
      rw [retryOf, h.1]
      rfl
  | datagram time dualcore pkt src env => exact retryOf_datagram s time dualcore pkt src env

theorem LoopMirrors.trans {j : UInt32} {a b c : LoopState} (h : LoopMirrors j a b)
    (h' : LoopMirrors k b c) : LoopMirrors (j + k) a c where
  node := h.node.trans h'.node
  tick := by rw [h'.tick, h.tick, UInt32.add_assoc]
  shtick := by rw [h'.shtick, h.shtick, UInt32.add_assoc]

/-- An idle pass is one pass in which nothing happens. -/
theorem idle_pass_mirrors {hk : Housekeeping} {stunAddr : Option SocketAddr}
    {payloads : List Bytes} (h : Idle H s (.pass hk stunAddr payloads)) :
    LoopMirrors 1 s (H.loopStep s (.pass hk stunAddr payloads)).1 ∧
    LoopMirrors (-1) (H.loopStep s (.pass hk stunAddr payloads)).1 s := by
  obtain ⟨hempty, hin, hcount⟩ := h
  have htargets : (H.loopStep s (.pass hk stunAddr payloads)).1.node.lp.targets =
      s.node.lp.targets := by
    rw [targets_pass, hin]
    rfl
  have hafter : (H.loopStep s (.pass hk stunAddr payloads)).1.node.st.pending = Table.empty := by
    rw [pending_pass, retryAll, hempty]
    rfl
  have hpaths := paths_pass (H := H) s hk stunAddr payloads
  have hback : ∀ t : UInt32, t = t + 1 + -1 := by
    intro t
    rw [UInt32.add_assoc]
    exact (UInt32.add_zero t).symm
  refine ⟨⟨mirrors_of_empty hempty hafter htargets hpaths 1, rfl, hcount.symm⟩,
    ⟨mirrors_of_empty hafter hempty htargets.symm (fun i => (hpaths i).symm) (-1), ?_, ?_⟩⟩
  · exact hback s.tick
  · show s.shtick = s.tick + -1
    rw [← hcount]
    exact hback s.shtick

theorem idle_left (h : LoopMirrors k s s') {e : LoopEvent} (hidle : Idle H s e) :
    ∃ j, LoopMirrors j (H.loopStep s e).1 s' := by
  cases e with
  | pass hk stunAddr payloads => exact ⟨-1 + k, (idle_pass_mirrors hidle).2.trans h⟩
  | datagram time dualcore pkt src env => exact ⟨k, by rw [hidle]; exact h⟩

theorem idle_right (h : LoopMirrors k s s') {e : LoopEvent} (hidle : Idle H s' e) :
    ∃ j, LoopMirrors j s (H.loopStep s' e).1 := by
  cases e with
  | pass hk stunAddr payloads => exact ⟨k + 1, h.trans (idle_pass_mirrors hidle).1⟩
  | datagram time dualcore pkt src env => exact ⟨k, by rw [hidle]; exact h⟩

theorem mirrors_loopDatagram (h : LoopMirrors k s s') {e : LoopEvent} (he : e.isPass = false) :
    LoopMirrors k (H.loopStep s e).1 (H.loopStep s' e).1 := by
  cases e with
  | pass hk stunAddr payloads => cases he
  | datagram time dualcore pkt src env =>
      exact ⟨mirrors_datagram h time dualcore pkt src env, h.tick, h.shtick⟩

/-- Runs that are alike retry the same slots at the same times. -/
theorem retryLog_alike {es es' : List LoopEvent} (halike : Alike H s s' es es')
    (h : LoopMirrors k s s') : retryLog H n s es = retryLog H n s' es' := by
  induction halike generalizing k with
  | nil => rfl
  | @datagram s s' es es' e hdatagram _ ih =>
      rw [retryLog, retryLog, ih (mirrors_loopDatagram h hdatagram)]
      cases e with
      | pass hk stunAddr payloads => cases hdatagram
      | datagram time dualcore pkt src env => rw [retryOf_datagram, retryOf_datagram]
  | @pass s s' es es' hk hk' stunAddr stunAddr' payloads payloads' hin htime _ ih =>
      rw [retryLog, retryLog, ih (mirrors_pass h hin stunAddr stunAddr' payloads payloads'),
        retryOf_mirrors h n stunAddr stunAddr' payloads payloads']
      rcases htime with hempty | hnow
      · have hnone : retryOf H n s (.pass hk stunAddr payloads) = none := by
          rw [retryOf, hempty]
          rfl
        rw [hnone]
        rfl
      · have htimes : LoopEvent.time (.pass hk' stunAddr' payloads') =
            LoopEvent.time (.pass hk stunAddr payloads) := hnow
        rw [htimes]
  | left hidle _ ih =>
      obtain ⟨j, hj⟩ := idle_left h hidle
      rw [retryLog, retryOf_idle hidle, ih hj]
      rfl
  | right hidle _ ih =>
      obtain ⟨j, hj⟩ := idle_right h hidle
      rw [ih hj]
      symm
      rw [retryLog, retryOf_idle hidle]
      rfl

end Runs

/-- In every run of either loop from a start without handshakes: while the loop
makes fewer than four passes in three seconds, a pending handshake is sent
again or given up only three seconds after it was last sent; and runs that
differ in datagrams that are ignored retry the same handshakes at the same
times, if these make no pass while one is pending. -/
theorem retries_paced_while_slow (H : Host) (node : NodeState) (n : Key) (h : Fresh node) :
    (∀ es, SlowWhilePending H n (.start node) es → Paced H n (.start node) es) ∧
    ∀ es es', Alike H (.start node) (.start node) es es' →
      retryLog H n (.start node) es = retryLog H n (.start node) es' := by
  refine ⟨fun es hslow => paced_of_slow h hslow, fun es es' halike => ?_⟩
  have hnode : Mirrors 0 node node :=
    mirrors_of_empty h.pending h.pending rfl (fun _ => rfl) 0
  exact retryLog_alike halike ⟨hnode, rfl, rfl⟩

/-! ## Runs in silence, and with datagrams -/

def passAt (now : Nat) : LoopEvent := .pass { probeDue with now := now } none []

def pongAt (now : Nat) (dualcore : Bool) : LoopEvent :=
  .datagram now dualcore (pongOf 5) (lanAddr 5)
    { zeroDraws with index := 9, ephemeral := byteKey 11 }

/-- A datagram that is no message. -/
def strayAt (now : Nat) (dualcore : Bool) : LoopEvent :=
  .datagram now dualcore [0] (lanAddr 6) zeroDraws

/-- The read of the one core times out after a second. -/
def silentLoop : List LoopEvent :=
  [passAt 0, pongAt 1 false, passAt 2, passAt 1002, passAt 2002, passAt 3002]

def busyLoop : List LoopEvent :=
  [passAt 0, pongAt 1 false, passAt 2, strayAt 3 false, passAt 4, strayAt 5 false, passAt 6,
    strayAt 7 false, passAt 8]

/-- With two cores it times out after 100 ms. -/
def silentDual : List LoopEvent :=
  [passAt 0, pongAt 1 true, passAt 2, passAt 102, passAt 202, passAt 302]

/-- The other core reads the datagrams that come while the handshake is
pending. -/
def busyDual : List LoopEvent :=
  [passAt 0, strayAt 0 true, passAt 0, pongAt 1 true, passAt 2, strayAt 3 true, strayAt 4 true,
    passAt 102, passAt 202, passAt 302]

theorem silentLoop_log :
    retryLog solo (byteKey 5) (.start soloStart) silentLoop = [(3002, .resent)] := by
  decide +kernel

theorem busyLoop_log :
    retryLog solo (byteKey 5) (.start soloStart) busyLoop = [(8, .resent)] := by
  decide +kernel

theorem silentDual_log :
    retryLog solo (byteKey 5) (.start soloStart) silentDual = [(302, .resent)] := by
  decide +kernel

theorem strayAt_ignored (s : LoopState) (now : Nat) (dualcore : Bool) :
    solo.loopStep s (strayAt now dualcore) = (s, []) := by
  cases dualcore with
  | false => rfl
  | true => rfl

theorem silentDual_alike_busyDual :
    Alike solo (.start soloStart) (.start soloStart) silentDual busyDual := by
  refine .pass rfl (.inl rfl) (.right (strayAt_ignored _ 0 true) (.right ⟨rfl, rfl, rfl⟩ ?_))
  refine .datagram rfl (.pass rfl (.inr rfl) ?_)
  refine .right (strayAt_ignored _ 3 true) (.right (strayAt_ignored _ 4 true) ?_)
  exact .pass rfl (.inr rfl) (.pass rfl (.inr rfl) (.pass rfl (.inr rfl) .nil))

theorem silent_retry_is_paced :
    spaced silentLoop = true ∧ Paced solo (byteKey 5) (.start soloStart) silentLoop ∧
    retryLog solo (byteKey 5) (.start soloStart) busyDual = [(302, .resent)] := by
  have hspaced : spaced silentLoop = true := by decide
  obtain ⟨hpaced, hsame⟩ := retries_paced_while_slow solo soloStart (byteKey 5) solo_fresh
  refine ⟨hspaced, hpaced silentLoop (slow_of_spaced hspaced), ?_⟩
  rw [← hsame silentDual busyDual silentDual_alike_busyDual, silentDual_log]

/-- Three datagrams that are ignored bring the retry forward by three seconds,
and the two cores do not wait for three seconds in silence either. -/
theorem datagrams_hasten_retry :
    ¬Paced solo (byteKey 5) (.start soloStart) busyLoop ∧
    retryLog solo (byteKey 5) (.start soloStart) silentLoop = [(3002, .resent)] ∧
    retryLog solo (byteKey 5) (.start soloStart) busyLoop = [(8, .resent)] ∧
    retryLog solo (byteKey 5) (.start soloStart) silentDual = [(302, .resent)] ∧
    ∀ s now, solo.loopStep s (strayAt now false) = (s, []) := by
  refine ⟨?_, silentLoop_log, busyLoop_log, silentDual_log,
    fun s now => strayAt_ignored s now false⟩
  intro hpaced
  obtain ⟨t, ht, hle⟩ := hpaced (busyLoop.take 8) (passAt 8) [] rfl (by decide +kernel)
  have hlast : lastSent solo (byteKey 5) (.start soloStart) none (busyLoop.take 8) = some 1 := by
    decide +kernel
  rw [hlast] at ht
  cases ht
  exact absurd hle (by decide)

end TailscaleRust.Proofs
