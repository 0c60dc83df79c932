import TailscaleRust.Proofs.PairRefinement

/-!
# When two nodes agree on their tunnels

Each node keeps one tunnel per address and replaces it whenever a handshake
ends, on its own. If both initiate, or if one initiation arrives twice, the
two may end up with tunnels from different handshakes, and then neither can
read what the other sends. The conditions here are on the tables before a
step, so they can be read off a trace: `orderly` keeps the two in agreement
when every datagram is delivered once, `undisturbed` keeps an initiator's
tunnel alive when datagrams are duplicated at will.
-/

namespace TailscaleRust.Proofs

open TailscaleRust.Lib TailscaleRust.Lib.Pairing TailscaleRust.Core TailscaleRust.Core.Wg
open TailscaleRust.Firmware TailscaleRust.Firmware.Dataplane TailscaleRust.Firmware.TwoNodes

/-! ## The conditions -/

section Conditions

variable (w : World)

def tunnelsOf (x : Side) : Table UInt32 TunnelEntry := (w.party x).st.tunnels

def pendingOf (x : Side) : Table Key Pending := (w.party x).st.pending

/-- Node `x` has this handshake pending. -/
def awaits (x : Side) (i : UInt32) : Bool :=
  (pendingOf w x).values.any fun p => p.ourIndex = i

/-- Node `x` has a handshake pending that the other's tunnel answers. -/
def waits (x : Side) : Bool :=
  (tunnelsOf w x.other).values.any fun e => awaits w x e.tun.theirIndex

/-- A response that node `x` would accept announces a tunnel its sender
still has. -/
def liveResponse (x : Side) (pkt : Bytes) : Bool :=
  !awaits w x (u32le pkt 8) || (tunnelsOf w x.other).contains (u32le pkt 4)

/-- An initiation is consumed while its sender has no tunnel, or has it
pending, or has the tunnel the consumer waits for. -/
def liveInitiation (x : Side) (pkt : Bytes) : Bool :=
  (tunnelsOf w x.other).values.isEmpty || awaits w x.other (u32le pkt 4) || waits w x

/-- The tunnel of the initiation's sender does not lead to node `x`. -/
def freeInitiation (x : Side) : Bool :=
  !(tunnelsOf w x.other).values.any fun e => (tunnelsOf w x).contains e.tun.theirIndex

/-- Check a handshake packet, let everything else pass. -/
def checkPacket (init resp : Side → Bytes → Bool) (i : Nat) : Bool :=
  match w.net[i]? with
  | none => true
  | some p =>
      if p.bytes.head? = some msgInitiation then init p.dst p.bytes
      else if p.bytes.head? = some msgResponse then resp p.dst p.bytes
      else true

/-- The step gives up no tunnel and no handshake that the other node's tunnel
depends on, and draws no index that looks like STUN. -/
def orderly : TwoNodes.Event → Bool
  | .deliver i _ env =>
      decide (env.index ≠ stunIndex) && checkPacket w (liveInitiation w) (liveResponse w) i
  | .periodic x _ _ _ => (tunnelsOf w x).values.isEmpty || !waits w x || waits w x.other

/-- The step replaces no tunnel that the other node's tunnel leads to. -/
def undisturbed : TwoNodes.Event → Bool
  | .deliver i _ _ => checkPacket w (fun x _ => freeInitiation w x) (liveResponse w) i
  | .periodic .. => true

end Conditions

/-! ## The conditions on the abstract pair -/

section Transfer

variable {S : Setup} (hS : S.Lawful) {D : UInt32 → Draws} {w : World} {s : Pair UInt32}
  (h : Rel S D w s)

theorem linkOf_theirs {x : Side} {t : Tunnel} {l : Link UInt32} (h : LinkOf S D x t l) :
    t.theirIndex = l.theirs := by
  cases l with
  | initiated a b =>
      obtain ⟨-, -, -, -, -, -, ht⟩ := h
      exact ht
  | answered b a =>
      obtain ⟨-, -, -, -, -, -, ht⟩ := h
      exact ht

include h

theorem awaits_iff {x : Side} {a : UInt32} :
    awaits w x a = true ↔ (s.node x).pend = some a := by
  rw [awaits, Table.any_values_iff]
  refine ⟨?_, ?_⟩
  · intro hany
    obtain ⟨k, p, hp, hidx⟩ := hany
    rw [((h.node x).pending hp).2.1, of_decide_eq_true hidx]
  · intro hp
    obtain ⟨p, hp, hidx⟩ := (h.node x).pend hp
    exact ⟨_, p, hp, decide_eq_true hidx⟩

theorem link_of_tunnel {x : Side} {i : UInt32} {e : TunnelEntry}
    (he : (tunnelsOf w x).get? i = some e) :
    ∃ l, (s.node x).link = some l ∧ l.own = i ∧ e.tun.theirIndex = l.theirs := by
  obtain ⟨-, l, hl, hown, hof⟩ := (h.node x).tunnels he
  exact ⟨l, hl, hown, linkOf_theirs hof⟩

theorem contains_iff {x : Side} {i : UInt32} :
    (tunnelsOf w x).contains i = true ↔ ∃ l, (s.node x).link = some l ∧ l.own = i := by
  rw [Table.contains, Option.isSome_iff_exists]
  refine ⟨?_, ?_⟩
  · intro hsome
    obtain ⟨e, he⟩ := hsome
    obtain ⟨l, hl, hown, -⟩ := link_of_tunnel h he
    exact ⟨l, hl, hown⟩
  · intro hlink
    obtain ⟨l, hl, rfl⟩ := hlink
    exact (h.node x).link hl

theorem waits_iff {x : Side} : waits w x = true ↔ Waits s x := by
  rw [waits, Table.any_values_iff]
  refine ⟨?_, ?_⟩
  · intro hany
    obtain ⟨i, e, he, hp⟩ := hany
    obtain ⟨l, hl, -, htheirs⟩ := link_of_tunnel h he
    rw [awaits_iff h, htheirs] at hp
    exact ⟨l, hl, hp⟩
  · intro hwait
    obtain ⟨l, hl, hp⟩ := hwait
    obtain ⟨e, he⟩ := (h.node x.other).link hl
    obtain ⟨l', hl', -, htheirs⟩ := link_of_tunnel h he
    rw [hl] at hl'
    cases hl'
    exact ⟨_, e, he, by rw [awaits_iff h, htheirs]; exact hp⟩

theorem link_none_of_isEmpty {x : Side} (hempty : (tunnelsOf w x).values.isEmpty = true) :
    (s.node x).link = none := by
  cases hl : (s.node x).link with
  | none => rfl
  | some l =>
      obtain ⟨e, he⟩ := (h.node x).link hl
      have hany : (tunnelsOf w x).values.any (fun _ => true) = true :=
        Table.any_values_iff.mpr ⟨_, e, he, rfl⟩
      rw [List.isEmpty_iff.mp hempty] at hany
      cases hany

/-- The packet behind a message of the abstract network. -/
theorem packet_of_message {i : Nat} {x : Side} {m : Msg UInt32}
    (hm : s.flight[i]? = some (x, m)) : ∃ p, w.net[i]? = some p ∧ Carries S D p (x, m) := by
  obtain ⟨p, hp, hc⟩ := forall₂_getElem? h.flight.flip hm
  exact ⟨p, hp, hc⟩

include hS

theorem checkPacket_init {init resp : Side → Bytes → Bool} {i : Nat} {x : Side} {a : UInt32}
    (hcheck : checkPacket w init resp i = true) (hm : s.flight[i]? = some (x, .init a)) :
    ∃ pkt, u32le pkt 4 = a ∧ init x pkt = true := by
  obtain ⟨p, hp, hc⟩ := packet_of_message h hm
  rw [checkPacket, hp] at hcheck
  cases hc with
  | init =>
      simp only [if_pos (greeting_head hS D x.other a)] at hcheck
      exact ⟨_, greeting_index hS D x.other a, hcheck⟩

theorem checkPacket_resp {init resp : Side → Bytes → Bool} {i : Nat} {x : Side} {a b : UInt32}
    (hcheck : checkPacket w init resp i = true) (hm : s.flight[i]? = some (x, .resp a b)) :
    ∃ pkt, u32le pkt 4 = b ∧ u32le pkt 8 = a ∧ resp x pkt = true := by
  obtain ⟨p, hp, hc⟩ := packet_of_message h hm
  rw [checkPacket, hp] at hcheck
  cases hc with
  | @resp _ _ _ r _ _ hr =>
      obtain ⟨hhead, hown, htheirs⟩ := reply_fields hS D hr
      have hnot : ¬r.1.head? = some msgInitiation := by
        rw [hhead]
        decide
      simp only [if_neg hnot, if_pos hhead] at hcheck
      exact ⟨r.1, hown, htheirs, hcheck⟩

theorem liveResponse_holds {init : Side → Bytes → Bool} {i : Nat} {x : Side} {a b : UInt32}
    (hcheck : checkPacket w init (liveResponse w) i = true)
    (hm : s.flight[i]? = some (x, .resp a b)) (hp : (s.node x).pend = some a) :
    ∃ l, (s.node x.other).link = some l ∧ l.own = b := by
  obtain ⟨pkt, rfl, rfl, hlive⟩ := checkPacket_resp hS h hcheck hm
  rw [liveResponse, (awaits_iff h).mpr hp] at hlive
  exact (contains_iff h).mp hlive

theorem orderly_transfer {ev : TwoNodes.Event} (hok : orderly w ev = true) :
    Orderly Lost s (pairEvent ev) := by
  cases ev with
  | deliver i tick env =>
      rw [orderly, Bool.and_eq_true, decide_eq_true_eq] at hok
      obtain ⟨hfound, hcheck⟩ := hok
      refine ⟨hfound, fun x a hm => ?_, fun x a b hm => liveResponse_holds hS h hcheck hm⟩
      obtain ⟨pkt, rfl, hlive⟩ := checkPacket_init hS h hcheck hm
      rw [liveInitiation, Bool.or_eq_true, Bool.or_eq_true, awaits_iff h, waits_iff h] at hlive
      rcases hlive with (hempty | hp) | hw
      · exact .inl (link_none_of_isEmpty h hempty)
      · exact .inr (.inl hp)
      · exact .inr (.inr hw)
  | periodic x tick hk stunAddr =>
      rw [orderly, Bool.or_eq_true, Bool.or_eq_true, waits_iff h] at hok
      rcases hok with (hempty | hnot) | hw
      · exact .inl (link_none_of_isEmpty h hempty)
      · refine .inr (.inl fun hw => ?_)
        rw [(waits_iff h).mpr hw] at hnot
        cases hnot
      · exact .inr (.inr hw)

theorem undisturbed_transfer {ev : TwoNodes.Event} (hok : undisturbed w ev = true) :
    Undisturbed s (pairEvent ev) := by
  cases ev with
  | deliver i tick env =>
      rw [undisturbed] at hok
      refine ⟨fun x a l l' hm hl hl' heq => ?_, fun x a b hm => liveResponse_holds hS h hok hm⟩
      obtain ⟨-, -, hfree⟩ := checkPacket_init hS h hok hm
      obtain ⟨e, he⟩ := (h.node x.other).link hl
      obtain ⟨l'', hl'', -, htheirs⟩ := link_of_tunnel h he
      rw [hl] at hl''
      cases hl''
      have hlead : (tunnelsOf w x.other).values.any
          (fun e => (tunnelsOf w x).contains e.tun.theirIndex) = true :=
        Table.any_values_iff.mpr ⟨_, e, he, (contains_iff h).mpr ⟨l', hl', by rw [htheirs, heq]⟩⟩
      rw [freeInitiation, hlead] at hfree
      cases hfree
  | periodic x tick hk stunAddr => trivial

end Transfer

/-! ## Agreement -/

section Results

variable {S : Setup} {D : UInt32 → Draws} {w : World} {s : Pair UInt32}

/-- The two ends of one link hold each other's keys. -/
theorem decryptable_of_mirror (h : Rel S D w s) {x : Side} {l : Link UInt32}
    (hl : (s.node x).link = some l) (hl' : (s.node x.other).link = some l.mirror)
    {i : UInt32} {e : TunnelEntry} (he : (w.party x).st.tunnels.get? i = some e) :
    ∃ e', (w.party x.other).st.tunnels.get? e.tun.theirIndex = some e' ∧
      e'.tun.recvKey = e.tun.sendKey := by
  obtain ⟨-, l₁, hl₁, -, hof⟩ := (h.node x).tunnels he
  rw [hl] at hl₁
  cases hl₁
  obtain ⟨e', he'⟩ := (h.node x.other).link hl'
  obtain ⟨-, l₂, hl₂, -, hof'⟩ := (h.node x.other).tunnels he'
  rw [hl'] at hl₂
  cases hl₂
  refine ⟨e', ?_, ?_⟩
  · rw [linkOf_theirs hof]
    cases l <;> exact he'
  · cases l with
    | initiated a b =>
        obtain ⟨r, t, k, hr, hsend, -, -⟩ := hof
        obtain ⟨r', t', k', hr', -, hrecv', -⟩ := hof'
        rw [Side.other_other, hr] at hr'
        cases hr'
        rw [hrecv', hsend]
    | answered b a =>
        obtain ⟨r, t, k, hr, hsend, -, -⟩ := hof
        obtain ⟨r', t', k', hr', -, hrecv', -⟩ := hof'
        rw [hr] at hr'
        cases hr'
        rw [hrecv', hsend]

/-- What is kept along a run of the two nodes: they stand for a pair of
parties that meets an invariant of the pairing protocol. -/
theorem run_simulates {net : Network} {ok : World → TwoNodes.Event → Bool}
    {good : Pair UInt32 → Pairing.Event UInt32 → Prop} {Inv : Pair UInt32 → Prop}
    (hS : S.Lawful) (hwf : ∀ {s}, Inv s → Wf s)
    (hidle : Inv ⟨fun _ => ⟨none, none⟩, [], []⟩)
    (hgood : ∀ {D w s ev}, Rel S D w s → ok w ev = true → good s (pairEvent ev))
    (hinv : ∀ {s e t}, Inv s → good s e → Step Lost net s e t → Inv t)
    {w₀ w : World} {evs : List TwoNodes.Event} (hstart : S.Start w₀)
    (hrun : Run (Guarded (fun w ev => ok w ev = true) fun w ev w' => S.step net w ev = some w')
      w₀ evs w) :
    ∃ D s, Rel S D w s ∧ Inv s := by
  refine hrun.invariant (P := fun w => ∃ D s, Rel S D w s ∧ Inv s)
    ⟨fun _ => zeroDraws, _, rel_start _ hstart, hidle⟩ ?_
  rintro w ev w' ⟨D, s, hrel, hs⟩ ⟨hok, hstep⟩
  obtain ⟨D', s', hsim, hrel'⟩ := step_simulates hS hrel (hwf hs) hstep
  exact ⟨D', s', hrel', hinv hs (hgood hrel hok) hsim⟩

/-- No response among the abstract messages of a quiet network. -/
theorem quiet_flight (hS : S.Lawful) (h : Rel S D w s) (hquiet : w.Quiet) (x : Side)
    (a b : UInt32) : (x, .resp a b) ∉ s.flight := by
  intro hm
  obtain ⟨i, hi⟩ := List.mem_iff_getElem?.mp hm
  obtain ⟨p, hp, hc⟩ := packet_of_message h hi
  cases hc with
  | resp hr => exact (hquiet _ (List.mem_of_getElem? hp)).2 (reply_fields hS D hr).1

end Results

/-- Every state of an orderly run over a network that delivers each datagram
once, in any order: when no handshake message is under way, what either node
sends on its tunnel the other can decrypt. -/
theorem tunnels_agree (S : Setup) (hS : S.Lawful) (w₀ w : World) (evs : List TwoNodes.Event)
    (hstart : S.Start w₀)
    (hrun : Run (Guarded (fun w ev => orderly w ev = true)
      fun w ev w' => S.step .once w ev = some w') w₀ evs w)
    (hquiet : w.Quiet) : S.Agreement w := by
  obtain ⟨D, s, hrel, hinv⟩ := run_simulates hS AgreeInv.wf (agree_start start_idle)
    (fun hrel hok => orderly_transfer hS hrel hok) agree_step hstart hrun
  rintro x i e he - ⟨j, e', he', -⟩
  obtain ⟨l, hl, -, -⟩ := link_of_tunnel hrel he
  obtain ⟨l', hl', -, -⟩ := link_of_tunnel hrel he'
  have hboth : ∀ y, (s.node y).link ≠ none := by
    intro y
    rcases Side.eq_or_other x y with rfl | rfl
    · rw [hl]
      exact Option.some_ne_none l
    · rw [hl']
      exact Option.some_ne_none l'
  have hmatched := agree_of_quiet hinv (quiet_flight hS hrel hquiet) hboth
  exact decryptable_of_mirror hrel hl (mirror_of_matched hmatched hl) he

/-! ## Two nodes, run

The default build on both sides, over the transparent crypto. Each knows the
other as its only target. -/

def sideByte : Side → UInt8
  | .left => 3
  | .right => 5

def duo : Setup where
  crypto := transparent
  features := defaultFeatures
  ident x :=
    { discoPriv := byteKey (sideByte x), discoPub := byteKey (sideByte x)
      nodePriv := byteKey (sideByte x), nodePub := byteKey (sideByte x), allowedSrcs := none }
  addr x := .v4 ⟨[10, 0, 0, sideByte x], rfl⟩ 41641

def duoStart : World where
  party x :=
    { st := State.empty
      lp :=
        { targets := [{ name := "peer", discoPub := byteKey (sideByte x.other)
                        nodePub := byteKey (sideByte x.other), endpoints := [duo.addr x.other]
                        spray := false }]
          strikes := Table.empty, lastProbe := 0, lastStun := 0, probeRound := 0 } }
  net := []
  used := []

theorem duo_lawful : duo.Lawful := ⟨transparent_lawful, fun _ => rfl⟩

theorem duo_start : duo.Start duoStart where
  pending _ := rfl
  tunnels _ := rfl
  knows x := by
    unfold Knows
    cases x <;> decide +kernel
  net := rfl
  used := rfl

/-- Two seconds in, when the probe is due. -/
def probeDue : Housekeeping where
  now := 2000
  incoming := []
  txid _ := Arr.zero 12
  nonce _ := Arr.zero 24
  sprayTail _ _ := []
  sendOk _ := true
  clientRand := 0
  stunTxid := Arr.zero 12

def probe (x : Side) : TwoNodes.Event := .periodic x 0 probeDue none

/-- Deliver packet `i`; its receiver draws this index. -/
def hand (i : Nat) (index : UInt32) : TwoNodes.Event :=
  .deliver i 0 { zeroDraws with index := index, ephemeral := byteKey (UInt8.ofNat index.toNat) }

/-- Both have a tunnel, and the one node `x` has under `i` leads nowhere. -/
def deadEnd (w : World) (x : Side) (i : UInt32) : Bool :=
  match (tunnelsOf w x).get? i with
  | none => false
  | some e => e.addr = duo.addr x.other ∧
      (tunnelsOf w x.other).values.any (fun e' => e'.addr = duo.addr x) ∧
      (tunnelsOf w x.other).contains e.tun.theirIndex = false

theorem deadEnd_spec {w : World} {x : Side} {i : UInt32} (h : deadEnd w x i = true) :
    ∃ e, (w.party x).st.tunnels.get? i = some e ∧ e.addr = duo.addr x.other ∧
      (∃ j e', (w.party x.other).st.tunnels.get? j = some e' ∧ e'.addr = duo.addr x) ∧
      ¬∃ e', (w.party x.other).st.tunnels.get? e.tun.theirIndex = some e' ∧
        e'.tun.recvKey = e.tun.sendKey := by
  rw [deadEnd] at h
  split at h
  · cases h
  · next e he =>
      obtain ⟨haddr, hany, hnone⟩ := of_decide_eq_true h
      obtain ⟨j, e', he', haddr'⟩ := Table.any_values_iff.mp hany
      refine ⟨e, he, haddr, ⟨j, e', he', of_decide_eq_true haddr'⟩, ?_⟩
      intro hheld
      obtain ⟨e'', he'', -⟩ := hheld
      have hsome : (tunnelsOf w x.other).contains e.tun.theirIndex = true :=
        Option.isSome_iff_exists.mpr ⟨e'', he''⟩
      rw [hnone] at hsome
      cases hsome

/-- Both probe, both get their PONG and both initiate; each answers the
other's initiation and then completes its own. -/
def collision : List TwoNodes.Event :=
  [probe .left, probe .right, hand 0 1, hand 0 2, hand 0 3, hand 0 4, hand 0 5, hand 0 6,
    hand 0 7, hand 0 8]

/-- One side probes, initiates and completes. -/
def handshake : List TwoNodes.Event := [probe .left, hand 0 1, hand 0 2, hand 0 3, hand 0 4]

-- both runs in one evaluation, which goes through the handshake's constants once
theorem duo_collision_handshake :
    (evalRun (fun _ _ => true) (duo.step .once) duoStart collision).any
      (fun w => decide w.Quiet && deadEnd w .left 3) = true ∧
    (evalRun orderly (duo.step .once) duoStart handshake).any
      (fun w => decide w.Quiet && ((tunnelsOf w .left).contains 2 &&
        (tunnelsOf w .right).contains 3)) = true := by
  decide +kernel

theorem collision_disagrees :
    duo.Lawful ∧ duo.Start duoStart ∧
    ∃ w, Run (fun w ev w' => duo.step .once w ev = some w') duoStart collision w ∧
      w.Quiet ∧ ¬duo.Agreement w := by
  obtain ⟨w, hrun, hcheck⟩ := exists_run_of_evalRun duo_collision_handshake.1
  rw [Bool.and_eq_true, decide_eq_true_eq] at hcheck
  obtain ⟨e, he, haddr, hother, hno⟩ := deadEnd_spec hcheck.2
  exact ⟨duo_lawful, duo_start, w, hrun.unguarded, hcheck.1,
    fun hagree => hno (hagree .left 3 e he haddr hother)⟩

theorem tunnels_agree_duo :
    ∃ w, Run (Guarded (fun w ev => orderly w ev = true)
        fun w ev w' => duo.step .once w ev = some w') duoStart handshake w ∧
      w.Quiet ∧ (tunnelsOf w .left).contains 2 = true ∧ (tunnelsOf w .right).contains 3 = true ∧
      duo.Agreement w := by
  obtain ⟨w, hrun, hcheck⟩ := exists_run_of_evalRun duo_collision_handshake.2
  rw [Bool.and_eq_true, Bool.and_eq_true, decide_eq_true_eq] at hcheck
  exact ⟨w, hrun, hcheck.1, hcheck.2.1, hcheck.2.2,
    tunnels_agree duo duo_lawful duoStart w handshake duo_start hrun hcheck.1⟩

/-! ## Initiators -/

/-- Every state of an undisturbed run over a network that delivers any
datagram any number of times: if a node has completed the handshake of an
initiation it sent, the other still has the tunnel it sends to. -/
theorem initiator_tunnel_held (S : Setup) (hS : S.Lawful) (w₀ w : World)
    (evs : List TwoNodes.Event) (hstart : S.Start w₀)
    (hrun : Run (Guarded (fun w ev => undisturbed w ev = true)
      fun w ev w' => S.step .duplicating w ev = some w') w₀ evs w)
    (x : Side) (m : Packet) (hm : m ∈ w.net) (hdst : m.dst = x.other)
    (hinit : m.bytes.head? = some msgInitiation) (e : TunnelEntry)
    (he : (w.party x).st.tunnels.get? (u32le m.bytes 4) = some e) :
    ∃ e', (w.party x.other).st.tunnels.get? e.tun.theirIndex = some e' ∧
      e'.tun.recvKey = e.tun.sendKey := by
  obtain ⟨D, s, hrel, hinv⟩ := run_simulates hS HeldInv.wf (held_start start_idle)
    (fun hrel hok => undisturbed_transfer hS hrel hok) held_step hstart hrun
  obtain ⟨i, hi⟩ := List.mem_iff_getElem?.mp hm
  obtain ⟨⟨y, msg⟩, hmsg, hc⟩ := forall₂_getElem? hrel.flight hi
  have hflight := List.mem_of_getElem? hmsg
  obtain ⟨l, hl, hown, -⟩ := link_of_tunnel hrel he
  cases hc with
  | init =>
      have hy : y = x.other := hdst
      subst hy
      rw [greeting_index hS D] at hown
      have hx : (s.node x.other.other).link = some l := by
        rw [Side.other_other]
        exact hl
      have hlink := hinv.wf.init_link hflight hx hown
      rw [hlink] at hl
      exact decryptable_of_mirror hrel hl (hinv.held hl) he
  | resp hr =>
      have hhead := (reply_fields hS D hr).1
      rw [hinit] at hhead
      cases hhead
  | other hc => exact absurd hinit hc.notInit

/-- The initiation is packet 2. It is delivered twice, and the response to
the first delivery completes the handshake. -/
def duplicated : List TwoNodes.Event :=
  [probe .left, hand 0 1, hand 1 2, hand 2 3, hand 2 4, hand 3 5]

/-- The same with the response to the second delivery. -/
def duplicatedLast : List TwoNodes.Event :=
  [probe .left, hand 0 1, hand 1 2, hand 2 3, hand 2 4, hand 4 5]

/-- An initiation from left under this index has been sent. -/
def initiationSent (w : World) (i : UInt32) : Bool :=
  w.net.any fun m => m.dst = .right ∧ m.bytes.head? = some msgInitiation ∧ u32le m.bytes 4 = i

theorem initiationSent_spec {w : World} {i : UInt32} (h : initiationSent w i = true) :
    ∃ m ∈ w.net, m.dst = .right ∧ m.bytes.head? = some msgInitiation ∧ u32le m.bytes 4 = i := by
  obtain ⟨m, hm, hsent⟩ := List.any_eq_true.mp h
  exact ⟨m, hm, of_decide_eq_true hsent⟩

theorem duo_duplicated :
    (evalRun (fun _ _ => true) (duo.step .duplicating) duoStart duplicated).any
      (fun w => initiationSent w 2 && deadEnd w .left 2) = true ∧
    (evalRun undisturbed (duo.step .duplicating) duoStart duplicatedLast).any
      (fun w => initiationSent w 2 && (tunnelsOf w .left).contains 2) = true := by
  decide +kernel

theorem duplicate_kills_tunnel :
    duo.Lawful ∧ duo.Start duoStart ∧
    ∃ w, Run (fun w ev w' => duo.step .duplicating w ev = some w') duoStart duplicated w ∧
      ∃ m ∈ w.net, m.dst = .right ∧ m.bytes.head? = some msgInitiation ∧
      ∃ e, (w.party .left).st.tunnels.get? (u32le m.bytes 4) = some e ∧
      ¬∃ e', (w.party .right).st.tunnels.get? e.tun.theirIndex = some e' ∧
        e'.tun.recvKey = e.tun.sendKey := by
  obtain ⟨w, hrun, hcheck⟩ := exists_run_of_evalRun duo_duplicated.1
  rw [Bool.and_eq_true] at hcheck
  obtain ⟨m, hm, hdst, hhead, hidx⟩ := initiationSent_spec hcheck.1
  obtain ⟨e, he, -, -, hno⟩ := deadEnd_spec hcheck.2
  exact ⟨duo_lawful, duo_start, w, hrun.unguarded, m, hm, hdst, hhead, e, by rw [hidx, he], hno⟩

theorem initiator_tunnel_held_duo :
    ∃ w, Run (Guarded (fun w ev => undisturbed w ev = true)
        fun w ev w' => duo.step .duplicating w ev = some w') duoStart duplicatedLast w ∧
      ∃ e, (w.party .left).st.tunnels.get? 2 = some e ∧
      ∃ e', (w.party .right).st.tunnels.get? e.tun.theirIndex = some e' ∧
        e'.tun.recvKey = e.tun.sendKey := by
  obtain ⟨w, hrun, hcheck⟩ := exists_run_of_evalRun duo_duplicated.2
  rw [Bool.and_eq_true] at hcheck
  obtain ⟨m, hm, hdst, hhead, hidx⟩ := initiationSent_spec hcheck.1
  obtain ⟨e, he⟩ := Option.isSome_iff_exists.mp hcheck.2
  exact ⟨w, hrun, e, he, initiator_tunnel_held duo duo_lawful duoStart w duplicatedLast duo_start
    hrun .left m hm hdst hhead e (by rw [hidx]; exact he)⟩

end TailscaleRust.Proofs
