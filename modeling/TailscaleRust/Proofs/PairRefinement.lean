import TailscaleRust.Proofs.Chatter

/-!
# Two nodes refine the pairing protocol

The bytes on the wire stand for messages of `Lib.Pairing` and the tables for
its nodes: a pending handshake for the index waited on, a tunnel for a link.
What ties them together is who drew an index and with what randomness. `D`
records that; it grows by one entry with every packet handled, and the
indices in use never change their meaning.

`step_simulates` is the result: whatever the two data planes do is a step of
the pairing protocol, with the same message delivered or the same node's
timer. The lost index is the one whose bytes are the STUN cookie.
-/

namespace TailscaleRust.Proofs

open TailscaleRust.Lib TailscaleRust.Lib.Pairing TailscaleRust.Core TailscaleRust.Core.Wg
open TailscaleRust.Firmware TailscaleRust.Firmware.Dataplane TailscaleRust.Firmware.TwoNodes

/-- The index `handle_packet` takes for STUN. -/
def Lost (i : UInt32) : Prop := i = stunIndex

section Messages

variable (S : Setup) (D : UInt32 → Draws)

/-- The initiation node `x` sends under an index, and what it keeps of it. -/
def greeting (x : Side) (a : UInt32) : Arr initLen × Handshake :=
  initiation S.crypto (S.ident x).nodePriv (S.ident x.other).nodePriv (D a).ephemeral
    (tai64n (D a).unixSecs (D a).unixNanos) a

/-- What the other node makes of that initiation under an index of its own. -/
def reply (x : Side) (a b : UInt32) : Except String (Arr respLen × Tunnel × Key) :=
  consumeInitiation S.crypto (S.ident x.other).nodePriv (S.ident x.other).nodePub
    (greeting S D x a).1.1 b (D b).ephemeral

/-- A packet under way and the message it stands for. -/
inductive Carries : Packet → Side × Msg UInt32 → Prop
  | init {x : Side} {a : UInt32} : Carries ⟨x, (greeting S D x.other a).1.1⟩ (x, .init a)
  | resp {x : Side} {a b : UInt32} {r : Arr respLen} {t : Tunnel} {k : Key}
      (h : reply S D x a b = .ok (r, t, k)) : Carries ⟨x, r.1⟩ (x, .resp a b)
  | other {x : Side} {bytes : Bytes} (h : Chatter (S.ident x.other).discoPub bytes) :
      Carries ⟨x, bytes⟩ (x, .other)

/-- A tunnel of node `x` is its end of a link. -/
def LinkOf (x : Side) (t : Tunnel) : Link UInt32 → Prop
  | .initiated a b => ∃ r t' k, reply S D x a b = .ok (r, t', k) ∧
      t.sendKey = t'.recvKey ∧ t.recvKey = t'.sendKey ∧ t.theirIndex = b
  | .answered b a => ∃ r t' k, reply S D x.other a b = .ok (r, t', k) ∧
      t.sendKey = t'.sendKey ∧ t.recvKey = t'.recvKey ∧ t.theirIndex = a

/-- The tables of node `x` and the abstract node. -/
structure NodeRel (x : Side) (me : Party) (n : Node UInt32) : Prop where
  pending : ∀ {k p}, me.st.pending.get? k = some p →
    k = (S.ident x.other).nodePub ∧ n.pend = some p.ourIndex ∧ p.addr = S.addr x.other ∧
    p.init = (greeting S D x p.ourIndex).1 ∧ p.hs = (greeting S D x p.ourIndex).2
  pend : ∀ {a}, n.pend = some a →
    ∃ p, me.st.pending.get? (S.ident x.other).nodePub = some p ∧ p.ourIndex = a
  tunnels : ∀ {i e}, me.st.tunnels.get? i = some e →
    e.addr = S.addr x.other ∧ ∃ l, n.link = some l ∧ l.own = i ∧ LinkOf S D x e.tun l
  link : ∀ {l}, n.link = some l → ∃ e, me.st.tunnels.get? l.own = some e
  knows : Knows me.lp.targets (S.ident x.other)

structure Rel (w : World) (s : Pair UInt32) : Prop where
  used : s.used = w.used
  flight : List.Forall₂ (Carries S D) w.net s.flight
  node : ∀ x, NodeRel S D x (w.party x) (s.node x)

end Messages

/-! ## The messages -/

section Facts

variable {S : Setup} (hS : S.Lawful) (D : UInt32 → Draws)

include hS

/-- The code's initiation is the greeting of the draws it was made from. -/
theorem greeting_eq {x : Side} {env : Draws} (hD : D env.index = env) :
    buildInitiation S.crypto (S.ident x).nodePriv (S.ident x).nodePub (S.ident x.other).nodePub
      (tai64n env.unixSecs env.unixNanos) env.index env.ephemeral = greeting S D x env.index := by
  rw [greeting, initiation, hD, hS.pub x, hS.pub x.other]

theorem greeting_index (x : Side) (a : UInt32) : u32le (greeting S D x a).1.1 4 = a :=
  (initiation_fields hS.crypto _ _ _ _ a).2.1

theorem greeting_head (x : Side) (a : UInt32) :
    (greeting S D x a).1.1.head? = some msgInitiation := by
  have htype : byteAt (greeting S D x a).1.1 0 = msgInitiation :=
    (initiation_fields hS.crypto _ _ _ _ a).1
  rw [head?_eq_byteAt (by rw [(greeting S D x a).1.2]; decide), htype]

/-- The other node answers every greeting, and the sender completes with the
answer: the two tunnels mirror each other. -/
theorem reply_ok (x : Side) (a b : UInt32) :
    ∃ r tR tI, reply S D x a b = .ok (r, tR, (S.ident x).nodePub) ∧
      (greeting S D x a).2.consumeResponse S.crypto r.1 = .ok tI ∧
      tI.sendKey = tR.recvKey ∧ tI.recvKey = tR.sendKey ∧
      tI.theirIndex = b ∧ tR.theirIndex = a := by
  obtain ⟨run, r, tI, tR, -, hcons, hresp, -, -, -, -, hkeys, hI, hR⟩ :=
    handshake_run hS.crypto (S.ident x).nodePriv (S.ident x.other).nodePriv (D a).ephemeral
      (D b).ephemeral (tai64n (D a).unixSecs (D a).unixNanos) a b
  refine ⟨r, tR, tI, ?_, hresp, ?_⟩
  · rw [reply, hS.pub x.other, hS.pub x]
    exact hcons
  · subst hI hR
    exact ⟨by rw [hkeys], by rw [hkeys], rfl, rfl⟩

theorem reply_fields {x : Side} {a b : UInt32} {r : Arr respLen} {t : Tunnel} {k : Key}
    (h : reply S D x a b = .ok (r, t, k)) :
    r.1.head? = some msgResponse ∧ u32le r.1 4 = b ∧ u32le r.1 8 = a := by
  obtain ⟨htype, hown, htheirs, -, -⟩ := consumeInitiation_header h
  rw [greeting_index hS D] at htheirs
  refine ⟨?_, hown, htheirs⟩
  rw [head?_eq_byteAt (by rw [r.2]; decide), htype]

end Facts

/-! ## New draws leave old indices alone -/

section Congr

variable {S : Setup} {D D' : UInt32 → Draws}

theorem greeting_congr {x : Side} {a : UInt32} (h : D' a = D a) :
    greeting S D' x a = greeting S D x a := by
  rw [greeting, greeting, h]

theorem reply_congr {x : Side} {a b : UInt32} (ha : D' a = D a) (hb : D' b = D b) :
    reply S D' x a b = reply S D x a b := by
  rw [reply, reply, greeting_congr ha, hb]

theorem linkOf_congr {x : Side} {t : Tunnel} {l : Link UInt32} (hown : D' l.own = D l.own)
    (htheirs : D' l.theirs = D l.theirs) (h : LinkOf S D x t l) : LinkOf S D' x t l := by
  cases l with
  | initiated a b =>
      have hr : reply S D' x a b = reply S D x a b := reply_congr hown htheirs
      rw [LinkOf, hr]
      exact h
  | answered b a =>
      have hr : reply S D' x.other a b = reply S D x.other a b := reply_congr htheirs hown
      rw [LinkOf, hr]
      exact h

theorem carries_congr {ps : List Packet} {ms : List (Side × Msg UInt32)}
    (hinit : ∀ x a, (x, .init a) ∈ ms → D' a = D a)
    (hresp : ∀ x a b, (x, .resp a b) ∈ ms → D' a = D a ∧ D' b = D b)
    (h : List.Forall₂ (Carries S D) ps ms) : List.Forall₂ (Carries S D') ps ms := by
  induction h with
  | nil => exact .nil
  | @cons p m ps ms hp _ ih =>
      refine .cons ?_ (ih (fun x a hm => hinit x a (List.mem_cons_of_mem m hm))
        fun x a b hm => hresp x a b (List.mem_cons_of_mem m hm))
      cases hp with
      | @init x a =>
          rw [← greeting_congr (hinit x a List.mem_cons_self)]
          exact .init
      | @resp x a b r t k hr =>
          obtain ⟨ha, hb⟩ := hresp x a b List.mem_cons_self
          rw [← reply_congr ha hb] at hr
          exact .resp hr
      | other hc => exact .other hc

theorem rel_congr {w : World} {s : Pair UInt32} (h : Rel S D w s) (hwf : Wf s)
    (hD : ∀ a ∈ s.used, D' a = D a) : Rel S D' w s where
  used := h.used
  flight := by
    refine carries_congr (fun x a hm => hD a (hwf.init_used hm)) (fun x a b hm => ?_) h.flight
    exact ⟨hD a (hwf.resp_used hm).1, hD b (hwf.resp_used hm).2⟩
  node x :=
    { pending := fun hp => by
        obtain ⟨hk, hpend, haddr, hinit, hhs⟩ := (h.node x).pending hp
        rw [greeting_congr (hD _ (hwf.pend_used hpend))]
        exact ⟨hk, hpend, haddr, hinit, hhs⟩
      pend := (h.node x).pend
      tunnels := fun ht => by
        obtain ⟨haddr, l, hl, hown, hof⟩ := (h.node x).tunnels ht
        obtain ⟨huse, huse'⟩ := hwf.link_used hl
        exact ⟨haddr, l, hl, hown, linkOf_congr (hD _ huse) (hD _ huse') hof⟩
      link := (h.node x).link
      knows := (h.node x).knows }

end Congr

/-! ## What a reaction does to the tables -/

section Tables

variable {S : Setup} {D : UInt32 → Draws} {x : Side} {me : Party} {n : Node UInt32}

theorem nodeRel_kept {st' : State} {lp' : Loop} (h : NodeRel S D x me n)
    (hkept : Kept me.st st') (hknows : Knows lp'.targets (S.ident x.other)) :
    NodeRel S D x ⟨st', lp'⟩ n where
  pending hp := h.pending (hkept.pending ▸ hp)
  pend hn := by
    rw [hkept.pending]
    exact h.pend hn
  tunnels {i e'} he' := by
    have hi := (hkept.tunnels i).symm
    rw [he'] at hi
    obtain ⟨e, he, hfix⟩ := Option.map_eq_some_iff.mp hi
    obtain ⟨haddr, l, hl, hown, hof⟩ := h.tunnels he
    refine ⟨(fixedPart_addr hfix.symm).trans haddr, l, hl, hown, ?_⟩
    cases l <;> rw [LinkOf, fixedPart_sendKey hfix.symm, fixedPart_recvKey hfix.symm,
      fixedPart_theirIndex hfix.symm] <;> exact hof
  link {l} hl := by
    obtain ⟨e, he⟩ := h.link hl
    have hi := hkept.tunnels l.own
    rw [he] at hi
    obtain ⟨e', he', -⟩ := Option.map_eq_some_iff.mp hi
    exact ⟨e', he'⟩
  knows := hknows

/-- Where all tunnels go to one address, a new one there replaces them. -/
theorem get?_insertTunnel (st : State) {addr : SocketAddr}
    (haddr : ∀ i e, st.tunnels.get? i = some e → e.addr = addr)
    (j : UInt32) (t : Tunnel) (k : Key) (i : UInt32) :
    (insertTunnel st j t addr k).tunnels.get? i =
      if i = j then some ⟨t, addr, k, Tcp.TcpServer.new⟩ else none := by
  rw [tunnels_insertTunnel]
  split
  · rfl
  · cases he : st.tunnels.get? i with
    | none => rfl
    | some e => simp [haddr i e he]

theorem nodeRel_answer {a b : UInt32} {r : Arr respLen} {t : Tunnel} {k : Key}
    (h : NodeRel S D x me n) (hr : reply S D x.other a b = .ok (r, t, k))
    (ht : t.theirIndex = a) :
    NodeRel S D x { me with st := insertTunnel me.st b t (S.addr x.other) k }
      { n with link := some (.answered b a) } where
  pending := h.pending
  pend := h.pend
  tunnels {i e} he := by
    rw [get?_insertTunnel me.st fun _ _ he => (h.tunnels he).1] at he
    split at he
    · next hi =>
        cases he
        exact ⟨rfl, .answered b a, rfl, hi.symm, r, t, k, hr, rfl, rfl, ht⟩
    · cases he
  link hl := by
    cases hl
    rw [get?_insertTunnel me.st fun _ _ he => (h.tunnels he).1]
    exact ⟨_, if_pos rfl⟩
  knows := h.knows

theorem nodeRel_complete {a b : UInt32} {r : Arr respLen} {t : Tunnel} {k : Key} (t' : Tunnel)
    (h : NodeRel S D x me n) (hr : reply S D x a b = .ok (r, t, k))
    (ht : t'.sendKey = t.recvKey ∧ t'.recvKey = t.sendKey ∧ t'.theirIndex = b) :
    NodeRel S D x
      { me with
        st := insertTunnel { me.st with pending := me.st.pending.erase (S.ident x.other).nodePub }
          a t' (S.addr x.other) (S.ident x.other).nodePub }
      ⟨none, some (.initiated a b)⟩ := by
  have hget := get?_insertTunnel
    { me.st with pending := me.st.pending.erase (S.ident x.other).nodePub }
    (fun _ _ he => (h.tunnels he).1) a t' (S.ident x.other).nodePub
  refine
    { pending := ?_, pend := fun hn => (by cases hn), tunnels := ?_, link := ?_, knows := h.knows }
  · intro k' p hp
    have hp' : (me.st.pending.erase (S.ident x.other).nodePub).get? k' = some p := hp
    rw [Table.get?_erase] at hp'
    split at hp'
    · cases hp'
    · next hne => exact absurd (h.pending hp').1 hne
  · intro i e he
    have he' := (hget i).symm.trans he
    split at he'
    · next hi =>
        cases he'
        exact ⟨rfl, .initiated a b, rfl, hi.symm, r, t, k, hr, ht⟩
    · cases he'
  · intro l hl
    cases hl
    exact ⟨_, (hget a).trans (if_pos rfl)⟩

theorem nodeRel_start (hS : S.Lawful) {env : Draws} {tick : UInt32} {confirmed : List SocketAddr}
    (h : NodeRel S D x me n) (hD : D env.index = env) :
    NodeRel S D x
      { me with
        st := (startState S.crypto env (S.ident x) tick { me.st with confirmed := confirmed }
          (S.ident x.other).nodePub (S.addr x.other)).1 }
      { n with pend := some env.index } := by
  have hget := Table.get?_insert me.st.pending (S.ident x.other).nodePub
  refine { pending := ?_, pend := ?_, tunnels := h.tunnels, link := h.link, knows := h.knows }
  · intro k p hp
    have hp' := (hget k _).symm.trans hp
    split at hp'
    · next hk =>
        cases hp'
        have hb := greeting_eq hS D (x := x) hD
        exact ⟨hk, rfl, rfl, congrArg Prod.fst hb, congrArg Prod.snd hb⟩
    · next hk => exact absurd (h.pending hp').1 hk
  · intro a ha
    cases ha
    exact ⟨_, (hget _ _).trans (if_pos rfl), rfl⟩

/-- A retry drops the handshake, or keeps it and may resend it as it was. -/
theorem retryPending_same (tunnels : Table UInt32 TunnelEntry) (tick : UInt32) (p : Pending) :
    retryPending tunnels tick p = (none, []) ∨
    ∃ p' out, retryPending tunnels tick p = (some p', out) ∧ p'.ourIndex = p.ourIndex ∧
      p'.addr = p.addr ∧ p'.init = p.init ∧ p'.hs = p.hs ∧
      ∀ d ∈ out, d = ⟨p.addr, p.init.1⟩ := by
  rcases retryPending_cases tunnels tick p with hdrop | hkeep | ⟨-, hsend⟩
  · exact .inl hdrop
  · exact .inr ⟨_, _, hkeep, rfl, rfl, rfl, rfl, fun d hd => absurd hd List.not_mem_nil⟩
  · exact .inr ⟨_, _, hsend, rfl, rfl, rfl, rfl, fun d hd => List.mem_singleton.mp hd⟩

/-- What is pending after the retries is what they kept of the one handshake
there was. -/
theorem pending_retryAll (tick : UInt32) (h : NodeRel S D x me n) {k : Key} {q : Pending}
    (hq : (retryAll me.st tick).1.pending.get? k = some q) :
    k = (S.ident x.other).nodePub ∧ ∃ p, me.st.pending.get? (S.ident x.other).nodePub = some p ∧
      (retryPending me.st.tunnels tick p).1 = some q := by
  rw [get?_retryAll] at hq
  obtain ⟨p, hp, hr⟩ := Option.bind_eq_some_iff.mp hq
  have hk := (h.pending hp).1
  rw [hk] at hp
  exact ⟨hk, p, hp, hr⟩

/-- What is resent is resent for the one handshake there is. -/
theorem sent_retryAll (tick : UInt32) (h : NodeRel S D x me n) {d : Datagram}
    (hd : d ∈ (retryAll me.st tick).2) :
    ∃ p, me.st.pending.get? (S.ident x.other).nodePub = some p ∧
      d ∈ (retryPending me.st.tunnels tick p).2 := by
  obtain ⟨p, hp, hd⟩ := List.mem_flatMap.mp hd
  obtain ⟨⟨k, p'⟩, hmem, rfl⟩ := List.mem_map.mp hp
  have hk := Table.mem_entries_iff.mp hmem
  rw [(h.pending hk).1] at hk
  exact ⟨p', hk, hd⟩

theorem nodeRel_retry (tick : UInt32) (h : NodeRel S D x me n) :
    (NodeRel S D x { me with st := (retryAll me.st tick).1 } n ∧
      ∀ d ∈ (retryAll me.st tick).2, ∃ a, n.pend = some a ∧
        d.bytes = (greeting S D x a).1.1) ∨
    (NodeRel S D x { me with st := (retryAll me.st tick).1 } { n with pend := none } ∧
      (retryAll me.st tick).2 = []) := by
  cases hp : me.st.pending.get? (S.ident x.other).nodePub with
  | none =>
      refine .inl ⟨{ h with pending := ?_, pend := ?_ }, fun d hd => ?_⟩
      · intro k q hq
        obtain ⟨-, p, hp', -⟩ := pending_retryAll tick h hq
        rw [hp] at hp'
        cases hp'
      · intro a ha
        obtain ⟨p, hp', -⟩ := h.pend ha
        rw [hp] at hp'
        cases hp'
      · obtain ⟨p, hp', -⟩ := sent_retryAll tick h hd
        rw [hp] at hp'
        cases hp'
  | some p =>
      obtain ⟨-, hpend, haddr, hinit, hhs⟩ := h.pending hp
      rcases retryPending_same me.st.tunnels tick p with hdrop |
        ⟨p', out, hkeep, hi, ha, hm, hh, hout⟩
      · refine .inr ⟨{ h with pending := ?_, pend := fun hn => (by cases hn) }, ?_⟩
        · intro k q hq
          obtain ⟨-, p', hp', hr⟩ := pending_retryAll tick h hq
          rw [hp] at hp'
          cases hp'
          rw [hdrop] at hr
          cases hr
        · refine List.eq_nil_iff_forall_not_mem.mpr fun d hd => ?_
          obtain ⟨p', hp', hd⟩ := sent_retryAll tick h hd
          rw [hp] at hp'
          cases hp'
          rw [hdrop] at hd
          cases hd
      · refine .inl ⟨{ h with pending := ?_, pend := ?_ }, fun d hd => ?_⟩
        · intro k q hq
          obtain ⟨hk, p₀, hp₀, hr⟩ := pending_retryAll tick h hq
          rw [hp] at hp₀
          cases hp₀
          rw [hkeep] at hr
          cases hr
          rw [hi, ha, hm, hh]
          exact ⟨hk, hpend, haddr, hinit, hhs⟩
        · intro a hn
          have hget : (retryAll me.st tick).1.pending.get? (S.ident x.other).nodePub = some p' := by
            refine (Table.get?_filterMap ..).trans ?_
            rw [hp, Option.bind_some, hkeep]
          refine ⟨p', hget, ?_⟩
          rw [hi]
          exact Option.some.inj (hpend.symm.trans hn)
        · obtain ⟨p₀, hp₀, hd⟩ := sent_retryAll tick h hd
          rw [hp] at hp₀
          cases hp₀
          rw [hkeep] at hd
          refine ⟨p.ourIndex, hpend, ?_⟩
          rw [hout d hd, hinit]

end Tables

/-! ## The network -/

section Network

variable {S : Setup} {D : UInt32 → Draws}

theorem route_carries {x : Side} {out : List Datagram} {P : Msg UInt32 → Prop}
    (h : ∀ d ∈ out, ∃ m, Carries S D ⟨x.other, d.bytes⟩ (x.other, m) ∧ P m) :
    ∃ ms : List (Msg UInt32), List.Forall₂ (Carries S D) (S.route x out)
      (ms.map fun m => (x.other, m)) ∧ ∀ m ∈ ms, P m := by
  induction out with
  | nil => exact ⟨[], .nil, fun m hm => absurd hm List.not_mem_nil⟩
  | cons d out ih =>
      obtain ⟨ms, hms, hP⟩ := ih fun d' hd' => h d' (List.mem_cons_of_mem d hd')
      by_cases hdst : d.dst = S.addr x.other
      · obtain ⟨m, hm, hPm⟩ := h d List.mem_cons_self
        refine ⟨m :: ms, ?_, ?_⟩
        · rw [Setup.route, List.filterMap_cons, if_pos hdst]
          exact .cons hm hms
        · intro m' hm'
          rcases List.mem_cons.mp hm' with rfl | hmem
          · exact hPm
          · exact hP m' hmem
      · refine ⟨ms, ?_, hP⟩
        rw [Setup.route, List.filterMap_cons, if_neg hdst]
        exact hms

theorem route_one (x : Side) (bytes : Bytes) :
    S.route x [⟨S.addr x.other, bytes⟩] = [⟨x.other, bytes⟩] := by
  simp [Setup.route]

theorem forall₂_eraseIdx {α β : Type} {R : α → β → Prop} {as : List α} {bs : List β}
    (h : List.Forall₂ R as bs) (i : Nat) : List.Forall₂ R (as.eraseIdx i) (bs.eraseIdx i) := by
  induction h generalizing i with
  | nil => exact .nil
  | cons hab hrest ih =>
      cases i with
      | zero => exact hrest
      | succ i => exact .cons hab (ih i)

theorem forall₂_after {α β : Type} {R : α → β → Prop} {as : List α} {bs : List β}
    (net : Network) (i : Nat) (h : List.Forall₂ R as bs) :
    List.Forall₂ R (net.after i as) (net.after i bs) := by
  cases net with
  | once => exact forall₂_eraseIdx h i
  | duplicating => exact h

theorem forall₂_getElem? {α β : Type} {R : α → β → Prop} {as : List α} {bs : List β}
    (h : List.Forall₂ R as bs) {i : Nat} {a : α} (hi : as[i]? = some a) :
    ∃ b, bs[i]? = some b ∧ R a b := by
  induction h generalizing i with
  | nil => cases hi
  | @cons a' b' _ _ hab _ ih =>
      cases i with
      | zero =>
          cases hi
          exact ⟨b', rfl, hab⟩
      | succ i => exact ih hi

theorem rel_put {w : World} {s : Pair UInt32} {x : Side} {me : Party} {n : Node UInt32}
    {kp ps : List Packet} {km : List (Side × Msg UInt32)} {ms : List (Msg UInt32)}
    {used : List UInt32} (h : Rel S D w s) (hkept : List.Forall₂ (Carries S D) kp km)
    (hout : List.Forall₂ (Carries S D) ps (ms.map fun m => (x.other, m)))
    (hn : NodeRel S D x me n) :
    Rel S D ⟨Function.update w.party x me, kp ++ ps, used⟩ (s.put x n km ms used) where
  used := rfl
  flight := List.rel_append hkept hout
  node y := by
    rcases Side.eq_or_other x y with rfl | rfl
    · show NodeRel S D y (Function.update w.party y me y) _
      rw [node_put_self, Function.update_self]
      exact hn
    · show NodeRel S D x.other (Function.update w.party x me x.other) _
      rw [node_put_other, Function.update_of_ne (Side.other_ne x)]
      exact h.node x.other

end Network

/-! ## One packet -/

section Receive

variable {S : Setup} (hS : S.Lawful) {D : UInt32 → Draws} {x : Side} {me : Party}
  {n : Node UInt32} {env : Draws} {tick : UInt32}

/-- The result of handling a packet is a reaction to the message. -/
def Reacts (S : Setup) (D : UInt32 → Draws) (x : Side) (lp : Loop) (n : Node UInt32)
    (m : Msg UInt32) (fresh : UInt32) (r : State × List Datagram) : Prop :=
  ∃ n' ms, Receives Lost fresh n m n' ms ∧ NodeRel S D x ⟨r.1, lp⟩ n' ∧
    List.Forall₂ (Carries S D) (S.route x r.2) (ms.map fun m => (x.other, m))

/-- Nothing happened, and the protocol allows that. -/
theorem reacts_ignore {m : Msg UInt32} (h : NodeRel S D x me n)
    (hmiss : ∀ a b, m = .resp a b → n.pend = some a → Lost b) :
    Reacts S D x me.lp n m env.index (me.st, []) :=
  ⟨n, [], .ignore hmiss fun _ hm => absurd hm List.not_mem_nil, h, .nil⟩

include hS

theorem handle_init {a : UInt32} (hD : D env.index = env) (h : NodeRel S D x me n) :
    Reacts S D x me.lp n (.init a) env.index
      (handlePacket S.crypto S.features env (S.ident x) me.lp.targets me.st tick
        (greeting S D x.other a).1.1 (S.addr x.other)) := by
  have hhead := greeting_head hS D x.other a
  have hlen : 8 ≤ (greeting S D x.other a).1.1.length := by
    rw [(greeting S D x.other a).1.2]
    decide
  rw [handlePacket, not_isDisco_of_head hhead (by decide), if_neg Bool.false_ne_true]
  by_cases hlost : a = stunIndex
  · rw [if_pos ((isStun_iff hlen).mpr ((greeting_index hS D x.other a).trans hlost))]
    exact reacts_ignore h fun c d heq => by cases heq
  · have hstun : ¬Stun.isStun (greeting S D x.other a).1.1 = true := by
      rw [isStun_iff hlen, greeting_index hS D]
      exact hlost
    rw [if_neg hstun, if_pos hhead]
    obtain ⟨r, tR, tI, hr, -, -, -, -, htheirs⟩ := reply_ok hS D x.other a env.index
    have hcons : consumeInitiation S.crypto (S.ident x).nodePriv (S.ident x).nodePub
        (greeting S D x.other a).1.1 env.index env.ephemeral =
          .ok (r, tR, (S.ident x.other).nodePub) := by
      rw [reply, Side.other_other, hD] at hr
      exact hr
    simp only [handleWgInit, hcons]
    refine ⟨_, _, .answer, nodeRel_answer h hr htheirs, ?_⟩
    rw [route_one]
    exact .cons (.resp hr) .nil

theorem handle_resp {a b : UInt32} {r : Arr respLen} {t : Tunnel} {k : Key}
    (hr : reply S D x a b = .ok (r, t, k)) (h : NodeRel S D x me n) :
    Reacts S D x me.lp n (.resp a b) env.index
      (handlePacket S.crypto S.features env (S.ident x) me.lp.targets me.st tick r.1
        (S.addr x.other)) := by
  obtain ⟨hhead, hown, htheirs⟩ := reply_fields hS D hr
  have hlen : r.1.length = 92 := r.2
  have hnotInit : ¬r.1.head? = some msgInitiation := by
    rw [hhead]
    decide
  rw [handlePacket, not_isDisco_of_head hhead (by decide), if_neg Bool.false_ne_true]
  by_cases hlost : b = stunIndex
  · rw [if_pos ((isStun_iff (by omega)).mpr (hown.trans hlost))]
    refine reacts_ignore h fun c d heq _ => ?_
    cases heq
    exact hlost
  · have hstun : ¬Stun.isStun r.1 = true := by
      rw [isStun_iff (by omega), hown]
      exact hlost
    rw [if_neg hstun, if_neg hnotInit, if_pos hhead, handleWgResponse, if_neg (by omega), htheirs]
    split
    · next hnone =>
        refine reacts_ignore h fun c d heq hp => ?_
        cases heq
        obtain ⟨p, hp, hidx⟩ := h.pend hp
        exact absurd (decide_eq_true hidx) (Bool.eq_false_iff.mp (Table.find?_none hnone hp))
    · next key p hfind =>
        obtain ⟨hget, hidx⟩ := Table.find?_some hfind
        have hidx : p.ourIndex = a := of_decide_eq_true hidx
        obtain ⟨hkey, hpend, -, -, hhs⟩ := h.pending hget
        obtain ⟨r', tR, tI, hr', hresp, hsend, hrecv, hb, -⟩ := reply_ok hS D x a b
        rw [hr] at hr'
        cases hr'
        rw [hidx] at hhs hpend
        simp only [hhs, hresp, hkey, hidx]
        have hset := nodeRel_complete (tI.keepalive S.crypto).2 h hr ⟨hsend, hrecv, hb⟩
        refine ⟨_, _, .complete hpend, hset, ?_⟩
        rw [route_one]
        exact .cons (.other (chatter_of_transport (encrypt_head S.crypto tI []))) .nil

theorem handle_other {pkt : Bytes} (hchat : Chatter (S.ident x.other).discoPub pkt)
    (hD : D env.index = env) (hok : env.sendOk = true) (h : NodeRel S D x me n) :
    Reacts S D x me.lp n .other env.index
      (handlePacket S.crypto S.features env (S.ident x) me.lp.targets me.st tick pkt
        (S.addr x.other)) := by
  rcases handlePacket_chatter S.crypto S.features env (S.ident x) me.lp.targets tick hchat h.knows
      hok (fun i e he => (h.tunnels he).1) with ⟨hkept, hout⟩ | ⟨hfree, hnone, hstart⟩
  · obtain ⟨ms, hms, hother⟩ := route_carries (S := S) (D := D) (x := x) (P := fun m => m = .other)
      fun d hd => ⟨.other, .other (by rw [Side.other_other]; exact hout d hd), rfl⟩
    exact ⟨n, ms, .ignore (fun a b heq => by cases heq) hother,
      nodeRel_kept h hkept h.knows, hms⟩
  · rw [hstart]
    have hpend : n.pend = none := by
      cases hn : n.pend with
      | none => rfl
      | some a =>
          obtain ⟨p, hp, -⟩ := h.pend hn
          rw [Table.contains, hp] at hfree
          cases hfree
    have hlink : n.link = none := by
      cases hn : n.link with
      | none => rfl
      | some l =>
          obtain ⟨e, he⟩ := h.link hn
          rw [hnone] at he
          cases he
    refine ⟨_, _, .start hpend hlink, nodeRel_start hS h hD, ?_⟩
    rw [startState, greeting_eq hS D hD, route_one]
    have hinit := Carries.init (S := S) (D := D) (x := x.other) (a := env.index)
    rw [Side.other_other] at hinit
    exact .cons hinit .nil

end Receive

/-! ## One step -/

/-- The event of the pairing protocol. -/
def pairEvent : TwoNodes.Event → Pairing.Event UInt32
  | .deliver i _ env => .deliver i env.index
  | .periodic x _ _ _ => .tick x

section Simulation

variable {S : Setup} (hS : S.Lawful) {D : UInt32 → Draws} {net : Network} {w w' : World}
  {s : Pair UInt32} (h : Rel S D w s)

include h

include hS in
theorem deliver_simulates {i : Nat} {tick : UInt32} {env : Draws} (hwf : Wf s)
    (hstep : S.step net w (.deliver i tick env) = some w') :
    ∃ D' s', Step Lost net s (.deliver i env.index) s' ∧ Rel S D' w' s' := by
  rw [Setup.step] at hstep
  split at hstep
  · cases hstep
  · next hfresh =>
      rw [not_or] at hfresh
      have hused : env.index ∉ s.used := by
        rw [h.used]
        exact hfresh.1
      have hok : env.sendOk = true := by simpa using hfresh.2
      split at hstep
      · cases hstep
      · next p hp =>
          -- from here on the new index means what this step drew
          have hrel : Rel S (Function.update D env.index env) w s := by
            refine rel_congr h hwf fun a ha => Function.update_of_ne ?_ ..
            intro heq
            subst heq
            exact hused ha
          have hD : Function.update D env.index env env.index = env := Function.update_self ..
          obtain ⟨⟨x, m⟩, hm, hcarry⟩ := forall₂_getElem? hrel.flight hp
          have hreact : Reacts S (Function.update D env.index env) x (w.party x).lp (s.node x)
              m env.index (handlePacket S.crypto S.features env (S.ident x)
                (w.party x).lp.targets (w.party x).st tick p.bytes (S.addr x.other)) ∧
              p.dst = x := by
            cases hcarry with
            | init => exact ⟨handle_init hS hD (hrel.node x), rfl⟩
            | resp hr => exact ⟨handle_resp hS hr (hrel.node x), rfl⟩
            | other hc => exact ⟨handle_other hS hc hD hok (hrel.node x), rfl⟩
          obtain ⟨⟨n, ms, hrecv, hnode, hout⟩, rfl⟩ := hreact
          rw [← Option.some.inj hstep]
          refine ⟨Function.update D env.index env,
            s.put p.dst n (net.after i s.flight) ms (env.index :: s.used),
            .deliver hm hused hrecv, ?_⟩
          rw [hrel.used]
          exact rel_put hrel (forall₂_after net i hrel.flight) hout hnode

theorem periodic_simulates {x : Side} {tick : UInt32} {hk : Housekeeping}
    {stunAddr : Option SocketAddr} (hstep : S.step net w (.periodic x tick hk stunAddr) = some w') :
    ∃ s', Step Lost net s (.tick x) s' ∧ Rel S D w' s' := by
  rw [Setup.step] at hstep
  rw [← Option.some.inj hstep]
  obtain ⟨hkept, htargets, rest, hsplit, hrest⟩ := runPeriodic_spec S.crypto S.features hk
    (S.ident x) (w.party x).st (w.party x).lp tick stunAddr
  have hout : ∀ d ∈ (runPeriodic S.crypto S.features hk (S.ident x) (w.party x).st
      (w.party x).lp tick stunAddr).2.2,
      d ∈ (retryAll (w.party x).st tick).2 ∨ Chatter (S.ident x).discoPub d.bytes := by
    intro d hd
    rw [hsplit] at hd
    exact (List.mem_append.mp hd).imp_right (hrest d)
  have hknows : Knows (runPeriodic S.crypto S.features hk (S.ident x) (w.party x).st
      (w.party x).lp tick stunAddr).2.1.targets (S.ident x.other) := by
    rw [htargets]
    exact knows_merged (h.node x).knows hk.incoming
  have hchat : ∀ d : Datagram, Chatter (S.ident x).discoPub d.bytes →
      Carries S D ⟨x.other, d.bytes⟩ (x.other, .other) := by
    intro d hd
    refine .other ?_
    rw [Side.other_other]
    exact hd
  rcases nodeRel_retry tick (h.node x) with ⟨hnode, hsent⟩ | ⟨hnode, hsent⟩
  · obtain ⟨ms, hms, hP⟩ := route_carries (S := S) (D := D) (x := x)
      (P := fun m => m = .other ∨ ∃ a, m = .init a ∧ (s.node x).pend = some a)
      fun d hd => by
        rcases hout d hd with hd | hd
        · obtain ⟨a, ha, hbytes⟩ := hsent d hd
          refine ⟨.init a, ?_, .inr ⟨a, rfl, ha⟩⟩
          have hinit := Carries.init (S := S) (D := D) (x := x.other) (a := a)
          rw [Side.other_other] at hinit
          rw [hbytes]
          exact hinit
        · exact ⟨.other, hchat d hd, .inl rfl⟩
    refine ⟨s.put x (s.node x) s.flight ms s.used, .tick (.keep hP), ?_⟩
    rw [h.used]
    exact rel_put h h.flight hms (nodeRel_kept hnode hkept hknows)
  · obtain ⟨ms, hms, hP⟩ := route_carries (S := S) (D := D) (x := x)
      (P := fun m => m = .other) fun d hd => by
        rcases hout d hd with hd | hd
        · rw [hsent] at hd
          cases hd
        · exact ⟨.other, hchat d hd, rfl⟩
    refine ⟨s.put x { s.node x with pend := none } s.flight ms s.used, .tick (.giveUp hP), ?_⟩
    rw [h.used]
    exact rel_put h h.flight hms (nodeRel_kept hnode hkept hknows)

include hS in
theorem step_simulates {ev : TwoNodes.Event} (hwf : Wf s) (hstep : S.step net w ev = some w') :
    ∃ D' s', Step Lost net s (pairEvent ev) s' ∧ Rel S D' w' s' := by
  cases ev with
  | deliver i tick env => exact deliver_simulates hS h hwf hstep
  | periodic x tick hk stunAddr => exact ⟨D, periodic_simulates h hstep⟩

end Simulation

/-- Two nodes that have just come up stand for two idle parties. -/
theorem rel_start {S : Setup} (D : UInt32 → Draws) {w : World} (h : S.Start w) :
    Rel S D w ⟨fun _ => ⟨none, none⟩, [], []⟩ where
  used := h.used.symm
  flight := by
    rw [h.net]
    exact .nil
  node x :=
    { pending := fun hp => by
        rw [h.pending x] at hp
        cases hp
      pend := fun hn => by cases hn
      tunnels := fun ht => by
        rw [h.tunnels x] at ht
        cases ht
      link := fun hl => by cases hl
      knows := h.knows x }

theorem start_idle : Pairing.Start (⟨fun _ => ⟨none, none⟩, [], []⟩ : Pair UInt32) :=
  ⟨fun _ => rfl, fun _ => rfl, rfl, rfl⟩

end TailscaleRust.Proofs
