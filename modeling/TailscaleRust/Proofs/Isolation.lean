import TailscaleRust.Proofs.Frame

/-!
# One tunnel's packets leave the others alone

Behind the decryption all tunnels share one function and one state: the
tunnel table, the outbound client and the mDNS channel. What the function
does for a packet depends on a small part of that state, its view of the
tunnel, and `localInput` computes it from the view alone. `handleDecrypted_eq`
says that the handler is `localInput` and a write of its result back to where
the view came from. That nothing else is touched can be read off, and two
runs that differ in packets of other peers cannot be told apart through the
view.
-/

namespace TailscaleRust.Proofs

open TailscaleRust.Lib TailscaleRust.Core TailscaleRust.Core.Wg
open TailscaleRust.Core.Icmp (echoReplyAny)
open TailscaleRust.Firmware TailscaleRust.Firmware.Dataplane

/-! ## The view of a tunnel -/

/-- What the handler looks at: the entry, whether its peer is the mDNS
partner, and the outbound client if its peer is the target. -/
structure View where
  entry : TunnelEntry
  partner : Bool
  client : Option OutboundRun

/-- What it does: the entry and the client afterwards, a payload for the mDNS
channel, and what it sends. -/
structure Local where
  entry : TunnelEntry
  client : Option OutboundRun
  reinject : Option Bytes
  out : List Datagram

/-- The client's part: itself, its segments, and whether that was all. -/
def clientPart (client : Option OutboundRun) (inner : Bytes) :
    Option OutboundRun × List Bytes × Bool :=
  match client with
  | none => (none, [], false)
  | some ob =>
      let (ob, segs, line) := clientInput ob inner
      (some ob, segs, !segs.isEmpty || line)

section Local

variable (C : Crypto) (env : Draws)

/-- The entry after sending packets through it. -/
def sendFrom (e : TunnelEntry) (src : SocketAddr) (xs : List Bytes) :
    TunnelEntry × List Datagram :=
  let (out, tun) := encryptAll C e.tun src xs
  ({ e with tun := tun }, out)

/-- The handlers behind the filter. -/
def localService (v : View) (inner : Bytes) (src : SocketAddr) : Local :=
  match if v.partner then udpPayloadToPort inner fwdPort else none with
  | some payload => ⟨v.entry, v.client, some payload, []⟩
  | none =>
      let (client, segs, handled) := clientPart v.client inner
      let (e, out) := sendFrom C v.entry src segs
      if handled then ⟨e, client, none, out⟩
      else
        match echoReplyAny inner with
        | some reply =>
            let (e, out') := sendFrom C e src [reply]
            ⟨e, client, none, out ++ out'⟩
        | none =>
            let (replies, tcp) := e.tcp.handle inner env.serverIss
            let (e, out') := sendFrom C { e with tcp := tcp } src replies
            ⟨e, client, none, out ++ out'⟩

def localInput (id : Identity) (v : View) (inner : Bytes) (src : SocketAddr) : Local :=
  let v := { v with entry := { v.entry with addr := src } }
  if inner = [] then ⟨v.entry, v.client, none, []⟩
  else if !srcAllowed id.allowedSrcs inner then ⟨v.entry, v.client, none, []⟩
  else localService C env v inner src

end Local

/-- The view of an entry in a state. -/
def viewOf (st : State) (e : TunnelEntry) : View where
  entry := e
  partner := e.peerNode = st.mdnsPartner
  client := st.outbound.filter fun o => o.cfg.targetNode = e.peerNode

/-- Replace the entry under an index. -/
def putEntry (st : State) (i : UInt32) (e : TunnelEntry) : State :=
  { st with tunnels := st.tunnels.modify i fun _ => e }

/-- Write a result back. -/
def writeBack (st : State) (i : UInt32) (v : View) (l : Local) : State :=
  { putEntry st i l.entry with
    outbound := if v.client.isSome then l.client else st.outbound
    mdnsReinject := st.mdnsReinject.map fun q => q ++ l.reinject.toList }

/-! ## The handler in these terms -/

section Spec

variable (C : Crypto) (env : Draws) {st : State} {i : UInt32} {e₀ : TunnelEntry}
  {src : SocketAddr}

theorem get?_putEntry (he₀ : st.tunnels.get? i = some e₀) (e : TunnelEntry) :
    (putEntry st i e).tunnels.get? i = some e := by
  rw [putEntry, Table.get?_modify, if_pos rfl, he₀, Option.map_some]

theorem putEntry_modify (e : TunnelEntry) (f : TunnelEntry → TunnelEntry) :
    { putEntry st i e with tunnels := (putEntry st i e).tunnels.modify i f } =
      putEntry st i (f e) := by
  simp only [putEntry, Table.modify_modify]

theorem sendInner_putEntry (he₀ : st.tunnels.get? i = some e₀) (e : TunnelEntry)
    (xs : List Bytes) :
    (putEntry st i e).sendInner C i src xs =
      (putEntry st i (sendFrom C e src xs).1, (sendFrom C e src xs).2) := by
  simp only [State.sendInner, get?_putEntry he₀, putEntry_modify, sendFrom]

theorem isTarget_putEntry (he₀ : st.tunnels.get? i = some e₀) (e : TunnelEntry) :
    isTarget (putEntry st i e) i =
      (st.outbound.filter fun o => o.cfg.targetNode = e.peerNode).isSome := by
  simp only [isTarget, get?_putEntry he₀]
  cases hob : st.outbound with
  | none => simp only [putEntry, hob, Option.filter_none, Option.isSome_none]
  | some o =>
      simp only [putEntry, hob, Option.filter_some]
      split
      · next h => exact h
      · next h => simpa using h

theorem mdnsInput_putEntry (he₀ : st.tunnels.get? i = some e₀) (e : TunnelEntry)
    (inner : Bytes) :
    mdnsInput defaultFeatures (putEntry st i e) i inner =
      (if e.peerNode = st.mdnsPartner then udpPayloadToPort inner fwdPort else none).map
        fun payload => { putEntry st i e with
          mdnsReinject := st.mdnsReinject.map fun q => q ++ [payload] } := by
  have hpartner : (putEntry st i e).mdnsPartner = st.mdnsPartner := rfl
  simp only [mdnsInput, defaultFeatures, get?_putEntry he₀, Option.map_some, hpartner,
    Option.some.injEq, true_and]
  split
  · cases udpPayloadToPort inner fwdPort with
    | none => rfl
    | some payload => rfl
  · rfl

theorem outboundInput_putEntry (he₀ : st.tunnels.get? i = some e₀) (e : TunnelEntry)
    (inner : Bytes) (client : Option OutboundRun)
    (hclient : client = st.outbound.filter fun o => o.cfg.targetNode = e.peerNode) :
    outboundInput C defaultFeatures (putEntry st i e) i inner src =
      (putEntry
        { st with outbound :=
            if client.isSome then (clientPart client inner).1 else st.outbound }
        i (sendFrom C e src (clientPart client inner).2.1).1,
       (sendFrom C e src (clientPart client inner).2.1).2,
       (clientPart client inner).2.2) := by
  simp only [outboundInput, isTarget_putEntry he₀, ← hclient, defaultFeatures, true_and]
  cases hcl : client with
  | none => rfl
  | some o =>
      obtain ⟨hob, -⟩ := Option.filter_eq_some_iff.mp (hclient.symm.trans hcl)
      have hput : (putEntry st i e).outbound = some o := hob
      let st₁ : State := { st with outbound := some (clientInput o inner).1 }
      have he₁ : st₁.tunnels.get? i = some e₀ := he₀
      have hsend : (putEntry st₁ i e).sendInner C i src (clientInput o inner).2.1 = _ :=
        sendInner_putEntry C he₁ e _
      simp only [Option.isSome_some, if_true, hput]
      exact congrArg (fun r => (r.1, r.2, _)) hsend

theorem icmpInput_putEntry (he₀ : st.tunnels.get? i = some e₀) (e : TunnelEntry)
    (inner : Bytes) :
    icmpInput C defaultFeatures (putEntry st i e) i inner src =
      (echoReplyAny inner).map fun reply =>
        (putEntry st i (sendFrom C e src [reply]).1, (sendFrom C e src [reply]).2) := by
  simp only [icmpInput, defaultFeatures, if_true, sendInner_putEntry C he₀]

variable (src) in
theorem httpInput_putEntry (he₀ : st.tunnels.get? i = some e₀) (e : TunnelEntry)
    (inner : Bytes) :
    httpInput C defaultFeatures env (putEntry st i e) i inner src =
      let r := e.tcp.handle inner env.serverIss
      (putEntry st i (sendFrom C { e with tcp := r.2 } src r.1).1,
       (sendFrom C { e with tcp := r.2 } src r.1).2) := by
  simp only [httpInput, defaultFeatures, if_true, get?_putEntry he₀, putEntry_modify,
    sendInner_putEntry C he₀]

theorem writeBack_none (v : View) (e : TunnelEntry) (client : Option OutboundRun)
    (out : List Datagram) :
    writeBack st i v ⟨e, client, none, out⟩ =
      putEntry { st with outbound := if v.client.isSome then client else st.outbound } i e := by
  simp [writeBack, putEntry]

theorem outbound_keep (e : TunnelEntry) :
    (if (viewOf st e).client.isSome then (viewOf st e).client else st.outbound) =
      st.outbound := by
  split
  · next h =>
      obtain ⟨o, ho⟩ := Option.isSome_iff_exists.mp h
      rw [ho, (Option.filter_eq_some_iff.mp ho).1]
  · rfl

theorem serviceInput_putEntry (he₀ : st.tunnels.get? i = some e₀) (e : TunnelEntry)
    (inner : Bytes) :
    serviceInput C defaultFeatures env (putEntry st i e) i inner src =
      (writeBack st i (viewOf st e) (localService C env (viewOf st e) inner src),
       (localService C env (viewOf st e) inner src).out) := by
  have hpartner : (if (viewOf st e).partner then udpPayloadToPort inner fwdPort else none) =
      if e.peerNode = st.mdnsPartner then udpPayloadToPort inner fwdPort else none := by
    simp only [viewOf, decide_eq_true_eq]
  simp only [serviceInput, localService, mdnsInput_putEntry he₀ e inner, hpartner]
  cases if e.peerNode = st.mdnsPartner then udpPayloadToPort inner fwdPort else none with
  | some payload =>
      simp only [Option.map_some, writeBack, outbound_keep]
      rfl
  | none =>
      simp only [Option.map_none,
        outboundInput_putEntry C he₀ e inner (viewOf st e).client rfl]
      cases (clientPart (viewOf st e).client inner).2.2 with
      | true =>
          simp only [if_true, writeBack_none]
          rfl
      | false =>
          have he₁ : ({ st with outbound := if (viewOf st e).client.isSome then
              (clientPart (viewOf st e).client inner).1 else st.outbound } :
              State).tunnels.get? i = some e₀ := he₀
          have hview : (viewOf st e).entry = e := rfl
          simp only [Bool.false_eq_true, if_false, icmpInput_putEntry C he₁, hview]
          cases echoReplyAny inner with
          | some reply => simp only [Option.map_some, writeBack_none]
          | none =>
              simp only [Option.map_none, proxyInput, defaultFeatures, Bool.false_eq_true,
                if_false, List.append_nil, writeBack_none]
              have hhttp := httpInput_putEntry C env src he₁
                (sendFrom C e src (clientPart (viewOf st e).client inner).2.1).1 inner
              simp only [defaultFeatures] at hhttp
              rw [hhttp]

/-- A packet is handled by the view of its tunnel. -/
theorem handleDecrypted_eq (id : Identity) (inner : Bytes) (src : SocketAddr) {e : TunnelEntry}
    (he : st.tunnels.get? i = some e) :
    handleDecrypted C defaultFeatures env id st i inner src =
      (writeBack st i (viewOf st e) (localInput C env id (viewOf st e) inner src),
       (localInput C env id (viewOf st e) inner src).out) := by
  have hroam : { st with tunnels := st.tunnels.modify i fun e => { e with addr := src } } =
      putEntry st i { e with addr := src } := by
    have hcongr : st.tunnels.modify i (fun e => { e with addr := src }) =
        st.tunnels.modify i fun _ => { e with addr := src } := by
      apply Table.modify_congr
      intro e' he'
      rw [Option.some.inj (he'.symm.trans he)]
    rw [putEntry, hcongr]
  simp only [handleDecrypted, he, hroam, localInput]
  split
  · simp only [writeBack_none, outbound_keep]
    rfl
  · split
    · simp only [writeBack_none, outbound_keep]
      rfl
    · exact serviceInput_putEntry C env he { e with addr := src } inner

end Spec

/-! ## What is sent, and what a view cannot reach -/

section Effects

variable (C : Crypto) (env : Draws)

theorem encryptAll_append (dst : SocketAddr) (xs ys : List Bytes) (t : Tunnel) :
    encryptAll C t dst (xs ++ ys) =
      ((encryptAll C t dst xs).1 ++ (encryptAll C (encryptAll C t dst xs).2 dst ys).1,
       (encryptAll C (encryptAll C t dst xs).2 dst ys).2) := by
  induction xs generalizing t with
  | nil => rfl
  | cons x xs ih => simp only [encryptAll, List.cons_append, ih]

/-- The counter moves by one per packet, and nothing else moves. -/
theorem encryptAll_tunnel (dst : SocketAddr) (xs : List Bytes) (t : Tunnel) :
    (encryptAll C t dst xs).2 =
      { t with txCounter := t.txCounter + UInt64.ofNat xs.length } := by
  induction xs generalizing t with
  | nil =>
      have hzero : t.txCounter + UInt64.ofNat 0 = t.txCounter := UInt64.add_zero _
      simp only [encryptAll, List.length_nil, hzero]
  | cons x xs ih =>
      rw [encryptAll]
      refine (ih _).trans ?_
      rw [List.length_cons, UInt64.ofNat_add, UInt64.add_comm (UInt64.ofNat _), ← UInt64.add_assoc]
      rfl

/-- The packet at a place carries the counter of its place. -/
theorem encryptAll_packet (dst : SocketAddr) {xs : List Bytes} {t : Tunnel} {k : Nat}
    {d : Datagram} (h : (encryptAll C t dst xs).1[k]? = some d) :
    d.dst = dst ∧ ∃ x, d.bytes =
      (Tunnel.encrypt C { t with txCounter := t.txCounter + UInt64.ofNat k } x).1 := by
  induction xs generalizing t k with
  | nil => cases h
  | cons x xs ih =>
      rw [encryptAll] at h
      cases k with
      | zero =>
          have hzero : t.txCounter + UInt64.ofNat 0 = t.txCounter := UInt64.add_zero _
          cases h
          refine ⟨rfl, x, ?_⟩
          rw [hzero]
          rfl
      | succ k =>
          obtain ⟨hdst, y, hy⟩ := ih (List.getElem?_cons_succ.symm.trans h)
          refine ⟨hdst, y, hy.trans ?_⟩
          rw [UInt64.ofNat_add, UInt64.add_comm (UInt64.ofNat k), ← UInt64.add_assoc]
          rfl

/-- Everything goes out through the entry's tunnel, in one sequence. -/
theorem localService_sends (v : View) (inner : Bytes) (src : SocketAddr) :
    ∃ xs, encryptAll C v.entry.tun src xs =
      ((localService C env v inner src).out, (localService C env v inner src).entry.tun) := by
  rw [localService]
  split
  · exact ⟨[], rfl⟩
  · simp only [sendFrom]
    split
    · exact ⟨_, rfl⟩
    · split
      · exact ⟨_, encryptAll_append C src _ _ v.entry.tun⟩
      · exact ⟨_, encryptAll_append C src _ _ v.entry.tun⟩

theorem localInput_sends (id : Identity) (v : View) (inner : Bytes) (src : SocketAddr) :
    ∃ xs, encryptAll C v.entry.tun src xs =
      ((localInput C env id v inner src).out, (localInput C env id v inner src).entry.tun) := by
  simp only [localInput]
  split
  · exact ⟨[], rfl⟩
  · split
    · exact ⟨[], rfl⟩
    · exact localService_sends C env { v with entry := { v.entry with addr := src } } inner src

theorem localInput_reinject (id : Identity) {v : View} (inner : Bytes) (src : SocketAddr)
    (hv : v.partner = false) : (localInput C env id v inner src).reinject = none := by
  simp only [localInput]
  split
  · rfl
  · split
    · rfl
    · simp only [localService, hv, Bool.false_eq_true, if_false]
      split
      · rfl
      · split
        · rfl
        · rfl

theorem clientInput_cfg (ob : OutboundRun) (inner : Bytes) :
    (clientInput ob inner).1.cfg = ob.cfg := by
  rw [clientInput]
  split
  · rfl
  · split
    · rfl
    · rfl

theorem clientPart_cfg (client : Option OutboundRun) (inner : Bytes) :
    (clientPart client inner).1.map OutboundRun.cfg = client.map OutboundRun.cfg := by
  cases client with
  | none => rfl
  | some ob => exact congrArg some (clientInput_cfg ob inner)

/-- The client keeps its target. -/
theorem localInput_cfg (id : Identity) (v : View) (inner : Bytes) (src : SocketAddr) :
    (localInput C env id v inner src).client.map OutboundRun.cfg =
      v.client.map OutboundRun.cfg := by
  simp only [localInput]
  split
  · rfl
  · split
    · rfl
    · rw [localService]
      split
      · rfl
      · simp only []
        split
        · exact clientPart_cfg v.client inner
        · split
          · exact clientPart_cfg v.client inner
          · exact clientPart_cfg v.client inner

end Effects

/-- What a packet on the tunnel `i` can do to a state and to the wire. -/
structure Confined (C : Crypto) (i : UInt32) (src : SocketAddr) (st st' : State)
    (out : List Datagram) : Prop where
  pending : st'.pending = st.pending
  confirmed : st'.confirmed = st.confirmed
  keys : ∀ j, st'.tunnels.contains j = st.tunnels.contains j
  others : ∀ j, j ≠ i → st'.tunnels.get? j = st.tunnels.get? j
  counter : (st'.tunnels.get? i).map TunnelEntry.tun = (st.tunnels.get? i).map fun e =>
    { e.tun with txCounter := e.tun.txCounter + UInt64.ofNat out.length }
  sent : ∀ k d, out[k]? = some d → d.dst = src ∧ ∃ e x, st.tunnels.get? i = some e ∧
    d.bytes = (Tunnel.encrypt C
      { e.tun with txCounter := e.tun.txCounter + UInt64.ofNat k } x).1
  client : st'.outbound ≠ st.outbound → ∃ e o, st.tunnels.get? i = some e ∧
    st.outbound = some o ∧ o.cfg.targetNode = e.peerNode
  mdns : st'.mdnsReinject ≠ st.mdnsReinject →
    ∃ e, st.tunnels.get? i = some e ∧ e.peerNode = st.mdnsPartner

theorem Confined.none {C : Crypto} {i : UInt32} {src : SocketAddr} {st : State}
    (he : st.tunnels.get? i = none) : Confined C i src st st [] where
  pending := rfl
  confirmed := rfl
  keys _ := rfl
  others _ _ := rfl
  counter := by rw [he, Option.map_none, Option.map_none]
  sent k d hd := by cases hd
  client hne := absurd rfl hne
  mdns hne := absurd rfl hne

/-- Writing back what was computed from the view stays within its tunnel. -/
theorem writeBack_confined (C : Crypto) (env : Draws) (id : Identity) {st : State} {i : UInt32}
    {e : TunnelEntry} (he : st.tunnels.get? i = some e) {inner : Bytes} {src : SocketAddr}
    {l : Local} (hl : l = localInput C env id (viewOf st e) inner src) :
    Confined C i src st (writeBack st i (viewOf st e) l) l.out := by
  obtain ⟨xs, hxs⟩ := localInput_sends C env id (viewOf st e) inner src
  rw [← hl] at hxs
  obtain ⟨hout, htun⟩ := Prod.ext_iff.mp hxs
  simp only [] at hout htun
  have hget : ∀ j, (writeBack st i (viewOf st e) l).tunnels.get? j =
      if j = i then some l.entry else st.tunnels.get? j := by
    intro j
    rw [writeBack, putEntry, Table.get?_modify]
    split
    · next hj => rw [hj, he, Option.map_some]
    · rfl
  constructor
  case pending => rfl
  case confirmed => rfl
  case others =>
    intro j hj
    rw [hget, if_neg hj]
  case keys =>
    intro j
    rw [Table.contains, Table.contains, hget]
    split
    · next hj => rw [hj, he, Option.isSome_some, Option.isSome_some]
    · rfl
  case counter =>
    rw [hget, if_pos rfl, he, Option.map_some, Option.map_some, ← htun, encryptAll_tunnel,
      ← hout, length_encryptAll]
    rfl
  case sent =>
    intro k d hd
    rw [← hout] at hd
    obtain ⟨hdst, x, hx⟩ := encryptAll_packet C src hd
    exact ⟨hdst, e, x, he, hx⟩
  case client =>
    intro hne
    simp only [writeBack] at hne
    split at hne
    · next hsome =>
        obtain ⟨o, ho⟩ := Option.isSome_iff_exists.mp hsome
        obtain ⟨hob, htarget⟩ := Option.filter_eq_some_iff.mp ho
        exact ⟨e, o, he, hob, of_decide_eq_true htarget⟩
    · exact absurd rfl hne
  case mdns =>
    intro hne
    by_cases hpartner : e.peerNode = st.mdnsPartner
    · exact ⟨e, he, hpartner⟩
    · have hview : (viewOf st e).partner = false := decide_eq_false hpartner
      have hnone := localInput_reinject C env id inner src hview
      rw [← hl] at hnone
      simp [writeBack, hnone] at hne

theorem handleDecrypted_confined (C : Crypto) (env : Draws) (id : Identity) (st : State)
    (i : UInt32) (inner : Bytes) (src : SocketAddr) :
    Confined C i src st (handleDecrypted C defaultFeatures env id st i inner src).1
      (handleDecrypted C defaultFeatures env id st i inner src).2 := by
  cases he : st.tunnels.get? i with
  | none =>
      simp only [handleDecrypted, he]
      exact Confined.none he
  | some e =>
      rw [handleDecrypted_eq C env id inner src he]
      exact writeBack_confined C env id he rfl

/-! ## Two runs -/

/-- A decrypted packet with its tunnel and what its handling draws. -/
structure InnerPacket where
  index : UInt32
  inner : Bytes
  src : SocketAddr
  env : Draws

section Runs

variable (C : Crypto) (id : Identity)

/-- What packets handled one after the other send on one tunnel. -/
def repliesOn (i : UInt32) : State → List InnerPacket → List Datagram
  | _, [] => []
  | st, p :: ps =>
      let (st, out) := handleDecrypted C defaultFeatures p.env id st p.index p.inner p.src
      (if p.index = i then out else []) ++ repliesOn i st ps

/-- Is this a tunnel of the peer? -/
def ofPeer (st : State) (peer : Key) (i : UInt32) : Bool :=
  (st.tunnels.get? i).any fun e => e.peerNode = peer

/-- Two states that look the same through every view of the peer. -/
structure AlikeFor (peer : Key) (st st' : State) : Prop where
  partner : st'.mdnsPartner = st.mdnsPartner
  entries : ∀ i, (st'.tunnels.get? i).filter (fun e => e.peerNode = peer) =
    (st.tunnels.get? i).filter fun e => e.peerNode = peer
  client : st'.outbound.filter (fun o => o.cfg.targetNode = peer) =
    st.outbound.filter fun o => o.cfg.targetNode = peer

variable {peer : Key} {st st' : State}

theorem AlikeFor.refl (peer : Key) (st : State) : AlikeFor peer st st :=
  ⟨rfl, fun _ => rfl, rfl⟩

theorem AlikeFor.trans {st'' : State} (h : AlikeFor peer st st') (h' : AlikeFor peer st' st'') :
    AlikeFor peer st st'' where
  partner := h'.partner.trans h.partner
  entries i := (h'.entries i).trans (h.entries i)
  client := h'.client.trans h.client

/-- The peer's entries are the same entries. -/
theorem AlikeFor.get? (h : AlikeFor peer st st') {i : UInt32} {e : TunnelEntry}
    (he : st.tunnels.get? i = some e) (hpeer : e.peerNode = peer) :
    st'.tunnels.get? i = some e := by
  have hentry := h.entries i
  rw [he, Option.filter_some, if_pos (decide_eq_true hpeer)] at hentry
  exact (Option.filter_eq_some_iff.mp hentry).1

theorem AlikeFor.viewOf (h : AlikeFor peer st st') {e : TunnelEntry} (hpeer : e.peerNode = peer) :
    viewOf st' e = viewOf st e := by
  simp only [Proofs.viewOf, h.partner, hpeer, h.client]

theorem AlikeFor.symm (h : AlikeFor peer st st') : AlikeFor peer st' st where
  partner := h.partner.symm
  entries i := (h.entries i).symm
  client := h.client.symm

theorem peerNode_handleDecrypted (env : Draws) (i : UInt32) (inner : Bytes) (src : SocketAddr)
    (j : UInt32) :
    ((handleDecrypted C defaultFeatures env id st i inner src).1.tunnels.get? j).map
        TunnelEntry.peerNode =
      (st.tunnels.get? j).map TunnelEntry.peerNode := by
  cases he : st.tunnels.get? i with
  | none => simp only [handleDecrypted, he]
  | some e =>
      have hframe := (handleDecrypted_frame C defaultFeatures env id st i inner src he).tunnels j
      have hpeer := congrArg (Option.map TunnelEntry.peerNode) hframe
      rw [Option.map_map, Option.map_map, Table.get?_modify] at hpeer
      refine hpeer.trans ?_
      split
      · rw [Option.map_map]
        rfl
      · rfl

theorem ofPeer_handleDecrypted (env : Draws) (i : UInt32) (inner : Bytes) (src : SocketAddr)
    (j : UInt32) :
    ofPeer (handleDecrypted C defaultFeatures env id st i inner src).1 peer j =
      ofPeer st peer j := by
  have hmap : ∀ st : State, ofPeer st peer j =
      ((st.tunnels.get? j).map TunnelEntry.peerNode).any fun k => k = peer := by
    intro st
    rw [Option.any_map]
    rfl
  rw [hmap, hmap, peerNode_handleDecrypted]

theorem ofPeer_iff {i : UInt32} :
    ofPeer st peer i = true ↔ ∃ e, st.tunnels.get? i = some e ∧ e.peerNode = peer := by
  simp only [ofPeer, Option.any_eq_true, decide_eq_true_eq]

/-- A packet of another peer changes no view of this one. -/
theorem handleDecrypted_other (env : Draws) {i : UInt32} (inner : Bytes) (src : SocketAddr)
    (hi : ofPeer st peer i = false) :
    AlikeFor peer st (handleDecrypted C defaultFeatures env id st i inner src).1 := by
  cases he : st.tunnels.get? i with
  | none =>
      simp only [handleDecrypted, he]
      exact AlikeFor.refl peer st
  | some e =>
      have hne : e.peerNode ≠ peer := by
        intro heq
        rw [ofPeer_iff.mpr ⟨e, he, heq⟩] at hi
        cases hi
      have hkeep : ((handleDecrypted C defaultFeatures env id st i inner src).1.tunnels.get? i).map
          TunnelEntry.peerNode = _ := peerNode_handleDecrypted C id env i inner src i
      rw [he, Option.map_some] at hkeep
      obtain ⟨e', he', hpeer⟩ := Option.map_eq_some_iff.mp hkeep
      have hother := (handleDecrypted_confined C env id st i inner src).others
      refine ⟨by rw [handleDecrypted_eq C env id inner src he]; rfl, ?_, ?_⟩
      · intro j
        by_cases hj : j = i
        · rw [hj, he, he', Option.filter_some, Option.filter_some, if_neg, if_neg]
          · simpa using hne
          · simpa [hpeer] using hne
        · rw [hother j hj]
      · rw [handleDecrypted_eq C env id inner src he]
        simp only [writeBack]
        split
        · next hsome =>
            obtain ⟨o, ho⟩ := Option.isSome_iff_exists.mp hsome
            have hcfg := localInput_cfg C env id (viewOf st e) inner src
            rw [ho, Option.map_some] at hcfg
            obtain ⟨o', ho', hcfg'⟩ := Option.map_eq_some_iff.mp hcfg
            obtain ⟨hob, htarget⟩ := Option.filter_eq_some_iff.mp ho
            have htarget' : o.cfg.targetNode = e.peerNode := of_decide_eq_true htarget
            rw [ho', hob, Option.filter_some, Option.filter_some, if_neg, if_neg]
            · simpa [htarget'] using hne
            · simpa [hcfg', htarget'] using hne
        · rfl

/-- A packet of this peer is handled alike in both. -/
theorem handleDecrypted_same (env : Draws) {i : UInt32} (inner : Bytes) (src : SocketAddr)
    (h : AlikeFor peer st st') (hi : ofPeer st peer i = true) :
    (handleDecrypted C defaultFeatures env id st' i inner src).2 =
      (handleDecrypted C defaultFeatures env id st i inner src).2 ∧
    AlikeFor peer (handleDecrypted C defaultFeatures env id st i inner src).1
      (handleDecrypted C defaultFeatures env id st' i inner src).1 := by
  obtain ⟨e, he, hpeer⟩ := ofPeer_iff.mp hi
  have he' := h.get? he hpeer
  rw [handleDecrypted_eq C env id inner src he, handleDecrypted_eq C env id inner src he',
    h.viewOf hpeer]
  refine ⟨rfl, h.partner, ?_, ?_⟩
  · intro j
    simp only [writeBack, putEntry, Table.get?_modify]
    split
    · next hj => rw [hj, he, he']
    · exact h.entries j
  · simp only [writeBack]
    split
    · rfl
    · exact h.client

/-- The packets of other peers can be left out. -/
theorem repliesOn_filter {i : UInt32} (ps : List InnerPacket) (h : AlikeFor peer st st')
    (hi : ofPeer st peer i = true) :
    repliesOn C id i st' (ps.filter fun p => ofPeer st peer p.index) =
      repliesOn C id i st ps := by
  induction ps generalizing st st' with
  | nil => rfl
  | cons p ps ih =>
      have hkeep : ∀ j, ofPeer (handleDecrypted C defaultFeatures p.env id st p.index p.inner
          p.src).1 peer j = ofPeer st peer j :=
        ofPeer_handleDecrypted C id p.env p.index p.inner p.src
      have hrest : ∀ st', AlikeFor peer
          (handleDecrypted C defaultFeatures p.env id st p.index p.inner p.src).1 st' →
          repliesOn C id i st' (ps.filter fun p => ofPeer st peer p.index) =
            repliesOn C id i
              (handleDecrypted C defaultFeatures p.env id st p.index p.inner p.src).1 ps := by
        intro st' halike
        rw [← ih halike ((hkeep i).trans hi)]
        simp only [hkeep]
      rw [repliesOn, List.filter_cons]
      cases hp : ofPeer st peer p.index with
      | false =>
          have hne : p.index ≠ i := by
            intro heq
            rw [heq, hi] at hp
            cases hp
          have halike := (handleDecrypted_other C id p.env p.inner p.src hp).symm.trans h
          simp only [Bool.false_eq_true, if_false, if_neg hne, List.nil_append]
          exact hrest _ halike
      | true =>
          obtain ⟨hout, halike⟩ := handleDecrypted_same C id p.env p.inner p.src h hp
          simp only [if_true, repliesOn, hout]
          rw [hrest _ halike]

/-- Handling one tunnel's packet does not touch the others, and what is sent
on a tunnel does not depend on the packets of a tunnel of another peer. -/
theorem tunnels_isolated (st : State) :
    (∀ env i inner src, Confined C i src st
      (handleDecrypted C defaultFeatures env id st i inner src).1
      (handleDecrypted C defaultFeatures env id st i inner src).2) ∧
    ∀ i j e f, st.tunnels.get? i = some e → st.tunnels.get? j = some f →
      e.peerNode ≠ f.peerNode → ∀ ps ps' : List InnerPacket,
        ps.filter (fun p => p.index ≠ j) = ps'.filter (fun p => p.index ≠ j) →
        repliesOn C id i st ps = repliesOn C id i st ps' := by
  refine ⟨fun env i inner src => handleDecrypted_confined C env id st i inner src, ?_⟩
  intro i j e f he hf hne ps ps' hps
  have hi : ofPeer st e.peerNode i = true := ofPeer_iff.mpr ⟨e, he, rfl⟩
  have hj : ofPeer st e.peerNode j = false := by
    rw [Bool.eq_false_iff]
    intro hj
    obtain ⟨f', hf', hpeer⟩ := ofPeer_iff.mp hj
    rw [Option.some.inj (hf'.symm.trans hf)] at hpeer
    exact hne hpeer.symm
  -- leaving out the packets of every other peer leaves out those of `j`
  have hfilter : ∀ qs : List InnerPacket, qs.filter (fun p => ofPeer st e.peerNode p.index) =
      (qs.filter fun p => p.index ≠ j).filter fun p => ofPeer st e.peerNode p.index := by
    intro qs
    rw [List.filter_filter]
    apply List.filter_congr
    intro p _
    by_cases hp : p.index = j
    · rw [hp, hj, Bool.false_and]
    · rw [decide_eq_true hp, Bool.and_true]
  have hself := AlikeFor.refl e.peerNode st
  rw [← repliesOn_filter C id ps hself hi, ← repliesOn_filter C id ps' hself hi, hfilter ps,
    hps, ← hfilter ps']

end Runs

end TailscaleRust.Proofs
