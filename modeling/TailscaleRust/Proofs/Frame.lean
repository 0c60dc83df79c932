import TailscaleRust.Firmware.Periodic

/-!
# What a transport packet leaves alone

The handlers behind a decrypted packet send replies and advance counters and
TCP state. They never touch a handshake in flight, a key, an index, an
address or the set of tunnels. `Frame` says so for two states; it is
reflexive and transitive, every handler satisfies it, and so does everything
composed of handlers. What the periodic work does to the tunnels is framed
by the same relation.

The roaming update of `handle_decrypted` is outside the frame: it is the one
change to an address a transport packet can make, and it comes first.
-/

namespace TailscaleRust.Proofs

open TailscaleRust.Lib TailscaleRust.Core TailscaleRust.Core.Wg
open TailscaleRust.Core.Outbound TailscaleRust.Core.Tcp
open TailscaleRust.Firmware TailscaleRust.Firmware.Dataplane

/-- A tunnel without its send counter. -/
def keyPart (t : Tunnel) : Tunnel := { t with txCounter := 0 }

/-- An entry without its send counter and its TCP server. -/
def fixedPart (e : TunnelEntry) : TunnelEntry :=
  { e with tun := { e.tun with txCounter := 0 }, tcp := TcpServer.new }

structure Frame (st st' : State) : Prop where
  pending : st'.pending = st.pending
  confirmed : st'.confirmed = st.confirmed
  partner : st'.mdnsPartner = st.mdnsPartner
  tunnels : ∀ i, (st'.tunnels.get? i).map fixedPart = (st.tunnels.get? i).map fixedPart

theorem Frame.refl (st : State) : Frame st st :=
  ⟨rfl, rfl, rfl, fun _ => rfl⟩

theorem Frame.trans {a b c : State} (h : Frame a b) (h' : Frame b c) : Frame a c where
  pending := h'.pending.trans h.pending
  confirmed := h'.confirmed.trans h.confirmed
  partner := h'.partner.trans h.partner
  tunnels i := (h'.tunnels i).trans (h.tunnels i)

/-- The entry a framed step leaves under an index, and what it shares with
the entry before. -/
theorem Frame.get? {st st' : State} (h : Frame st st') {i : UInt32} {e : TunnelEntry}
    (he : st.tunnels.get? i = some e) :
    ∃ e', st'.tunnels.get? i = some e' ∧ fixedPart e' = fixedPart e := by
  have hi := h.tunnels i
  rw [he] at hi
  exact Option.map_eq_some_iff.mp hi

section FixedPart

variable {e e' : TunnelEntry}

theorem fixedPart_addr (h : fixedPart e' = fixedPart e) : e'.addr = e.addr :=
  congrArg (fun e => e.addr) h

theorem fixedPart_recvKey (h : fixedPart e' = fixedPart e) :
    e'.tun.recvKey = e.tun.recvKey :=
  congrArg (fun e => e.tun.recvKey) h

theorem fixedPart_sendKey (h : fixedPart e' = fixedPart e) :
    e'.tun.sendKey = e.tun.sendKey :=
  congrArg (fun e => e.tun.sendKey) h

theorem fixedPart_theirIndex (h : fixedPart e' = fixedPart e) :
    e'.tun.theirIndex = e.tun.theirIndex :=
  congrArg (fun e => e.tun.theirIndex) h

end FixedPart

/-- Rewriting one entry within its fixed part is framed. -/
theorem frame_modify (st : State) (i : UInt32) {f : TunnelEntry → TunnelEntry}
    (hf : ∀ e, st.tunnels.get? i = some e → fixedPart (f e) = fixedPart e) :
    Frame st { st with tunnels := st.tunnels.modify i f } where
  pending := rfl
  confirmed := rfl
  partner := rfl
  tunnels j := by
    rw [Table.get?_modify]
    split
    · next h =>
        subst h
        cases he : st.tunnels.get? j with
        | none => rfl
        | some e => exact congrArg some (hf e he)
    · rfl

/-! ## Sending through a tunnel -/

section Sending

variable (C : Crypto)

theorem encrypt_fixed (t : Tunnel) (x : Bytes) :
    { (t.encrypt C x).2 with txCounter := 0 } = { t with txCounter := 0 } := rfl

theorem encryptAll_fixed (dst : SocketAddr) (xs : List Bytes) (t : Tunnel) :
    { (encryptAll C t dst xs).2 with txCounter := 0 } = { t with txCounter := 0 } := by
  induction xs generalizing t with
  | nil => rfl
  | cons x xs ih =>
      rw [encryptAll]
      exact (ih _).trans (encrypt_fixed C t x)

theorem length_encryptAll (dst : SocketAddr) (xs : List Bytes) (t : Tunnel) :
    (encryptAll C t dst xs).1.length = xs.length := by
  induction xs generalizing t with
  | nil => rfl
  | cons x xs ih =>
      rw [encryptAll, List.length_cons, List.length_cons, ih]

theorem sendInner_nil (st : State) (i : UInt32) (dst : SocketAddr) :
    st.sendInner C i dst [] = (st, []) := by
  rw [State.sendInner]
  cases he : st.tunnels.get? i with
  | none => rfl
  | some e =>
      have hself : (st.tunnels.modify i fun e' => { e' with tun := e.tun }) = st.tunnels := by
        apply Table.modify_eq_self
        intro e' he'
        rw [Option.some.inj (he.symm.trans he')]
      simp only [encryptAll, hself]

theorem sendInner_frame (st : State) (i : UInt32) (dst : SocketAddr) (xs : List Bytes) :
    Frame st (st.sendInner C i dst xs).1 := by
  rw [State.sendInner]
  split
  · exact Frame.refl st
  · next e he =>
      apply frame_modify
      intro e' he'
      have hee : e' = e := Option.some.inj (he'.symm.trans he)
      subst hee
      have htun := encryptAll_fixed C dst xs e'.tun
      simp only [fixedPart, htun]

end Sending

/-! ## The handlers -/

section Handlers

variable (C : Crypto) (F : Features) (env : Draws)

theorem mdnsInput_frame {st st' : State} {i : UInt32} {inner : Bytes}
    (h : mdnsInput F st i inner = some st') : Frame st st' := by
  rw [mdnsInput] at h
  split at h
  · split at h
    · cases h
    · cases h
      exact ⟨rfl, rfl, rfl, fun _ => rfl⟩
  · cases h

theorem outboundInput_frame (st : State) (i : UInt32) (inner : Bytes) (src : SocketAddr) :
    Frame st (outboundInput C F st i inner src).1 := by
  rw [outboundInput]
  split
  · split
    · exact Frame.refl st
    · next ob hob =>
        have hset : Frame st { st with outbound := some (clientInput ob inner).1 } :=
          ⟨rfl, rfl, rfl, fun _ => rfl⟩
        exact hset.trans (sendInner_frame C _ i src _)
  · exact Frame.refl st

theorem icmpInput_frame {st st' : State} {i : UInt32} {inner : Bytes} {src : SocketAddr}
    {out : List Datagram} (h : icmpInput C F st i inner src = some (st', out)) :
    Frame st st' := by
  rw [icmpInput] at h
  split at h
  · obtain ⟨reply, -, hs⟩ := Option.map_eq_some_iff.mp h
    have hframe := sendInner_frame C st i src [reply]
    rwa [hs] at hframe
  · cases h

theorem proxyInput_frame (st : State) (i : UInt32) (inner : Bytes) (src : SocketAddr) :
    Frame st (proxyInput C F env st i inner src).1 := by
  rw [proxyInput]
  split
  · have hset : Frame st { st with proxy :=
        (st.proxy.handle F.proxyListenPort env.lanFetch inner env.proxyIss).2 } :=
      ⟨rfl, rfl, rfl, fun _ => rfl⟩
    simp only []
    split
    · exact hset
    · exact hset.trans (sendInner_frame C _ i src _)
  · exact Frame.refl st

theorem httpInput_frame (st : State) (i : UInt32) (inner : Bytes) (src : SocketAddr) :
    Frame st (httpInput C F env st i inner src).1 := by
  rw [httpInput]
  split
  · split
    · exact Frame.refl st
    · next e _ =>
        have hset : Frame st { st with tunnels := st.tunnels.modify i fun e' =>
            { e' with tcp := (e.tcp.handle inner env.serverIss).2 } } :=
          frame_modify st i fun _ _ => rfl
        exact hset.trans (sendInner_frame C _ i src _)
  · exact Frame.refl st

theorem serviceInput_frame (st : State) (i : UInt32) (inner : Bytes) (src : SocketAddr) :
    Frame st (serviceInput C F env st i inner src).1 := by
  rw [serviceInput]
  split
  · next st' h => exact mdnsInput_frame F h
  · have hout := outboundInput_frame C F st i inner src
    simp only []
    split
    · exact hout
    · split
      · next st' out h => exact hout.trans (icmpInput_frame C F h)
      · have hproxy := hout.trans (proxyInput_frame C F env _ i inner src)
        split
        · exact hproxy
        · exact hproxy.trans (httpInput_frame C F env _ i inner src)

/-- After `handle_decrypted` on an existing tunnel: the tunnel's address is
the packet's source, and everything else is framed. -/
theorem handleDecrypted_frame (id : Identity) (st : State) (i : UInt32) (inner : Bytes)
    (src : SocketAddr) {e : TunnelEntry} (he : st.tunnels.get? i = some e) :
    Frame { st with tunnels := st.tunnels.modify i fun e => { e with addr := src } }
      (handleDecrypted C F env id st i inner src).1 := by
  rw [handleDecrypted, he]
  simp only []
  split
  · exact Frame.refl _
  · split
    · exact Frame.refl _
    · exact serviceInput_frame C F env _ i inner src

theorem mdnsDrain_frame (ourIp partnerIp : Ipv4Addr) (partnerNode : Key)
    (payloads : List Bytes) (st : State) :
    Frame st (mdnsDrain C ourIp partnerIp partnerNode payloads st).1 := by
  induction payloads generalizing st with
  | nil => exact Frame.refl st
  | cons payload rest ih =>
      rw [mdnsDrain]
      split
      · exact ih st
      · exact (sendInner_frame C st _ _ _).trans (ih _)

end Handlers

/-! ## A new tunnel -/

/-- A new tunnel takes the place of what stood under its index, and of every
tunnel to its address. -/
theorem tunnels_insertTunnel (st : State) (i : UInt32) (tun : Tunnel) (addr : SocketAddr)
    (peer : Key) (j : UInt32) :
    (insertTunnel st i tun addr peer).tunnels.get? j =
      if j = i then some ⟨tun, addr, peer, Tcp.TcpServer.new⟩
      else (st.tunnels.get? j).filter fun e => e.addr ≠ addr := by
  rw [insertTunnel, Table.get?_insert, Table.get?_retain]

end TailscaleRust.Proofs
