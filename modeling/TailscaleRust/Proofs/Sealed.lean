import TailscaleRust.Proofs.Chatter

/-!
# Who a datagram is sealed for

A transport packet is sealed by one tunnel, which fixes who can open it, and
sent to an address, and the two are passed around apart: `handle_decrypted`
takes an index and a source, the periodic work reads both from the table.
`SealedBy` says of a datagram that one tunnel of a state sealed it and that
it goes to the address of this same tunnel. Every function that sends through
a tunnel has a lemma of this form, whatever the send counters stood at.

A ping likewise is sealed for one disco key, here `SealedPing`.
-/

namespace TailscaleRust.Proofs

open TailscaleRust.Lib TailscaleRust.Core TailscaleRust.Core.Wg
open TailscaleRust.Firmware TailscaleRust.Firmware.Dataplane

/-- Sealed by a tunnel, at some value of its counter, for an address. -/
def SealedTo (C : Crypto) (t : Tunnel) (dst : SocketAddr) (d : Datagram) : Prop :=
  ∃ n x, d = ⟨dst, ({ t with txCounter := n }.encrypt C x).1⟩

/-- Sealed by the tunnel under an index, for the address of this tunnel. -/
def SealedBy (C : Crypto) (st : State) (i : UInt32) (d : Datagram) : Prop :=
  ∃ e, st.tunnels.get? i = some e ∧ SealedTo C e.tun e.addr d

/-- A disco PING in which the node names itself, for one disco key. -/
def SealedPing (C : Crypto) (id : Identity) (discoPub : Key) (pkt : Bytes) : Prop :=
  ∃ txid nonce, Disco.sealPacket C id.discoPriv id.discoPub discoPub
    (Disco.pingPlaintext txid id.nodePub) nonce = .ok pkt

section Sealed

variable {C : Crypto} {t t' : Tunnel} {a : SocketAddr} {d : Datagram} {st st' : State}
  {i : UInt32}

theorem SealedTo.dst (h : SealedTo C t a d) : d.dst = a := by
  obtain ⟨n, x, rfl⟩ := h
  rfl

theorem SealedTo.transport (h : SealedTo C t a d) : d.bytes.head? = some msgTransport := by
  obtain ⟨n, x, rfl⟩ := h
  exact encrypt_head C _ x

theorem SealedBy.transport (h : SealedBy C st i d) : d.bytes.head? = some msgTransport := by
  obtain ⟨e, -, hsealed⟩ := h
  exact hsealed.transport

theorem sealedTo_encrypt (C : Crypto) (t : Tunnel) (a : SocketAddr) (x : Bytes) :
    SealedTo C t a ⟨a, (t.encrypt C x).1⟩ :=
  ⟨t.txCounter, x, rfl⟩

/-- The counter does not matter. -/
theorem SealedTo.of_keyPart (h : keyPart t' = keyPart t) (hd : SealedTo C t' a d) :
    SealedTo C t a d := by
  obtain ⟨n, x, rfl⟩ := hd
  have hset : { t' with txCounter := n } = { t with txCounter := n } :=
    congrArg (fun t : Tunnel => { t with txCounter := n }) h
  exact ⟨n, x, by rw [hset]⟩

/-- Entries with the same fixed part seal the same datagrams, for the same
address. -/
theorem SealedTo.of_fixedPart {e e' : TunnelEntry} (h : fixedPart e' = fixedPart e)
    (hd : SealedTo C e'.tun e'.addr d) : SealedTo C e.tun e.addr d := by
  rw [fixedPart_addr h] at hd
  exact hd.of_keyPart (congrArg (fun e => e.tun) h)

theorem SealedBy.of_fixed
    (h : (st'.tunnels.get? i).map fixedPart = (st.tunnels.get? i).map fixedPart)
    (hd : SealedBy C st' i d) : SealedBy C st i d := by
  obtain ⟨e', he', hsealed⟩ := hd
  rw [he'] at h
  obtain ⟨e, he, hfix⟩ := Option.map_eq_some_iff.mp h.symm
  exact ⟨e, he, hsealed.of_fixedPart hfix.symm⟩

theorem sealedBy_frame_iff (h : Frame st st') : SealedBy C st' i d ↔ SealedBy C st i d :=
  ⟨SealedBy.of_fixed (h.tunnels i), SealedBy.of_fixed (h.tunnels i).symm⟩

end Sealed

theorem isDisco_sealPacket {C : Crypto} {priv pub peer : Key} {pt : Bytes} {nonce : Arr 24}
    {pkt : Bytes} (h : Disco.sealPacket C priv pub peer pt nonce = .ok pkt) :
    Disco.isDisco pkt = true := by
  rw [Disco.sealPacket] at h
  split at h
  · cases h
  · cases h
    simp [Disco.isDisco, Disco.magic, slice]

theorem SealedPing.isDisco {C : Crypto} {id : Identity} {discoPub : Key} {pkt : Bytes}
    (h : SealedPing C id discoPub pkt) : Disco.isDisco pkt = true := by
  obtain ⟨txid, nonce, hseal⟩ := h
  exact isDisco_sealPacket hseal

/-! ## Sending through a tunnel -/

section Sending

variable (C : Crypto)

theorem encryptAll_sealed (dst : SocketAddr) (xs : List Bytes) (t : Tunnel) :
    ∀ d ∈ (encryptAll C t dst xs).1, SealedTo C t dst d := by
  induction xs generalizing t with
  | nil =>
      intro d hd
      cases hd
  | cons x xs ih =>
      intro d hd
      rw [encryptAll] at hd
      rcases List.mem_cons.mp hd with rfl | hd
      · exact sealedTo_encrypt C t dst x
      · exact (ih _ d hd).of_keyPart (encrypt_fixed C t x)

theorem sendInner_sealed {st : State} {i : UInt32} {dst : SocketAddr} {xs : List Bytes}
    {d : Datagram} (hd : d ∈ (st.sendInner C i dst xs).2) :
    ∃ e, st.tunnels.get? i = some e ∧ SealedTo C e.tun dst d := by
  rw [State.sendInner] at hd
  split at hd
  · cases hd
  · next e he => exact ⟨e, he, encryptAll_sealed C dst xs e.tun d hd⟩

/-- What is sent to the address of the tunnel, after steps that are framed. -/
theorem sendInner_sealedBy {st st' : State} (h : Frame st st') {i : UInt32} {dst : SocketAddr}
    (hat : (st.tunnels.get? i).map TunnelEntry.addr = some dst) {xs : List Bytes}
    {d : Datagram} (hd : d ∈ (st'.sendInner C i dst xs).2) : SealedBy C st i d := by
  obtain ⟨e', he', hsealed⟩ := sendInner_sealed C hd
  obtain ⟨e, he, rfl⟩ := Option.map_eq_some_iff.mp hat
  obtain ⟨e'', he'', hfix⟩ := h.get? he
  cases he'.symm.trans he''
  rw [← fixedPart_addr hfix] at hsealed
  exact ⟨e, he, hsealed.of_fixedPart hfix⟩

end Sending

/-! ## The replies to a decrypted packet -/

section Replies

variable {C : Crypto} {F : Features} {env : Draws} {st st' : State} {i : UInt32} {inner : Bytes}
  {src : SocketAddr} {d : Datagram}

theorem outboundInput_sealed (h : Frame st st')
    (hat : (st.tunnels.get? i).map TunnelEntry.addr = some src)
    (hd : d ∈ (outboundInput C F st' i inner src).2.1) : SealedBy C st i d := by
  rw [outboundInput] at hd
  split at hd
  · split at hd
    · cases hd
    · next ob _ =>
        have hset : Frame st' { st' with outbound := some (clientInput ob inner).1 } :=
          ⟨rfl, rfl, rfl, fun _ => rfl⟩
        exact sendInner_sealedBy C (h.trans hset) hat hd
  · cases hd

theorem icmpInput_sealed (h : Frame st st')
    (hat : (st.tunnels.get? i).map TunnelEntry.addr = some src) {st'' : State}
    {out : List Datagram} (hicmp : icmpInput C F st' i inner src = some (st'', out))
    (hd : d ∈ out) : SealedBy C st i d := by
  rw [icmpInput] at hicmp
  split at hicmp
  · obtain ⟨reply, -, heq⟩ := Option.map_eq_some_iff.mp hicmp
    have hsent : d ∈ (State.sendInner C st' i src [reply]).2 := by
      rw [heq]
      exact hd
    exact sendInner_sealedBy C h hat hsent
  · cases hicmp

theorem proxyInput_sealed (h : Frame st st')
    (hat : (st.tunnels.get? i).map TunnelEntry.addr = some src)
    (hd : d ∈ (proxyInput C F env st' i inner src).2.1) : SealedBy C st i d := by
  rw [proxyInput] at hd
  split at hd
  · simp only [] at hd
    split at hd
    · cases hd
    · have hset : Frame st' { st' with proxy :=
          (st'.proxy.handle F.proxyListenPort env.lanFetch inner env.proxyIss).2 } :=
        ⟨rfl, rfl, rfl, fun _ => rfl⟩
      exact sendInner_sealedBy C (h.trans hset) hat hd
  · cases hd

theorem httpInput_sealed (h : Frame st st')
    (hat : (st.tunnels.get? i).map TunnelEntry.addr = some src)
    (hd : d ∈ (httpInput C F env st' i inner src).2) : SealedBy C st i d := by
  rw [httpInput] at hd
  split at hd
  · split at hd
    · cases hd
    · next e _ =>
        have hserver := frame_modify st' i
          (f := fun e' => { e' with tcp := (e.tcp.handle inner env.serverIss).2 }) fun _ _ => rfl
        exact sendInner_sealedBy C (h.trans hserver) hat hd
  · cases hd

/-- The reply to a packet goes through its tunnel, if the packet came from the
address this has. -/
theorem serviceInput_sealed (hat : (st.tunnels.get? i).map TunnelEntry.addr = some src)
    (hd : d ∈ (serviceInput C F env st i inner src).2) : SealedBy C st i d := by
  have houtbound := outboundInput_frame C F st i inner src
  have hproxy := houtbound.trans
    (proxyInput_frame C F env (outboundInput C F st i inner src).1 i inner src)
  rw [serviceInput] at hd
  split at hd
  · cases hd
  · simp only [] at hd
    split at hd
    · exact outboundInput_sealed (Frame.refl st) hat hd
    · split at hd
      · next hicmp =>
          rcases List.mem_append.mp hd with hd | hd
          · exact outboundInput_sealed (Frame.refl st) hat hd
          · exact icmpInput_sealed houtbound hat hicmp hd
      · split at hd
        · rcases List.mem_append.mp hd with hd | hd
          · exact outboundInput_sealed (Frame.refl st) hat hd
          · exact proxyInput_sealed houtbound hat hd
        · rcases List.mem_append.mp hd with hd | hd
          · rcases List.mem_append.mp hd with hd | hd
            · exact outboundInput_sealed (Frame.refl st) hat hd
            · exact proxyInput_sealed houtbound hat hd
          · exact httpInput_sealed hproxy hat hd

/-- A decrypted packet moves its tunnel to its source first, so its replies go
where the tunnel is then taken to lead. -/
theorem handleDecrypted_sealed {id : Identity}
    (hd : d ∈ (handleDecrypted C F env id st i inner src).2) :
    SealedBy C (handleDecrypted C F env id st i inner src).1 i d := by
  cases he : st.tunnels.get? i with
  | none =>
      rw [handleDecrypted, he] at hd
      cases hd
  | some e =>
      rw [sealedBy_frame_iff (handleDecrypted_frame C F env id st i inner src he)]
      rw [handleDecrypted, he] at hd
      simp only [] at hd
      split at hd
      · cases hd
      · split at hd
        · cases hd
        · refine serviceInput_sealed ?_ hd
          rw [Table.get?_modify, if_pos rfl, he]
          rfl

end Replies

end TailscaleRust.Proofs
