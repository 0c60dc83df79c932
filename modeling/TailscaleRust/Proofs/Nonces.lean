import TailscaleRust.Lib.Nonces
import TailscaleRust.Proofs.Tables

/-!
# No nonce twice

Every transport packet a node sends is sealed under the send key of a tunnel
with the tunnel's counter for a nonce. The handlers take tunnels out of the
table, encrypt and put them back, the periodic work goes through the whole
table, and a handshake replaces what is there; so that no packet reuses the
nonce of another is a property of whole runs.

A step is traced by moves of the abstract sender of `Lib.Nonces`: the slots
are our receiver indices, the keys are the send keys. `Traced` says that the
transport packets among what a step sends are the uses of such moves, and
that the keys it installs are those of the tunnels it adds. It composes, and
each function of the data plane has a lemma of this form.
-/

namespace TailscaleRust.Proofs

open TailscaleRust.Lib TailscaleRust.Lib.Nonces TailscaleRust.Core TailscaleRust.Core.Wg
open TailscaleRust.Firmware TailscaleRust.Firmware.Dataplane

/-! ## Packets and moves -/

/-- A transport packet: the key and the number it is sealed under, the index
of its receiver, and the plaintext. -/
abbrev Sealing := Use Key (UInt32 × Bytes)

def Sealing.counter (u : Sealing) : UInt64 := UInt64.ofNat u.number

def Sealing.bytes (C : Crypto) (u : Sealing) : Bytes :=
  [msgTransport, 0, 0, 0] ++ le32 u.data.1 ++ le64 (Sealing.counter u) ++
    wgSeal C u.key (Sealing.counter u) (pad16 16 u.data.2) []

/-- The transport packets among some packets. -/
def transports (sent : List Bytes) : List Bytes :=
  sent.filter fun b => b.head? = some msgTransport

theorem transports_append (a b : List Bytes) :
    transports (a ++ b) = transports a ++ transports b :=
  List.filter_append ..

theorem transports_nil_of (sent : List Bytes) (h : ∀ b ∈ sent, b.head? ≠ some msgTransport) :
    transports sent = [] := by
  rw [transports, List.filter_eq_nil_iff]
  intro b hb
  rw [decide_eq_true_eq]
  exact h b hb

theorem transports_self {sent : List Bytes} (h : ∀ b ∈ sent, b.head? = some msgTransport) :
    transports sent = sent := by
  rw [transports, List.filter_eq_self]
  intro b hb
  exact decide_eq_true (h b hb)

/-- What of a tunnel matters here. -/
def senderPart (t : Tunnel) : Key × UInt64 := (t.sendKey, t.txCounter)

section Traced

/-! The table may be that of either data plane: its slots are anything, and
its entries have a tunnel. -/

variable {I V : Type} [DecidableEq I] (tun : V → Tunnel)

/-- The counters are the numbers, which go on where a counter would wrap. -/
def Counts (t : Table I V) (f : Senders I Key) : Prop :=
  ∀ i, (t.get? i).map (fun e => senderPart (tun e)) = (f i).map fun p => (p.1, UInt64.ofNat p.2)

/-- Between the two tables these packets were sent, and these keys added. -/
def Traced (C : Crypto) (t t' : Table I V) (sent : List Bytes) (keys : List Key) : Prop :=
  ∀ f, Counts tun t f → ∃ (ms : List (Move I Key (UInt32 × Bytes))) (g : Senders I Key),
    Run Moves f ms g ∧ Counts tun t' g ∧ transports sent = (uses ms).map (Sealing.bytes C) ∧
      installs ms = keys

variable {tun} {C : Crypto} {t t' t'' : Table I V} {sent sent' : List Bytes} {keys keys' : List Key}

/-- The slots of two tables hold the same keys and counters. -/
def SameSenders (tun : V → Tunnel) (t t' : Table I V) : Prop :=
  ∀ i, (t'.get? i).map (fun e => senderPart (tun e)) = (t.get? i).map fun e => senderPart (tun e)

/-- Neither a transport packet nor a change that matters. -/
theorem traced_quiet (h : SameSenders tun t t') (hsent : transports sent = []) :
    Traced tun C t t' sent [] := by
  intro f hf
  exact ⟨[], f, .nil, fun i => (h i).trans (hf i), hsent, rfl⟩

theorem traced_none : Traced tun C t t [] [] := traced_quiet (fun _ => rfl) rfl

theorem Traced.trans (h : Traced tun C t t' sent keys) (h' : Traced tun C t' t'' sent' keys') :
    Traced tun C t t'' (sent ++ sent') (keys ++ keys') := by
  intro f hf
  obtain ⟨ms, g, hrun, hg, hsent, hkeys⟩ := h f hf
  obtain ⟨ms', g', hrun', hg', hsent', hkeys'⟩ := h' g hg
  refine ⟨ms ++ ms', g', hrun.append hrun', hg', ?_, ?_⟩
  · rw [transports_append, hsent, hsent', uses_append, List.map_append]
  · rw [installs_append, hkeys, hkeys']

/-- A first step that does not matter. -/
theorem Traced.after (h : Traced tun C t' t'' sent keys) (hsame : SameSenders tun t t') :
    Traced tun C t t'' sent keys := by
  intro f hf
  exact h f fun i => (hsame i).trans (hf i)

/-- A last step that does not matter. -/
theorem Traced.before (h : Traced tun C t t' sent keys) (hsame : SameSenders tun t' t'') :
    Traced tun C t t'' sent keys := by
  intro f hf
  obtain ⟨ms, g, hrun, hg, hsent, hkeys⟩ := h f hf
  exact ⟨ms, g, hrun, fun i => (hsame i).trans (hg i), hsent, hkeys⟩

/-- Rewriting an entry within its tunnel's key and counter does not matter. -/
theorem sameSenders_modify (t : Table I V) (i : I) {g : V → V}
    (hg : ∀ e, senderPart (tun (g e)) = senderPart (tun e)) : SameSenders tun t (t.modify i g) := by
  intro j
  rw [Table.get?_modify]
  split
  · rw [Option.map_map]
    exact Option.map_congr fun e _ => hg e
  · rfl

/-- The key and the number of a slot that is there. -/
theorem Counts.slot {f : Senders I Key} (hf : Counts tun t f) {i : I} {e : V}
    (he : t.get? i = some e) :
    ∃ n, f i = some ((tun e).sendKey, n) ∧ (tun e).txCounter = UInt64.ofNat n := by
  have hslot := hf i
  rw [he, Option.map_some] at hslot
  obtain ⟨⟨k, n⟩, hfi, hkn⟩ := Option.map_eq_some_iff.mp hslot.symm
  obtain ⟨hk, hn⟩ := Prod.mk.inj hkn
  refine ⟨n, ?_, hn.symm⟩
  rw [hfi, show k = (tun e).sendKey from hk]

/-! ## Sending through a tunnel -/

theorem encrypt_bytes (C : Crypto) (t : Tunnel) (x : Bytes) {n : Nat}
    (hn : t.txCounter = UInt64.ofNat n) :
    (t.encrypt C x).1 = Sealing.bytes C ⟨t.sendKey, n, (t.theirIndex, x)⟩ := by
  rw [Tunnel.encrypt, Sealing.bytes, Sealing.counter, hn]
  rfl

/-- Packets encrypted one after the other, and the tunnel they leave. -/
def sealAll (C : Crypto) (t : Tunnel) : List Bytes → List Bytes × Tunnel
  | [] => ([], t)
  | x :: xs => ((t.encrypt C x).1 :: (sealAll C (t.encrypt C x).2 xs).1,
      (sealAll C (t.encrypt C x).2 xs).2)

theorem sealAll_transport (C : Crypto) (t : Tunnel) (xs : List Bytes) :
    ∀ b ∈ (sealAll C t xs).1, b.head? = some msgTransport := by
  induction xs generalizing t with
  | nil => exact fun b hb => absurd hb List.not_mem_nil
  | cons x xs ih =>
      intro b hb
      rcases List.mem_cons.mp hb with rfl | hb
      · exact encrypt_head C t x
      · exact ih _ b hb

theorem run_sealAll (i : I) (xs : List Bytes) (t : Tunnel) {n : Nat}
    (hn : t.txCounter = UInt64.ofNat n) {f : Senders I Key} (hf : f i = some (t.sendKey, n)) :
    ∃ ms : List (Move I Key (UInt32 × Bytes)),
      Run Moves f ms (Function.update f i (some (t.sendKey, n + xs.length))) ∧
      (sealAll C t xs).1 = (uses ms).map (Sealing.bytes C) ∧ installs ms = [] ∧
      senderPart (sealAll C t xs).2 = (t.sendKey, UInt64.ofNat (n + xs.length)) := by
  induction xs generalizing t n f with
  | nil =>
      refine ⟨[], ?_, rfl, rfl, by rw [sealAll, senderPart, hn]; rfl⟩
      rw [List.length_nil, Nat.add_zero, ← hf, Function.update_eq_self]
      exact .nil
  | cons x xs ih =>
      have hnext : (t.encrypt C x).2.txCounter = UInt64.ofNat (n + 1) := by
        rw [UInt64.ofNat_add, ← hn]
        rfl
      obtain ⟨ms, hrun, hsent, hkeys, hlast⟩ := ih (t.encrypt C x).2 hnext
        (f := Function.update f i (some (t.sendKey, n + 1))) (Function.update_self ..)
      rw [Function.update_idem] at hrun
      have hlen : n + (x :: xs).length = n + 1 + xs.length := by
        rw [List.length_cons]
        omega
      refine ⟨.use i t.sendKey n (t.theirIndex, x) :: ms, ?_, ?_, hkeys, ?_⟩
      · rw [hlen]
        refine .cons (.use hf (Function.update_self ..) ?_) hrun
        intro s' hs'
        exact Function.update_of_ne hs' _ _
      · rw [sealAll, hsent, encrypt_bytes C t x hn]
        rfl
      · rw [hlen]
        exact hlast

variable (tun) in
/-- An entry whose tunnel has sealed some packets takes its old place. -/
theorem traced_sealAll {i : I} {e : V} (he : t.get? i = some e) (xs : List Bytes) {g : V → V}
    (hg : tun (g e) = (sealAll C (tun e) xs).2) :
    Traced tun C t (t.modify i g) (sealAll C (tun e) xs).1 [] := by
  intro f hf
  obtain ⟨n, hfi, hn⟩ := hf.slot he
  obtain ⟨ms, hrun, hsent, hkeys, hlast⟩ := run_sealAll (C := C) i xs (tun e) hn hfi
  refine ⟨ms, _, hrun, ?_, (transports_self (sealAll_transport C _ xs)).trans hsent, hkeys⟩
  intro j
  rw [Table.get?_modify]
  by_cases hj : j = i
  · subst hj
    rw [if_pos rfl, he, Function.update_self, Option.map_some, Option.map_some, hg, hlast]
    rfl
  · rw [if_neg hj, Function.update_of_ne hj]
    exact hf j

/-! ## Tunnels that come and go -/

theorem traced_retain (p : I → V → Bool) : Traced tun C t (t.retain p) [] [] := by
  intro f hf
  let g : Senders I Key := fun j => if (t.retain p).contains j then f j else none
  refine ⟨[.lose], g, .cons (.lose fun j => ?_) .nil, fun j => ?_, rfl, rfl⟩
  · by_cases hj : (t.retain p).contains j
    · exact .inl (if_pos hj)
    · exact .inr (if_neg hj)
  · by_cases hj : (t.retain p).contains j
    · obtain ⟨e, he⟩ := Table.contains_iff_exists.mp hj
      have hold := he
      rw [Table.get?_retain] at hold
      rw [show g j = f j from if_pos hj, ← hf j, he, (Option.filter_eq_some_iff.mp hold).1]
    · rw [show g j = none from if_neg hj, Table.get?_eq_none_iff.mpr (Bool.not_eq_true _ ▸ hj)]
      rfl

variable (tun) in
/-- The key of a tunnel that comes in is installed. -/
theorem traced_insert (i : I) {e : V} (hzero : (tun e).txCounter = 0)
    (hsent : transports sent = []) : Traced tun C t (t.insert i e) sent [(tun e).sendKey] := by
  intro f hf
  refine ⟨[.install i (tun e).sendKey], Function.update f i (some ((tun e).sendKey, 0)),
    .cons (.install (Function.update_self ..) fun j hj => Function.update_of_ne hj _ _) .nil,
    fun j => ?_, hsent, rfl⟩
  rw [Table.get?_insert]
  by_cases hj : j = i
  · rw [if_pos hj, hj, Function.update_self, Option.map_some, Option.map_some, senderPart, hzero]
    rfl
  · rw [if_neg hj, Function.update_of_ne hj]
    exact hf j

/-! ## What a run from an empty table uses -/

/-- The packets are sealed under pairs of key and counter of which no two are
the same, and the counters under each key are 0, 1, 2, … in order. -/
def NonceOnce (C : Crypto) (sent : List Bytes) : Prop :=
  ∃ us : List Sealing, transports sent = us.map (Sealing.bytes C) ∧
    (∀ k, ∃ n, (us.filter fun u => u.key = k).map Sealing.counter =
      (List.range n).map UInt64.ofNat) ∧
    (us.length ≤ 2 ^ 64 → (us.map fun u => (u.key, Sealing.counter u)).Nodup)

theorem Traced.nonceOnce (h : Traced tun C t t' sent keys) (hempty : ∀ i, t.get? i = none)
    (hkeys : keys.Nodup) : NonceOnce C sent := by
  obtain ⟨ms, g, hrun, -, hsent, hinst⟩ := h (fun _ => none) fun i => by rw [hempty i]; rfl
  have hnum := numbered_run hrun (hinst ▸ hkeys)
  refine ⟨uses ms, hsent, fun k => ⟨(numbers k (uses ms)).length, ?_⟩, fun hlen => ?_⟩
  · rw [← hnum.counted k, numbers, List.map_map]
    rfl
  · -- numbers below 2^64 are told apart by their counters
    have hpairs : (uses ms).map (fun u => (u.key, Sealing.counter u)) =
        ((uses ms).map fun u => (u.key, u.number)).map fun p => (p.1, UInt64.ofNat p.2) := by
      rw [List.map_map]
      rfl
    rw [hpairs]
    refine List.Nodup.map_on ?_ hnum.nodup
    intro p hp q hq heq
    obtain ⟨u, hu, rfl⟩ := List.mem_map.mp hp
    obtain ⟨v, hv, rfl⟩ := List.mem_map.mp hq
    obtain ⟨hkey, hcounter⟩ := Prod.mk.inj heq
    have hul := hnum.number_lt hu
    have hvl := hnum.number_lt hv
    have hnumber := congrArg UInt64.toNat hcounter
    simp only [UInt64.toNat_ofNat'] at hnumber
    rw [Nat.mod_eq_of_lt (by omega), Nat.mod_eq_of_lt (by omega)] at hnumber
    exact Prod.ext hkey hnumber

end Traced

/-- The bytes of some datagrams. -/
def payloads (out : List Datagram) : List Bytes := out.map Datagram.bytes

theorem payloads_append (a b : List Datagram) : payloads (a ++ b) = payloads a ++ payloads b :=
  List.map_append

/-- Between the two states of the UDP data plane these datagrams were sent. -/
def Emits (C : Crypto) (st st' : State) (out : List Datagram) (keys : List Key) : Prop :=
  Traced TunnelEntry.tun C st.tunnels st'.tunnels (payloads out) keys

section Emits

variable {C : Crypto} {st st' st'' : State} {out out' : List Datagram} {keys keys' : List Key}

theorem emits_quiet (h : st'.tunnels = st.tunnels) (hout : transports (payloads out) = []) :
    Emits C st st' out [] :=
  traced_quiet (fun i => by rw [h]) hout

theorem emits_none : Emits C st st [] [] := traced_none

theorem Emits.trans (h : Emits C st st' out keys) (h' : Emits C st' st'' out' keys') :
    Emits C st st'' (out ++ out') (keys ++ keys') := by
  rw [Emits, payloads_append]
  exact Traced.trans h h'

theorem Emits.after (h : Emits C st' st'' out keys)
    (hsame : SameSenders TunnelEntry.tun st.tunnels st'.tunnels) : Emits C st st'' out keys :=
  Traced.after h hsame

theorem silent_of {out : List Datagram} (h : ∀ d ∈ out, d.bytes.head? ≠ some msgTransport) :
    transports (payloads out) = [] := by
  apply transports_nil_of
  intro b hb
  obtain ⟨d, hd, rfl⟩ := List.mem_map.mp hb
  exact h d hd

theorem encryptAll_eq (C : Crypto) (tun : Tunnel) (dst : SocketAddr) (xs : List Bytes) :
    payloads (encryptAll C tun dst xs).1 = (sealAll C tun xs).1 ∧
      (encryptAll C tun dst xs).2 = (sealAll C tun xs).2 := by
  induction xs generalizing tun with
  | nil => exact ⟨rfl, rfl⟩
  | cons x xs ih =>
      obtain ⟨hsent, hlast⟩ := ih (tun.encrypt C x).2
      refine ⟨?_, hlast⟩
      rw [encryptAll, payloads, List.map_cons, sealAll]
      exact congrArg _ hsent

theorem emits_sendInner (C : Crypto) (st : State) (i : UInt32) (dst : SocketAddr)
    (xs : List Bytes) : Emits C st (st.sendInner C i dst xs).1 (st.sendInner C i dst xs).2 [] := by
  rw [State.sendInner]
  split
  · exact emits_none
  · next e he =>
      obtain ⟨hsent, hlast⟩ := encryptAll_eq C e.tun dst xs
      rw [Emits]
      simp only [hsent]
      exact traced_sealAll TunnelEntry.tun he xs hlast

end Emits

/-! ## A decrypted packet -/

section Handlers

variable (C : Crypto) (F : Features) (env : Draws)

theorem emits_outboundInput (st : State) (i : UInt32) (inner : Bytes) (src : SocketAddr) :
    Emits C st (outboundInput C F st i inner src).1
      (outboundInput C F st i inner src).2.1 [] := by
  rw [outboundInput]
  split
  · split
    · exact emits_none
    · next ob _ =>
        exact emits_sendInner C { st with outbound := some (clientInput ob inner).1 } i src _
  · exact emits_none

theorem emits_icmpInput {st st' : State} {i : UInt32} {inner : Bytes} {src : SocketAddr}
    {out : List Datagram} (h : icmpInput C F st i inner src = some (st', out)) :
    Emits C st st' out [] := by
  rw [icmpInput] at h
  split at h
  · obtain ⟨reply, -, heq⟩ := Option.map_eq_some_iff.mp h
    have htraced := emits_sendInner C st i src [reply]
    rw [heq] at htraced
    exact htraced
  · cases h

theorem emits_proxyInput (st : State) (i : UInt32) (inner : Bytes) (src : SocketAddr) :
    Emits C st (proxyInput C F env st i inner src).1
      (proxyInput C F env st i inner src).2.1 [] := by
  rw [proxyInput]
  split
  · simp only []
    split
    · exact emits_none
    · exact emits_sendInner C { st with
        proxy := (st.proxy.handle F.proxyListenPort env.lanFetch inner env.proxyIss).2 } i src _
  · exact emits_none

theorem emits_httpInput (st : State) (i : UInt32) (inner : Bytes) (src : SocketAddr) :
    Emits C st (httpInput C F env st i inner src).1
      (httpInput C F env st i inner src).2 [] := by
  rw [httpInput]
  split
  · split
    · exact emits_none
    · next e he =>
        refine (emits_sendInner C { st with tunnels := st.tunnels.modify i fun e' =>
          { e' with tcp := (e.tcp.handle inner env.serverIss).2 } } i src _).after ?_
        exact sameSenders_modify st.tunnels i fun _ => rfl
  · exact emits_none

theorem emits_serviceInput (st : State) (i : UInt32) (inner : Bytes) (src : SocketAddr) :
    Emits C st (serviceInput C F env st i inner src).1
      (serviceInput C F env st i inner src).2 [] := by
  rw [serviceInput]
  split
  · next st' hm =>
      have htun : st'.tunnels = st.tunnels := by
        rw [mdnsInput] at hm
        split at hm
        · split at hm
          · cases hm
          · cases hm
            rfl
        · cases hm
      exact emits_quiet htun rfl
  · have hob := emits_outboundInput C F st i inner src
    simp only []
    split
    · exact hob
    · split
      · next st' out' hicmp => exact hob.trans (emits_icmpInput C F hicmp)
      · have hproxy := emits_proxyInput C F env (outboundInput C F st i inner src).1 i inner src
        split
        · exact hob.trans hproxy
        · exact (hob.trans hproxy).trans (emits_httpInput C F env _ i inner src)

theorem emits_handleDecrypted (id : Identity) (st : State) (i : UInt32) (inner : Bytes)
    (src : SocketAddr) :
    Emits C st (handleDecrypted C F env id st i inner src).1
      (handleDecrypted C F env id st i inner src).2 [] := by
  have hmoved : SameSenders TunnelEntry.tun st.tunnels
      (st.tunnels.modify i fun e => { e with addr := src }) :=
    sameSenders_modify st.tunnels i fun _ => rfl
  rw [handleDecrypted]
  split
  · exact emits_none
  · simp only []
    split
    · exact emits_none.after hmoved
    · split
      · exact emits_none.after hmoved
      · exact (emits_serviceInput C F env _ i inner src).after hmoved

theorem emits_handleWgTransport (id : Identity) (st : State) (pkt : Bytes) (src : SocketAddr) :
    Emits C st (handleWgTransport C F env id st pkt src).1
      (handleWgTransport C F env id st pkt src).2 [] := by
  rw [handleWgTransport]
  split
  · exact emits_none
  · simp only []
    split
    · exact emits_none
    · split
      · exact emits_none
      · exact emits_handleDecrypted C F env id st _ _ src

theorem emits_mdnsDrain (ourIp partnerIp : Ipv4Addr) (partnerNode : Key)
    (payloads : List Bytes) (st : State) :
    Emits C st (mdnsDrain C ourIp partnerIp partnerNode payloads st).1
      (mdnsDrain C ourIp partnerIp partnerNode payloads st).2 [] := by
  induction payloads generalizing st with
  | nil => exact emits_none
  | cons payload rest ih =>
      rw [mdnsDrain]
      split
      · exact ih st
      · next i e _ => exact (emits_sendInner C st i e.addr _).trans (ih _)

end Handlers

/-! ## A new tunnel -/

/-- A tunnel put in as the responder. -/
theorem emits_answer {C : Crypto} {st : State} {i : UInt32} {tun : Tunnel} {addr : SocketAddr}
    {peer : Key} (hzero : tun.txCounter = 0) {out : List Datagram}
    (hout : transports (payloads out) = []) :
    Emits C st (insertTunnel st i tun addr peer) out [tun.sendKey] := by
  have hlost : Traced TunnelEntry.tun C st.tunnels
      (st.tunnels.retain fun _ e => e.addr ≠ addr) [] [] :=
    traced_retain _
  have hcame : Traced TunnelEntry.tun C (st.tunnels.retain fun _ e => e.addr ≠ addr)
      (insertTunnel st i tun addr peer).tunnels (payloads out) [tun.sendKey] :=
    traced_insert TunnelEntry.tun i (e := ⟨tun, addr, peer, Tcp.TcpServer.new⟩) hzero hout
  exact hlost.trans hcame

/-- A tunnel put in as the initiator, after its first keepalive. -/
theorem emits_complete {C : Crypto} (st : State) {i : UInt32} {tun : Tunnel} {addr : SocketAddr}
    {peer : Key} (hzero : tun.txCounter = 0) :
    Emits C st (insertTunnel st i (tun.keepalive C).2 addr peer)
      [⟨addr, (tun.keepalive C).1⟩] [tun.sendKey] := by
  -- as if it were put in first and the keepalive sent from the table
  have hin : Emits C st (insertTunnel st i tun addr peer) [] [tun.sendKey] :=
    emits_answer hzero rfl
  have hget : (insertTunnel st i tun addr peer).tunnels.get? i =
      some ⟨tun, addr, peer, Tcp.TcpServer.new⟩ := by
    rw [insertTunnel, Table.get?_insert, if_pos rfl]
  have hkeep := traced_sealAll TunnelEntry.tun (C := C) hget [[]]
    (g := fun e => { e with tun := (sealAll C e.tun [[]]).2 }) rfl
  refine (Traced.trans hin hkeep).before ?_
  intro j
  rw [Table.get?_modify]
  by_cases hj : j = i
  · rw [if_pos hj, hj, hget, insertTunnel, Table.get?_insert, if_pos rfl]
    rfl
  · rw [if_neg hj, insertTunnel, insertTunnel, Table.get?_insert, if_neg hj, Table.get?_insert,
      if_neg hj]

/-! ## The periodic work -/

section Periodic

variable (C : Crypto) (F : Features) (hk : Housekeeping) (id : Identity)

/-- One packet through each of some slots. -/
theorem run_keepalives (l : List (UInt32 × TunnelEntry)) (hl : (l.map Prod.fst).Nodup)
    {f : Senders UInt32 Key}
    (hf : ∀ e ∈ l, some (senderPart e.2.tun) = (f e.1).map fun p => (p.1, UInt64.ofNat p.2)) :
    ∃ (ms : List (Move UInt32 Key (UInt32 × Bytes))) (g : Senders UInt32 Key), Run Moves f ms g ∧
      (l.map fun e => (e.2.tun.keepalive C).1) = (uses ms).map (Sealing.bytes C) ∧
      installs ms = [] ∧ (∀ i ∉ l.map Prod.fst, g i = f i) ∧
      ∀ i ∈ l.map Prod.fst, g i = (f i).map fun p => (p.1, p.2 + 1) := by
  induction l generalizing f with
  | nil => exact ⟨[], f, .nil, rfl, rfl, fun _ _ => rfl, fun i hi => absurd hi List.not_mem_nil⟩
  | cons e l ih =>
      rw [List.map_cons, List.nodup_cons] at hl
      obtain ⟨⟨k, n⟩, hfe, hkn⟩ := Option.map_eq_some_iff.mp (hf e List.mem_cons_self).symm
      obtain ⟨hk, hn⟩ := Prod.mk.inj hkn
      have hk : k = e.2.tun.sendKey := hk
      subst hk
      let f' : Senders UInt32 Key := Function.update f e.1 (some (e.2.tun.sendKey, n + 1))
      have hf' : ∀ i, i ≠ e.1 → f' i = f i := fun i hi => Function.update_of_ne hi _ _
      obtain ⟨ms, g, hrun, hout, hkeys, hkept, hmoved⟩ := ih hl.2 (f := f') (by
        intro e' he'
        rw [hf' e'.1 fun heq => hl.1 (heq ▸ List.mem_map_of_mem he')]
        exact hf e' (List.mem_cons_of_mem e he'))
      refine ⟨.use e.1 e.2.tun.sendKey n (e.2.tun.theirIndex, []) :: ms, g,
        .cons (.use hfe (Function.update_self ..) hf') hrun, ?_, hkeys, ?_, ?_⟩
      · rw [List.map_cons, hout, Tunnel.keepalive, encrypt_bytes C e.2.tun [] hn.symm]
        rfl
      · intro i hi
        rw [List.map_cons, List.mem_cons, not_or] at hi
        rw [hkept i hi.2, hf' i hi.1]
      · intro i hi
        rw [List.map_cons, List.mem_cons] at hi
        rcases hi with rfl | hi
        · rw [hkept _ hl.1, hfe]
          exact Function.update_self ..
        · rw [hmoved i hi, hf' i fun heq => hl.1 (heq ▸ hi)]

theorem emits_keepaliveAll (st : State) :
    Emits C st (keepaliveAll C st).1 (keepaliveAll C st).2 [] := by
  intro f hf
  obtain ⟨ms, g, hrun, hout, hkeys, hkept, hmoved⟩ :=
    run_keepalives C st.tunnels.entries st.tunnels.nodup (f := f) (by
      intro e he
      rw [← hf e.1, Table.mem_entries_iff.mp he]
      rfl)
  refine ⟨ms, g, hrun, fun i => ?_, ?_, hkeys⟩
  · rw [keepaliveAll, Table.get?_mapValues, Option.map_map]
    by_cases hi : i ∈ st.tunnels.entries.map Prod.fst
    · rw [hmoved i hi, Option.map_map]
      have hfi := congrArg (Option.map fun p : Key × UInt64 => (p.1, p.2 + 1)) (hf i)
      rw [Option.map_map, Option.map_map] at hfi
      refine hfi.trans (Option.map_congr fun p _ => ?_)
      simp only [Function.comp_apply, UInt64.ofNat_add]
      rfl
    · have hnone : st.tunnels.get? i = none :=
        Table.get?_eq_none_iff.mpr (Bool.not_eq_true _ ▸ fun h => hi (Table.mem_keys_iff.mpr h))
      have hfi := hf i
      rw [hnone, Option.map_none] at hfi
      rw [hkept i hi, hnone, Option.map_none, hfi]
  · rw [transports_self, ← hout, payloads, keepaliveAll, List.map_map, Table.values, List.map_map]
    · rfl
    · intro b hb
      obtain ⟨d, hd, rfl⟩ := List.mem_map.mp hb
      exact keepaliveAll_transport C st d hd

theorem emits_outboundPeriodic (st : State) :
    Emits C st (outboundPeriodic C hk st).1 (outboundPeriodic C hk st).2 [] := by
  rw [outboundPeriodic]
  split
  · exact emits_none
  · split
    · exact emits_none
    · next ob _ _ i e _ =>
        exact emits_sendInner C { st with outbound := some (outboundKick hk ob).1 } i e.addr _

/-- What a probe sends is disco. -/
theorem sealPacket_head {priv pub peer : Key} {pt : Bytes} {nonce : Arr 24} {pkt : Bytes}
    (h : Disco.sealPacket C priv pub peer pt nonce = .ok pkt) :
    pkt.head? ≠ some msgTransport := by
  rw [Disco.sealPacket] at h
  split at h
  · cases h
  · cases h
    simp [Disco.magic, msgTransport]

theorem probeTargets_silent (tunnels : Table UInt32 TunnelEntry) (round : UInt32) (n : Nat)
    (ts : List Target) (strikes : Table SocketAddr UInt8) (out : List Datagram) :
    transports (payloads (probeTargets C F hk id tunnels round n ts strikes out).2) =
      transports (payloads out) := by
  induction ts generalizing n strikes out with
  | nil => rfl
  | cons t ts ih =>
      rw [probeTargets]
      split
      · exact ih _ _ _
      · split
        · exact ih _ _ _
        · next pkt hpkt =>
            simp only []
            obtain ⟨probes, hprobes, hbytes⟩ :=
              probeEndpoints_append hk pkt t.endpoints strikes out
            have hhead := sealPacket_head C hpkt
            rw [ih, hprobes, payloads_append, payloads_append, transports_append,
              transports_append]
            rw [silent_of fun d hd => (hbytes d hd).1 ▸ hhead,
              silent_of fun d hd => sprayTarget_mem F hk d hd ▸ hhead,
              List.append_nil, List.append_nil]

/-- Initiations that are resent are no transport packets. -/
theorem retryAll_silent {H : Host} {evs : List Input} {st : State} (h : TablesOk H evs st)
    (tick : UInt32) : transports (payloads (retryAll st tick).2) = [] := by
  apply silent_of
  intro d hd
  obtain ⟨p, hp, hd⟩ := List.mem_flatMap.mp hd
  obtain ⟨⟨n, p'⟩, hmem, rfl⟩ := List.mem_map.mp hp
  have htype := (h.pending n p' (Table.mem_entries_iff.mp hmem)).type
  rcases retryPending_cases st.tunnels tick p' with hdrop | hkeep | ⟨-, hsend⟩
  · rw [hdrop] at hd
    cases hd
  · rw [hkeep] at hd
    cases hd
  · rw [hsend] at hd
    cases List.mem_singleton.mp hd
    rw [head?_eq_byteAt (by rw [p'.init.2]; decide), htype]
    decide

theorem emits_runPeriodic {H : Host} {evs : List Input} {st : State} (h : TablesOk H evs st)
    (lp : Loop) (tick : UInt32) (stunAddr : Option SocketAddr) :
    Emits C st (runPeriodic C F hk id st lp tick stunAddr).1
      (runPeriodic C F hk id st lp tick stunAddr).2.2 [] := by
  have hretry : Emits C st (retryAll st tick).1 (retryAll st tick).2 [] :=
    emits_quiet rfl (retryAll_silent h tick)
  have hstun : transports (payloads (stunAddr.toList.map fun a =>
      (⟨a, Stun.bindingRequest hk.stunTxid⟩ : Datagram))) = [] := by
    apply silent_of
    intro d hd
    obtain ⟨a, -, rfl⟩ := List.mem_map.mp hd
    show (Stun.bindingRequest hk.stunTxid).head? ≠ _
    rw [show (Stun.bindingRequest hk.stunTxid).head? = some 0 from rfl]
    decide
  have hprobed : ∀ (targets : List Target) (round : UInt32),
      let probed := probeTargets C F hk id (retryAll st tick).1.tunnels round 0 targets
        lp.strikes (retryAll st tick).2
      let kept := keepaliveAll C (retryAll st tick).1
      let obs := if F.outbound then outboundPeriodic C hk kept.1 else (kept.1, [])
      Emits C st obs.1 (probed.2 ++ kept.2 ++ obs.2) [] := by
    intro targets round probed kept obs
    have hfirst : Emits C st (retryAll st tick).1 probed.2 [] :=
      emits_quiet rfl
        ((probeTargets_silent ..).trans (retryAll_silent h tick))
    refine (hfirst.trans (emits_keepaliveAll C _)).trans ?_
    show Emits C kept.1 obs.1 obs.2 []
    simp only [obs]
    split
    · exact emits_outboundPeriodic C hk kept.1
    · exact emits_none
  rw [runPeriodic]
  simp only []
  by_cases hdue : hk.now - lp.lastProbe ≥ 2000
  · simp only [if_pos hdue]
    have hmain := hprobed (hk.incoming.foldl mergeTarget lp.targets) (lp.probeRound + 1)
    split
    · exact hmain.trans (emits_quiet rfl hstun)
    · exact hmain
  · simp only [if_neg hdue]
    split
    · exact hretry.trans (emits_quiet rfl hstun)
    · exact hretry

end Periodic

/-! ## A step -/

/-- The send key of the tunnel a step adds. -/
def newKeys : Outcome → List Key
  | .answer _ _ tun _ _ => [tun.sendKey]
  | .complete _ _ tun _ => [tun.sendKey]
  | _ => []

section Steps

variable {H : Host} {s : NodeState}

/-- Disco makes a node send disco or an initiation. -/
theorem handleDisco_silent (env : Draws) (targets : List Target) (st : State) (tick : UInt32)
    (pkt : Bytes) (src : SocketAddr) :
    (handleDisco H.crypto env H.identity targets st tick pkt src).1.tunnels = st.tunnels ∧
      transports (payloads
        (handleDisco H.crypto env H.identity targets st tick pkt src).2) = [] := by
  rw [handleDisco]
  split
  · exact ⟨rfl, rfl⟩
  · split
    · split
      · exact ⟨rfl, rfl⟩
      · next reply hreply =>
          refine ⟨rfl, silent_of fun d hd => ?_⟩
          rw [List.mem_singleton.mp hd]
          exact sealPacket_head H.crypto hreply
    · split
      · rw [maybeStartHandshake]
        split
        · exact ⟨rfl, rfl⟩
        · next target _ =>
            split
            · exact ⟨rfl, rfl⟩
            · refine ⟨?_, silent_of fun d hd => ?_⟩
              · simp only []
                split
                · rfl
                · rfl
              · rw [List.mem_singleton.mp hd]
                obtain ⟨htype, -⟩ := buildInitiation_header H.crypto H.identity.nodePriv
                  H.identity.nodePub target.nodePub (tai64n env.unixSecs env.unixNanos) env.index
                  env.ephemeral
                rw [head?_eq_byteAt (by rw [(buildInitiation ..).1.2]; decide), htype]
                decide
      · exact ⟨rfl, rfl⟩

theorem newKeys_disco {tick : UInt32} {pkt : Bytes} {src : SocketAddr} {env : Draws}
    (h : Disco.isDisco pkt = true) : newKeys (received H s tick pkt src env) = [] := by
  rw [received, if_pos h]
  split
  · rfl
  · split
    · rfl
    · rfl

theorem emits_handleWgInit (tick : UInt32) {pkt : Bytes} (src : SocketAddr) (env : Draws)
    (hdisco : ¬Disco.isDisco pkt = true) (hstun : ¬Stun.isStun pkt = true)
    (hinit : pkt.head? = some msgInitiation) :
    let r := handleWgInit H.crypto env H.identity s.st pkt src
    Emits H.crypto s.st r.1 r.2 (newKeys (received H s tick pkt src env)) := by
  rw [received, if_neg hdisco, if_neg hstun, if_pos hinit, handleWgInit]
  cases hok : consumeInitiation H.crypto H.identity.nodePriv H.identity.nodePub pkt env.index
      env.ephemeral with
  | error e => exact emits_none
  | ok made =>
      obtain ⟨resp, tun, peer⟩ := made
      obtain ⟨htype, -, -, -, -, hzero⟩ := consumeInitiation_header hok
      refine emits_answer hzero (silent_of fun d hd => ?_)
      rw [List.mem_singleton.mp hd, head?_eq_byteAt (by rw [resp.2]; decide), htype]
      decide

theorem emits_handleWgResponse (tick : UInt32) {pkt : Bytes} (src : SocketAddr) (env : Draws)
    (hdisco : ¬Disco.isDisco pkt = true) (hstun : ¬Stun.isStun pkt = true)
    (hinit : ¬pkt.head? = some msgInitiation) (hresp : pkt.head? = some msgResponse) :
    let r := handleWgResponse H.crypto s.st pkt src
    Emits H.crypto s.st r.1 r.2 (newKeys (received H s tick pkt src env)) := by
  rw [received, if_neg hdisco, if_neg hstun, if_neg hinit, handleWgResponse]
  by_cases hlen : pkt.length < 12
  · rw [if_pos hlen, if_neg fun h => absurd h.2 (by omega)]
    exact emits_none
  · rw [if_neg hlen, if_pos ⟨hresp, by omega⟩]
    cases s.st.pending.find? fun _ p => p.ourIndex = u32le pkt 8 with
    | none => exact emits_none
    | some slot =>
        obtain ⟨key, p⟩ := slot
        simp only []
        cases hok : p.hs.consumeResponse H.crypto pkt with
        | error e => exact emits_none
        | ok tun =>
            obtain ⟨-, -, hzero⟩ := consumeResponse_header hok
            exact emits_complete { s.st with pending := s.st.pending.erase key } hzero

theorem emits_handlePacket (tick : UInt32) (pkt : Bytes) (src : SocketAddr) (env : Draws) :
    let r := handlePacket H.crypto H.features env H.identity s.lp.targets s.st tick pkt src
    Emits H.crypto s.st r.1 r.2 (newKeys (received H s tick pkt src env)) := by
  rw [handlePacket]
  split
  · next hdisco =>
      obtain ⟨htun, hout⟩ := handleDisco_silent (H := H) env s.lp.targets s.st tick pkt src
      rw [newKeys_disco hdisco]
      exact emits_quiet htun hout
  · next hdisco =>
      split
      · next hstun =>
          rw [received, if_neg hdisco, if_pos hstun]
          exact emits_none
      · next hstun =>
          split
          · next hinit => exact emits_handleWgInit tick src env hdisco hstun hinit
          · next hinit =>
              split
              · next hresp => exact emits_handleWgResponse tick src env hdisco hstun hinit hresp
              · next hresp =>
                  have hquiet : received H s tick pkt src env = .quiet := by
                    rw [received, if_neg hdisco, if_neg hstun, if_neg hinit,
                      if_neg fun h => hresp h.1]
                  rw [hquiet]
                  split
                  · exact emits_handleWgTransport H.crypto H.features env H.identity s.st pkt src
                  · exact emits_none

theorem emits_step {evs : List Input} (h : TablesOk H evs s.st) (ev : Input) :
    Emits H.crypto s.st (H.step s ev).1.st (H.step s ev).2
      (newKeys (outcome H s ev)) := by
  cases ev with
  | packet tick pkt src env => exact emits_handlePacket tick pkt src env
  | process tick pkt src env =>
      by_cases hfast : pkt.head? = some msgTransport ∧ pkt.length ≥ 16
      · rw [Host.step, processPacket, if_pos hfast, outcome, received_transport hfast.1]
        simp only []
        split
        · exact emits_none
        · split
          · exact emits_none
          · exact emits_handleDecrypted H.crypto H.features env H.identity s.st _ _ src
      · rw [step_process tick pkt src env hfast]
        exact emits_handlePacket tick pkt src env
  | periodic tick hk stunAddr =>
      exact emits_runPeriodic H.crypto H.features hk H.identity h s.lp tick stunAddr
  | drain payloads =>
      exact emits_mdnsDrain H.crypto H.mdnsOurIp H.mdnsPartnerIp H.mdnsPartnerNode payloads s.st

end Steps

/-! ## Runs -/

section Runs

variable (H : Host)

/-- Everything a run sends, in order. -/
def allSent : NodeState → List Input → List Datagram
  | _, [] => []
  | s, ev :: evs => (H.step s ev).2 ++ allSent (H.step s ev).1 evs

/-- The send keys of the tunnels a run adds. -/
def allKeys : NodeState → List Input → List Key
  | _, [] => []
  | s, ev :: evs => newKeys (outcome H s ev) ++ allKeys (H.step s ev).1 evs

variable {H}

theorem emits_run {s : NodeState} {past : List Input} (h : TablesOk H past s.st)
    (evs : List Input) :
    Emits H.crypto s.st (H.after s evs).st (allSent H s evs)
      (allKeys H s evs) := by
  induction evs generalizing s past with
  | nil => exact emits_none
  | cons ev evs ih => exact (emits_step h ev).trans (ih (tablesOk_step h))

/-- In every run of a node from an empty state, through any datagrams and any
schedule of its loops: if no two tunnels of the run have the same send key,
the transport packets it sends are sealed under pairs of key and counter of
which no two are the same, and under each key the counters are 0, 1, 2, … in
the order of sending. The counter wraps after 2^64 packets. -/
theorem no_nonce_twice (H : Host) (s₀ : NodeState) (evs : List Input) (hfresh : Fresh s₀)
    (hkeys : (allKeys H s₀ evs).Nodup) : NonceOnce H.crypto (payloads (allSent H s₀ evs)) := by
  refine (emits_run (tablesOk_fresh (H := H) hfresh) evs).nonceOnce (fun i => ?_) hkeys
  rw [hfresh.tunnels]
  rfl

end Runs

/-! A peer's handshake, and two rounds of keepalives. -/

private def keepalivesAt (now : Nat) : Input :=
  .periodic 0 { now := now, incoming := [], txid := fun _ => Arr.zero 12
                nonce := fun _ => Arr.zero 24, sprayTail := fun _ _ => [], sendOk := fun _ => true
                clientRand := 0, stunTxid := Arr.zero 12 } none

private def twoRounds : List Input := [arrives (initiationOf 7) 7 4, keepalivesAt 2000,
  keepalivesAt 4000]

theorem no_nonce_twice_solo :
    (transports (payloads (allSent solo soloStart twoRounds))).length = 2 ∧
    NonceOnce transparent (payloads (allSent solo soloStart twoRounds)) :=
  ⟨by decide +kernel, no_nonce_twice solo soloStart twoRounds solo_fresh (by decide +kernel)⟩

end TailscaleRust.Proofs
