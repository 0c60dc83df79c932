import TailscaleRust.Proofs.SafePackets
import TailscaleRust.Proofs.TcpServers

/-!
# The TCP machines do not panic

The server, the client and the proxy read a segment and build the segments
they answer with. Beside the result a caller needs the lengths of these: they
are encrypted next, and a length is added to there.
-/

namespace TailscaleRust.Proofs

open TailscaleRust.Lib TailscaleRust.Lib.Checked TailscaleRust.Core
open TailscaleRust.Core.Icmp (ihlOf totalOf versionOf)
open TailscaleRust.Core.Tcp TailscaleRust.Core.Outbound
open TailscaleRust.Firmware TailscaleRust.Firmware.Dataplane

/-- The strict run has the result of the total one, and the packets in it are
of a length that can be sealed. -/
structure Yields {α : Type} (m : Checked (List Bytes × α)) (r : List Bytes × α) : Prop where
  safe : m = .ok r
  short : ∀ x ∈ r.1, x.length ≤ 65575

theorem Yields.nil {α : Type} (a : α) : Yields (.ok ([], a)) ([], a) :=
  ⟨rfl, fun _ hx => absurd hx List.not_mem_nil⟩

theorem Yields.cons {α : Type} {x : Bytes} {xs : List Bytes} {a : α} (hx : x.length ≤ 65575)
    (h : Yields (.ok (xs, a)) (xs, a)) : Yields (.ok (x :: xs, a)) (x :: xs, a) := by
  refine ⟨rfl, fun y hy => ?_⟩
  rcases List.mem_cons.mp hy with rfl | hy
  · exact hx
  · exact h.short y hy

theorem Yields.one {α : Type} {x : Bytes} (a : α) (hx : x.length ≤ 65575) :
    Yields (.ok ([x], a)) ([x], a) :=
  .cons hx (.nil a)

section Machines

variable (inner : Bytes) (iss : UInt32)

/-- The server and the proxy build their segments in the same way. -/
theorem connSegment_short (src dst : Ipv4Addr) (sport dport : UInt16) (seq ackNo : UInt32)
    (flags : UInt8) {payload : Bytes} (h : 40 + payload.length ≤ 65535) :
    Strict.connSegment src dst sport dport seq ackNo flags payload =
        .ok (tcpPacket src dst sport dport seq ackNo flags payload) ∧
      (tcpPacket src dst sport dport seq ackNo flags payload).length ≤ 65575 := by
  refine ⟨connSegment_safe _ _ _ _ _ _ _ _ h, ?_⟩
  rw [length_tcpPacket]
  omega

theorem serverSegment_safe (self : TcpServer) (flags : UInt8) (payload : Bytes)
    (h : 40 + payload.length ≤ 65535) :
    Strict.TcpServer.segment self flags payload = .ok (self.segment flags payload) ∧
      (self.segment flags payload).length ≤ 65575 :=
  connSegment_short _ _ _ _ _ _ _ h

theorem serverHandle_safe (self : TcpServer) :
    Yields (Strict.TcpServer.handle self inner iss) (self.handle inner iss) := by
  rw [Strict.TcpServer.handle, parseSegment_safe, ok_bind, TcpServer.handle]
  cases parseSegment inner with
  | none => exact .nil self
  | some s =>
      have hbare : ∀ (srv : TcpServer) (flags : UInt8), _ := fun srv flags =>
        serverSegment_safe srv flags [] (by decide)
      dsimp only
      split
      · exact .nil self
      split
      · obtain ⟨hseg, hlen⟩ := hbare ⟨_⟩ (syn ||| Tcp.ack)
        rw [hseg]
        exact .one _ hlen
      split
      · exact .nil self
      split
      · exact .nil _
      split
      · have hfits := httpResponse_fits self.conn.ourIp
        obtain ⟨hseg, hlen⟩ := serverSegment_safe
          ⟨{ self.conn with rcvNxt := s.seq + UInt32.ofNat s.payload.length }⟩
          (psh ||| Tcp.ack ||| fin) (httpResponse (page self.conn.ourIp)) (by omega)
        rw [hseg]
        exact .one _ hlen
      split
      · obtain ⟨hseg, hlen⟩ := hbare ⟨{ self.conn with rcvNxt := s.seq + 1 }⟩ Tcp.ack
        rw [hseg]
        exact .one _ hlen
      exact .nil self

/-! ## The client -/

theorem length_clientSegment (self : TcpClient) (flags : UInt8) (payload : Bytes) :
    (self.segment flags payload).length = 40 + payload.length := by
  rw [TcpClient.segment, length_ipv4Packet, length_tcpSegment, ← Nat.add_assoc]

/-- A segment without data. -/
theorem bareSegment_safe (self : TcpClient) (flags : UInt8) :
    Strict.TcpClient.segment self flags [] = .ok (self.segment flags []) ∧
      (self.segment flags []).length ≤ 65575 :=
  ⟨clientSegment_safe flags [] self (by decide), by
    rw [length_clientSegment, List.length_nil]
    omega⟩

theorem onData_safe (self : TcpClient) (seq : UInt32) (payload : Bytes) :
    Yields (Strict.TcpClient.onData self seq payload) (self.onData seq payload) := by
  rw [Strict.TcpClient.onData, TcpClient.onData]
  split
  · exact .nil self
  · dsimp only
    rw [(bareSegment_safe _ _).1]
    exact .one _ (bareSegment_safe _ _).2

theorem onFin_safe (self : TcpClient) (flags : UInt8) :
    Yields (Strict.TcpClient.onFin self flags) (self.onFin flags) := by
  rw [Strict.TcpClient.onFin, TcpClient.onFin]
  split
  · dsimp only
    rw [(bareSegment_safe _ _).1, ok_bind, (bareSegment_safe _ _).1]
    exact .cons (bareSegment_safe _ _).2 (.one _ (bareSegment_safe _ _).2)
  · exact .nil self

theorem onInner_safe (self : TcpClient) (hreq : 40 + self.request.length ≤ 65535) :
    Yields (Strict.TcpClient.onInner self inner) (self.onInner inner) := by
  rw [Strict.TcpClient.onInner, owns_safe, ok_bind, TcpClient.onInner]
  by_cases hskip : (!self.owns inner) = true ∨ self.done = true
  · rw [if_pos hskip, if_pos hskip]
    exact .nil self
  rw [if_neg hskip, if_neg hskip]
  have howns : self.owns inner = true := by simpa using (not_or.mp hskip).1
  have hlen := length_of_owns inner howns
  have hihl := ihlOf_le inner
  simp only [ihlOf_safe (show 0 < inner.length by omega), ok_bind,
    totalOf_safe (show 4 ≤ inner.length by omega),
    addUsize_ok (show ihlOf inner + 20 < 2 ^ 32 by omega), ite_or]
  split
  · exact .nil self
  split
  · exact .nil self
  rename_i hshort hfits
  have htcp : (slice inner (ihlOf inner) (totalOf inner)).length =
      totalOf inner - ihlOf inner := length_slice (by omega)
  rw [range_ok (by omega) (by omega), ok_bind]
  generalize slice inner (ihlOf inner) (totalOf inner) = tcp at htcp ⊢
  have hoff := (byteAt tcp 12 >>> 4).toNat_lt
  rw [u32beOf_ok (by omega), ok_bind, index_ok (by omega), ok_bind, mulUsize_ok (by omega),
    ok_bind, index_ok (by omega), ok_bind]
  split
  · exact .nil self
  split
  · exact .nil self
  rw [rangeFrom_ok (by omega), ok_bind]
  split
  · -- SYN-ACK: the acknowledgement and the request
    rw [(bareSegment_safe _ _).1, ok_bind, clientSegment_safe _ _ _ hreq, ok_bind]
    refine .cons (bareSegment_safe _ _).2 (.one _ ?_)
    rw [length_clientSegment]
    omega
  · obtain ⟨hdata, hdataShort⟩ := onData_safe self (u32be tcp 4)
      (tcp.drop ((byteAt tcp 12 >>> 4).toNat * 4))
    rw [hdata, ok_bind]
    generalize self.onData _ _ = r at hdataShort ⊢
    obtain ⟨out, c⟩ := r
    obtain ⟨hfin, hfinShort⟩ := onFin_safe c (byteAt tcp 13)
    dsimp only
    rw [hfin, ok_bind]
    refine ⟨rfl, fun x hx => ?_⟩
    rcases List.mem_append.mp hx with hx | hx
    · exact hdataShort x hx
    · exact hfinShort x hx

/-! ## The proxy -/

variable (listenPort : UInt16) (lanFetch : Bytes → Bytes)

theorem proxySegment_safe (c : Proxy.Conn) (flags : UInt8) (payload : Bytes)
    (h : 40 + payload.length ≤ 65535) :
    Strict.TcpProxy.segment listenPort c flags payload = .ok (c.segment listenPort flags payload) ∧
      (c.segment listenPort flags payload).length ≤ 65575 :=
  connSegment_short _ _ _ _ _ _ _ h

/-- The piece the loop takes at an offset, and what is left after it. -/
theorem piece_at {resp : Bytes} {i : Nat} (hi : i ≤ resp.length) :
    slice resp i (min (i + Proxy.mss) resp.length) = (resp.drop i).take Proxy.mss ∧
      resp.drop (min (i + Proxy.mss) resp.length) = (resp.drop i).drop Proxy.mss ∧
      (min (i + Proxy.mss) resp.length = resp.length ↔ (resp.drop i).drop Proxy.mss = []) ∧
      min (i + Proxy.mss) resp.length - i = ((resp.drop i).take Proxy.mss).length := by
  have hdrop : (resp.drop i).length = resp.length - i := List.length_drop
  rw [slice, List.drop_drop, List.length_take, hdrop, List.drop_eq_nil_iff]
  rcases Nat.le_total (i + Proxy.mss) resp.length with hle | hle
  · rw [Nat.min_eq_left hle, Nat.add_sub_cancel_left, Nat.min_eq_left (by omega)]
    exact ⟨rfl, rfl, by omega, rfl⟩
  · rw [Nat.min_eq_right hle, Nat.min_eq_right (by omega), List.take_of_length_le (by omega),
      List.take_of_length_le (by omega), List.drop_length, List.drop_eq_nil_of_le hle]
    exact ⟨rfl, rfl, by omega, rfl⟩

theorem proxyStream_safe {resp : Bytes} (hresp : resp.length < 2 ^ 31) (fuel i : Nat)
    (c : Proxy.Conn) (hi : i ≤ resp.length) :
    Yields (Strict.TcpProxy.stream listenPort resp fuel i c)
      (c.stream listenPort fuel (resp.drop i)) := by
  induction fuel generalizing i c with
  | zero => exact .nil c
  | succ fuel ih =>
      rw [Strict.TcpProxy.stream, Proxy.Conn.stream]
      by_cases hmore : i < resp.length
      · have hne : resp.drop i ≠ [] := by
          rw [ne_eq, List.drop_eq_nil_iff]
          omega
        obtain ⟨hpiece, hrest, hlast, hlen⟩ := piece_at hi
        have hmss : ((resp.drop i).take Proxy.mss).length ≤ 1024 := List.length_take_le _ _
        rw [if_pos hmore, if_neg hne, addUsize_ok (by rw [Proxy.mss]; omega), ok_bind]
        dsimp only
        rw [range_ok (by omega) (Nat.min_le_right _ _), ok_bind, hpiece, subUsize_ok (by omega),
          hlen]
        simp only [hlast]
        obtain ⟨hseg, hshort⟩ := proxySegment_safe listenPort c
          (if (resp.drop i).drop Proxy.mss = [] then psh ||| Tcp.ack ||| fin else psh ||| Tcp.ack)
          ((resp.drop i).take Proxy.mss) (by omega)
        rw [hseg, ok_bind, ok_bind]
        have hnext := ih (min (i + Proxy.mss) resp.length)
          { c with sndNxt :=
              if (resp.drop i).drop Proxy.mss = [] then
                c.sndNxt + UInt32.ofNat ((resp.drop i).take Proxy.mss).length + 1
              else c.sndNxt + UInt32.ofNat ((resp.drop i).take Proxy.mss).length }
          (Nat.min_le_right _ _)
        rw [hrest] at hnext
        rw [hnext.safe, ok_bind]
        exact .cons hshort ⟨rfl, hnext.short⟩
      · rw [if_neg hmore, if_pos (List.drop_eq_nil_of_le (by omega))]
        exact .nil c

/-- The cap of `lan_fetch` is exceeded by at most one read. -/
theorem length_fetchLoop_le {chunks : List Bytes} (h : ∀ chunk ∈ chunks, chunk.length ≤ 1460)
    {buf : Bytes} (hbuf : buf.length ≤ 64 * 1024) :
    (Strict.fetchLoop chunks buf).length ≤ 64 * 1024 + 1460 := by
  induction chunks generalizing buf with
  | nil =>
      rw [Strict.fetchLoop]
      omega
  | cons chunk chunks ih =>
      have hchunk := h chunk List.mem_cons_self
      rw [Strict.fetchLoop]
      split
      · omega
      split
      · rw [List.length_append]
        omega
      · exact ih (fun c hc => h c (List.mem_cons_of_mem chunk hc)) (by omega)

theorem length_lt_of_fetched {resp : Bytes} (h : Strict.Fetched resp) : resp.length < 2 ^ 31 := by
  obtain ⟨chunks, hchunks, rfl⟩ := h
  have hle : (Strict.fetchLoop chunks []).length ≤ 64 * 1024 + 1460 :=
    length_fetchLoop_le hchunks (Nat.zero_le _)
  omega

theorem proxyHandle_safe (hfetch : ∀ request, Strict.Fetched (lanFetch request))
    (self : Proxy.TcpProxy) :
    Yields (Strict.TcpProxy.handle listenPort lanFetch self inner iss)
      (self.handle listenPort lanFetch inner iss) := by
  rw [Strict.TcpProxy.handle, parseSegment_safe, ok_bind, Proxy.TcpProxy.handle]
  cases parseSegment inner with
  | none => exact .nil self
  | some s =>
      have hbare : ∀ (c : Proxy.Conn) (flags : UInt8), _ := fun c flags =>
        proxySegment_safe listenPort c flags [] (by decide)
      dsimp only
      split
      · exact .nil self
      split
      · rw [(hbare _ _).1]
        exact .one _ (hbare _ _).2
      split
      · exact .nil self
      split
      · exact .nil _
      split
      · rw [(hbare _ _).1, ok_bind]
        split
        · rw [(hbare _ _).1]
          exact .cons (hbare _ _).2 (.one _ (hbare _ _).2)
        · have hstream := proxyStream_safe listenPort (length_lt_of_fetched (hfetch s.payload))
            (lanFetch s.payload).length 0 { self.conn with
              rcvNxt := s.seq + UInt32.ofNat s.payload.length, fetched := true } (Nat.zero_le _)
          rw [List.drop_zero] at hstream
          rw [hstream.safe, ok_bind]
          exact .cons (hbare _ _).2 ⟨rfl, hstream.short⟩
      split
      · rw [(hbare _ _).1]
        exact .one _ (hbare _ _).2
      exact .nil self

end Machines

end TailscaleRust.Proofs
