import Mathlib.Data.Nat.Digits.Defs
import TailscaleRust.Proofs.Segments

/-!
# The branches of the two servers

`TcpServer::handle` and `TcpProxy::handle` take a segment through the same
checks: the port, the SYN, the connection, the RST. What is left is the
request or the client's FIN. `serverBranch` and `proxyBranch` say which of
the two a segment without SYN comes to, if any, and then there is one
equation for each branch, so that nothing later has to open `handle` again.
-/

namespace TailscaleRust.Proofs

open TailscaleRust.Lib TailscaleRust.Core TailscaleRust.Core.Tcp
open TailscaleRust.Firmware

/-- The packet that carries a segment. -/
def packetOf (ackNo : UInt32) (s : Segment) : Bytes :=
  tcpPacket s.srcIp s.dstIp s.sport s.dport s.seq ackNo s.flags s.payload

theorem parseSegment_packetOf {s : Segment} (ackNo : UInt32) (h : 40 + s.payload.length ≤ 65535) :
    parseSegment (packetOf ackNo s) = some s :=
  parseSegment_tcpPacket h

theorem ackNumber_packetOf {s : Segment} (ackNo : UInt32) (h : 40 + s.payload.length ≤ 65535) :
    ackNumber (packetOf ackNo s) = ackNo :=
  ackNumber_tcpPacket h

/-- The branches of `handle` that answer a segment without SYN. -/
inductive Branch where
  | request
  | close
  deriving DecidableEq

/-! ## The HTTP server -/

theorem length_decimal_le {n e : Nat} (he : 0 < e) (h : n < 10 ^ e) : (decimal n).length ≤ e := by
  have hrepr := Nat.repr_length n e he h
  rwa [decimal, ascii, List.length_map, String.length_toList]

theorem length_dotted_le (ip : Ipv4Addr) : (dotted ip).length ≤ 15 := by
  have hbyte : ∀ b : UInt8, (decimal b.toNat).length ≤ 3 := fun b =>
    length_decimal_le (by omega) (Nat.lt_trans b.toNat_lt (by decide))
  have h0 := hbyte (byteAt ip.1 0)
  have h1 := hbyte (byteAt ip.1 1)
  have h2 := hbyte (byteAt ip.1 2)
  have h3 := hbyte (byteAt ip.1 3)
  have hdot : (ascii ".").length = 1 := by decide
  simp only [dotted, List.length_append, hdot]
  omega

theorem length_page (ip : Ipv4Addr) : (page ip).length = 236 + (dotted ip).length := by
  simp only [page, List.length_append]
  simp [ascii]
  omega

theorem length_httpResponse (body : Bytes) :
    (httpResponse body).length = 96 + (decimal body.length).length + body.length := by
  simp only [httpResponse, List.length_append]
  simp [ascii]
  omega

/-- The page of any address, with its header, fits a packet. -/
theorem httpResponse_fits (ip : Ipv4Addr) : 40 + (httpResponse (page ip)).length ≤ 1000 := by
  have hip := length_dotted_le ip
  have hpage := length_page ip
  have hdecimal : (decimal (page ip).length).length ≤ 3 := length_decimal_le (by omega) (by omega)
  rw [length_httpResponse]
  omega

theorem httpResponse_ne_nil (body : Bytes) : httpResponse body ≠ [] := by
  have hlen := length_httpResponse body
  exact List.ne_nil_of_length_pos (by omega)

/-- The branch a segment without SYN takes in `TcpServer::handle`. -/
def serverBranch (srv : TcpServer) (s : Segment) : Option Branch :=
  if !srv.conn.active ∨ s.srcIp ≠ srv.conn.clientIp ∨ s.sport ≠ srv.conn.clientPort then none
  else if s.flags &&& rst ≠ 0 then none
  else if s.payload ≠ [] then some .request
  else if s.flags &&& fin ≠ 0 then some .close
  else none

section Server

variable {srv : TcpServer} {inner : Bytes} {s : Segment} {iss : UInt32}

/-- A segment that is answered belongs to the connection. -/
theorem serverBranch_some {b : Branch} (h : serverBranch srv s = some b) :
    srv.conn.active = true ∧ s.srcIp = srv.conn.clientIp ∧ s.sport = srv.conn.clientPort ∧
      (b = .request → s.payload ≠ []) ∧ (b = .close → s.payload = [] ∧ s.flags &&& fin ≠ 0) := by
  rw [serverBranch] at h
  split at h
  · cases h
  · next hours =>
      obtain ⟨hactive, hip, hport⟩ := (not_or.mp hours).imp_right not_or.mp
      refine ⟨by simpa using hactive, not_not.mp hip, not_not.mp hport, ?_⟩
      split at h
      · cases h
      · split at h
        · next hpayload =>
            cases h
            exact ⟨fun _ => hpayload, fun hb => (by cases hb)⟩
        · next hpayload =>
            split at h
            · next hfin =>
                cases h
                exact ⟨fun hb => (by cases hb), fun _ => ⟨not_not.mp hpayload, hfin⟩⟩
            · cases h

/-- A packet for another port, or none at all. -/
theorem server_other (h : ∀ s, parseSegment inner = some s → s.dport ≠ httpPort) :
    srv.handle inner iss = ([], srv) := by
  rw [TcpServer.handle]
  cases hparse : parseSegment inner with
  | none => rfl
  | some s => exact if_pos (h s hparse)

variable (hparse : parseSegment inner = some s) (hport : s.dport = httpPort)

include hparse hport

/-- A SYN begins a connection, whatever there was before. -/
theorem server_opens (srv : TcpServer) (iss : UInt32) (hsyn : s.flags &&& syn ≠ 0) :
    srv.handle inner iss =
      ([tcpPacket s.dstIp s.srcIp httpPort s.sport iss (s.seq + 1) (syn ||| Tcp.ack) []],
        ⟨⟨true, s.srcIp, s.dstIp, s.sport, s.seq + 1, iss + 1⟩⟩) := by
  simp only [TcpServer.handle, hparse]
  rw [if_neg (not_not.mpr hport), if_pos hsyn]
  rfl

/-- A segment without SYN goes to its branch; a RST is the only other thing
that changes the connection. -/
theorem server_branch (srv : TcpServer) (iss : UInt32) (hsyn : s.flags &&& syn = 0) :
    match serverBranch srv s with
    | some .request =>
        srv.handle inner iss =
          ([tcpPacket srv.conn.ourIp srv.conn.clientIp httpPort srv.conn.clientPort
              srv.conn.sndNxt (s.seq + UInt32.ofNat s.payload.length) (psh ||| Tcp.ack ||| fin)
              (httpResponse (page srv.conn.ourIp))],
            ⟨{ srv.conn with
                rcvNxt := s.seq + UInt32.ofNat s.payload.length
                sndNxt := srv.conn.sndNxt +
                  UInt32.ofNat (httpResponse (page srv.conn.ourIp)).length + 1 }⟩)
    | some .close =>
        srv.handle inner iss =
          ([tcpPacket srv.conn.ourIp srv.conn.clientIp httpPort srv.conn.clientPort
              srv.conn.sndNxt (s.seq + 1) Tcp.ack []], ⟨Tcp.Conn.default⟩)
    | none =>
        srv.handle inner iss = ([], srv) ∨
          (s.flags &&& rst ≠ 0 ∧ srv.handle inner iss = ([], ⟨Tcp.Conn.default⟩)) := by
  simp only [TcpServer.handle, hparse]
  rw [if_neg (not_not.mpr hport), if_neg (not_not.mpr hsyn), serverBranch]
  by_cases hours : (!srv.conn.active) = true ∨ s.srcIp ≠ srv.conn.clientIp ∨
      s.sport ≠ srv.conn.clientPort
  · rw [if_pos hours, if_pos hours]
    exact .inl rfl
  rw [if_neg hours, if_neg hours]
  by_cases hrst : s.flags &&& rst ≠ 0
  · rw [if_pos hrst, if_pos hrst]
    exact .inr ⟨hrst, rfl⟩
  rw [if_neg hrst, if_neg hrst]
  by_cases hpayload : s.payload ≠ []
  · rw [if_pos hpayload, if_pos hpayload]
    rfl
  rw [if_neg hpayload, if_neg hpayload]
  by_cases hfin : s.flags &&& fin ≠ 0
  · rw [if_pos hfin, if_pos hfin]
    rfl
  · rw [if_neg hfin, if_neg hfin]
    exact .inl rfl

end Server

/-! ## The proxy -/

/-- The branch a segment without SYN takes in `TcpProxy::handle`. Data that
comes after the request does not keep a FIN from its branch. -/
def proxyBranch (proxy : Proxy.TcpProxy) (s : Segment) : Option Branch :=
  if !proxy.conn.active ∨ s.srcIp ≠ proxy.conn.clientIp ∨ s.sport ≠ proxy.conn.clientPort then none
  else if s.flags &&& rst ≠ 0 then none
  else if s.payload ≠ [] ∧ !proxy.conn.fetched then some .request
  else if s.flags &&& fin ≠ 0 then some .close
  else none

/-- The proxy's reply to a request with this response. -/
def replyTo (listenPort : UInt16) (conn : Proxy.Conn) (resp : Bytes) :
    List Bytes × Proxy.TcpProxy :=
  if resp = [] then
    ([conn.segment listenPort Tcp.ack [], conn.segment listenPort (fin ||| Tcp.ack) []],
      ⟨{ conn with sndNxt := conn.sndNxt + 1 }⟩)
  else
    let (segs, conn') := conn.stream listenPort resp.length resp
    (conn.segment listenPort Tcp.ack [] :: segs, ⟨conn'⟩)

section Proxy

variable {listenPort : UInt16} {lanFetch : Bytes → Bytes} {proxy : Proxy.TcpProxy}
  {inner : Bytes} {s : Segment} {iss : UInt32}

theorem proxyBranch_some {b : Branch} (h : proxyBranch proxy s = some b) :
    (b = .request → s.payload ≠ []) ∧ (b = .close → s.flags &&& fin ≠ 0) := by
  rw [proxyBranch] at h
  split at h
  · cases h
  · split at h
    · cases h
    · split at h
      · next hask =>
          cases h
          exact ⟨fun _ => hask.1, fun hb => (by cases hb)⟩
      · split at h
        · next hfin =>
            cases h
            exact ⟨fun hb => (by cases hb), fun _ => hfin⟩
        · cases h

/-- A packet for another port, or none at all. -/
theorem proxy_other (h : ∀ s, parseSegment inner = some s → s.dport ≠ listenPort) :
    proxy.handle listenPort lanFetch inner iss = ([], proxy) ∧
      proxy.lanRequest listenPort inner = none := by
  rw [Proxy.TcpProxy.handle, Proxy.TcpProxy.lanRequest]
  cases hparse : parseSegment inner with
  | none => exact ⟨rfl, rfl⟩
  | some s => exact ⟨if_pos (h s hparse), if_pos (.inl (h s hparse))⟩

variable (hparse : parseSegment inner = some s) (hport : s.dport = listenPort)

include hparse hport

/-- A SYN begins a connection, whatever there was before. -/
theorem proxy_opens (lanFetch : Bytes → Bytes) (proxy : Proxy.TcpProxy) (iss : UInt32)
    (hsyn : s.flags &&& syn ≠ 0) :
    proxy.handle listenPort lanFetch inner iss =
        ([tcpPacket s.dstIp s.srcIp listenPort s.sport iss (s.seq + 1) (syn ||| Tcp.ack) []],
          ⟨⟨true, s.srcIp, s.dstIp, s.sport, s.seq + 1, iss + 1, false⟩⟩) ∧
      proxy.lanRequest listenPort inner = none := by
  simp only [Proxy.TcpProxy.handle, Proxy.TcpProxy.lanRequest, hparse]
  rw [if_neg (not_not.mpr hport), if_pos hsyn, if_pos (.inr hsyn)]
  exact ⟨rfl, rfl⟩

/-- What is passed to `lan_fetch` is the payload of a segment that comes to
the request branch. -/
theorem lanRequest_branch (proxy : Proxy.TcpProxy) (hsyn : s.flags &&& syn = 0) :
    proxy.lanRequest listenPort inner =
      if proxyBranch proxy s = some .request then some s.payload else none := by
  simp only [Proxy.TcpProxy.lanRequest, hparse]
  rw [if_neg (by simp [hport, hsyn]), proxyBranch]
  split
  · rfl
  · split
    · rfl
    · split
      · rfl
      · split
        · rfl
        · rfl

theorem proxy_branch (lanFetch : Bytes → Bytes) (proxy : Proxy.TcpProxy) (iss : UInt32)
    (hsyn : s.flags &&& syn = 0) :
    match proxyBranch proxy s with
    | some .request =>
        proxy.handle listenPort lanFetch inner iss =
          replyTo listenPort { proxy.conn with
            rcvNxt := s.seq + UInt32.ofNat s.payload.length, fetched := true }
            (lanFetch s.payload)
    | some .close =>
        proxy.handle listenPort lanFetch inner iss =
          ([tcpPacket proxy.conn.ourIp proxy.conn.clientIp listenPort proxy.conn.clientPort
              proxy.conn.sndNxt (s.seq + 1) Tcp.ack []], ⟨Proxy.Conn.default⟩)
    | none =>
        proxy.handle listenPort lanFetch inner iss = ([], proxy) ∨
          (s.flags &&& rst ≠ 0 ∧
            proxy.handle listenPort lanFetch inner iss = ([], ⟨Proxy.Conn.default⟩)) := by
  simp only [Proxy.TcpProxy.handle, hparse]
  rw [if_neg (not_not.mpr hport), if_neg (not_not.mpr hsyn), proxyBranch]
  by_cases hours : (!proxy.conn.active) = true ∨ s.srcIp ≠ proxy.conn.clientIp ∨
      s.sport ≠ proxy.conn.clientPort
  · rw [if_pos hours, if_pos hours]
    exact .inl rfl
  rw [if_neg hours, if_neg hours]
  by_cases hrst : s.flags &&& rst ≠ 0
  · rw [if_pos hrst, if_pos hrst]
    exact .inr ⟨hrst, rfl⟩
  rw [if_neg hrst, if_neg hrst]
  by_cases hask : s.payload ≠ [] ∧ (!proxy.conn.fetched) = true
  · rw [if_pos hask, if_pos hask]
    rfl
  rw [if_neg hask, if_neg hask]
  by_cases hfin : s.flags &&& fin ≠ 0
  · rw [if_pos hfin, if_pos hfin]
    rfl
  · rw [if_neg hfin, if_neg hfin]
    exact .inl rfl

end Proxy

/-! ## The proxy's reply

An acknowledgement, and then the response in pieces of at most `mss`, the
last with the FIN; with no response, the FIN alone. -/

/-- The segments of a response: one per piece, the last with the FIN. -/
def streamSegments (seg : Segment) : UInt32 → List Bytes → List Segment
  | _, [] => []
  | x, [p] => [{ seg with seq := x, flags := psh ||| Tcp.ack ||| fin, payload := p }]
  | x, p :: q :: ps =>
      { seg with seq := x, flags := psh ||| Tcp.ack, payload := p } ::
        streamSegments seg (x + UInt32.ofNat p.length) (q :: ps)

theorem streamSegments_payloads (seg : Segment) (x : UInt32) (ps : List Bytes) :
    (streamSegments seg x ps).map Segment.payload = ps := by
  induction x, ps using streamSegments.induct with
  | case1 x => rfl
  | case2 x p => rfl
  | case3 x p q ps ih =>
      rw [streamSegments, List.map_cons, ih]

/-- The segments of a reply with the response in these pieces. -/
def replySegments (seg : Segment) (x : UInt32) (ps : List Bytes) : List Segment :=
  { seg with seq := x, flags := Tcp.ack, payload := [] } ::
    if ps = [] then [{ seg with seq := x, flags := fin ||| Tcp.ack, payload := [] }]
    else streamSegments seg x ps

theorem replySegments_fits (seg : Segment) (x : UInt32) {ps : List Bytes}
    (hps : ∀ p ∈ ps, p ≠ [] ∧ p.length ≤ Proxy.mss) :
    ∀ s ∈ replySegments seg x ps, 40 + s.payload.length ≤ 65535 := by
  intro s hs
  rcases List.mem_cons.mp hs with rfl | hs
  · simp
  · split at hs
    · cases List.mem_singleton.mp hs
      simp
    · have hmem := List.mem_map_of_mem (f := Segment.payload) hs
      rw [streamSegments_payloads] at hmem
      have hshort := (hps _ hmem).2
      rw [Proxy.mss] at hshort
      omega

/-- The proxy sends a response in pieces. -/
theorem stream_pieces (listenPort : UInt16) (fuel : Nat) (conn : Proxy.Conn) {resp : Bytes}
    (hne : resp ≠ []) (hfuel : resp.length ≤ fuel) :
    ∃ ps x, ps ≠ [] ∧ ps.flatten = resp ∧ (∀ p ∈ ps, p ≠ [] ∧ p.length ≤ Proxy.mss) ∧
      conn.stream listenPort fuel resp =
        ((streamSegments ⟨conn.ourIp, conn.clientIp, listenPort, conn.clientPort, 0, 0, []⟩
            conn.sndNxt ps).map (packetOf conn.rcvNxt), { conn with sndNxt := x }) := by
  induction fuel generalizing conn resp with
  | zero => exact absurd (List.eq_nil_of_length_eq_zero (by omega)) hne
  | succ fuel ih =>
      have hpiece : resp.take Proxy.mss ≠ [] := by
        simp [Proxy.mss, hne]
      have hshort : (resp.take Proxy.mss).length ≤ Proxy.mss := List.length_take_le _ _
      rw [Proxy.Conn.stream, if_neg hne]
      by_cases hrest : resp.drop Proxy.mss = []
      · -- the last piece
        have hwhole : resp.take Proxy.mss = resp := by
          have happ := List.take_append_drop Proxy.mss resp
          rwa [hrest, List.append_nil] at happ
        refine ⟨[resp], conn.sndNxt + UInt32.ofNat resp.length + 1, List.cons_ne_nil _ _,
          List.flatten_singleton, ?_, ?_⟩
        · intro p hp
          cases List.mem_singleton.mp hp
          rw [← hwhole]
          exact ⟨hpiece, hshort⟩
        · simp only [hrest, hwhole, if_true]
          cases fuel with
          | zero => rfl
          | succ fuel => rfl
      · let conn₁ := { conn with sndNxt := conn.sndNxt + UInt32.ofNat (resp.take Proxy.mss).length }
        have hless : (resp.drop Proxy.mss).length ≤ fuel := by
          rw [List.length_drop, Proxy.mss]
          omega
        obtain ⟨ps, x, hps, hflat, hall, hstream⟩ := ih conn₁ hrest hless
        refine ⟨resp.take Proxy.mss :: ps, x, List.cons_ne_nil _ _, ?_, ?_, ?_⟩
        · rw [List.flatten_cons, hflat, List.take_append_drop]
        · intro p hp
          rcases List.mem_cons.mp hp with rfl | hp
          · exact ⟨hpiece, hshort⟩
          · exact hall p hp
        · simp only [if_neg hrest]
          rw [show Proxy.Conn.stream listenPort fuel conn₁ _ = _ from hstream]
          cases ps with
          | nil => exact absurd rfl hps
          | cons q ps => rfl

/-- The reply, as segments. -/
theorem replyTo_segments (listenPort : UInt16) (conn : Proxy.Conn) (resp : Bytes) :
    ∃ ps x, ps.flatten = resp ∧ (∀ p ∈ ps, p ≠ [] ∧ p.length ≤ Proxy.mss) ∧
      replyTo listenPort conn resp =
        ((replySegments ⟨conn.ourIp, conn.clientIp, listenPort, conn.clientPort, 0, 0, []⟩
            conn.sndNxt ps).map (packetOf conn.rcvNxt), ⟨{ conn with sndNxt := x }⟩) := by
  by_cases hresp : resp = []
  · refine ⟨[], conn.sndNxt + 1, hresp.symm, List.forall_mem_nil _, ?_⟩
    rw [replyTo, if_pos hresp, replySegments, if_pos rfl]
    rfl
  · obtain ⟨ps, x, hne, hflat, hps, hstream⟩ :=
      stream_pieces listenPort resp.length conn hresp (Nat.le_refl _)
    refine ⟨ps, x, hflat, hps, ?_⟩
    rw [replyTo, if_neg hresp, hstream, replySegments, if_neg hne]
    rfl

end TailscaleRust.Proofs
