import TailscaleRust.Lib.Duplex
import TailscaleRust.Proofs.TcpClient
import TailscaleRust.Proofs.TcpServers

/-!
# The client against the two servers

A client and one of the servers, joined by queues that lose nothing. The
exchange is followed round by round: the SYN, the SYN-ACK, the request, the
response in one segment or in many, the acknowledgements and the two FINs.
The servers send a response as a sequence of pieces, the last with the FIN,
and the client answers every piece with an acknowledgement and the last one
with its own FIN too, so one lemma on each side covers both servers and
every length of response.
-/

namespace TailscaleRust.Proofs

open TailscaleRust.Lib TailscaleRust.Core
open TailscaleRust.Core.Outbound TailscaleRust.Core.Tcp
open TailscaleRust.Firmware

/-! ## The packets of the three machines -/

theorem clientSegment_eq (c : TcpClient) (flags : UInt8) (payload : Bytes) :
    c.segment flags payload =
      tcpPacket c.src c.dst c.sport c.dport c.sndNxt c.rcvNxt flags payload := by
  rw [TcpClient.segment, ipv4Packet, tcpPacket, length_tcpSegment, ← Nat.add_assoc]

/-- A packet of the client that carries no data. -/
def FromClient (c : TcpClient) (flags : UInt8) (m : Bytes) : Prop :=
  ∃ x y, m = tcpPacket c.src c.dst c.sport c.dport x y flags []

/-! ## The client's side -/

section Client

variable {c : TcpClient}

theorem onInner_packet {src dst : Ipv4Addr} {sport : UInt16} {seq ackNo : UInt32} {flags : UInt8}
    {payload : Bytes} (h : 40 + payload.length ≤ 65535) :
    c.onInner (tcpPacket src dst sport c.sport seq ackNo flags payload) =
      reactsTo c ⟨seq, flags, payload⟩ := by
  rw [onInner_eq, hears_tcpPacket c h]

theorem reactsTo_synAck (hdone : c.done = false) (hest : c.established = false) (x : UInt32) :
    reactsTo c ⟨x, syn ||| Tcp.ack, []⟩ =
      ([tcpPacket c.src c.dst c.sport c.dport c.sndNxt (x + 1) Tcp.ack [],
        tcpPacket c.src c.dst c.sport c.dport c.sndNxt (x + 1) (psh ||| Tcp.ack) c.request],
        { c with rcvNxt := x + 1, established := true
                 sndNxt := c.sndNxt + UInt32.ofNat c.request.length }) := by
  have hopen : (syn ||| Tcp.ack) &&& syn ≠ 0 ∧ (syn ||| Tcp.ack) &&& Tcp.ack ≠ 0 ∧
      (!c.established) = true := by
    rw [hest]
    decide
  rw [reactsTo, if_neg (by rw [hdone]; decide), if_pos hopen]
  simp only [clientSegment_eq]

/-- A segment without SYN, as the client answers it. -/
theorem reactsTo_later {h : Heard} (hdone : c.done = false) (hsyn : h.flags &&& syn = 0) :
    reactsTo c h = ((c.onData h.seq h.payload).1 ++ ((c.onData h.seq h.payload).2.onFin h.flags).1,
      ((c.onData h.seq h.payload).2.onFin h.flags).2) := by
  rw [reactsTo, if_neg (by rw [hdone]; decide), if_neg (by simp [hsyn])]

theorem onData_here {payload : Bytes} (hne : payload ≠ []) :
    c.onData c.rcvNxt payload =
      ([tcpPacket c.src c.dst c.sport c.dport c.sndNxt
          (c.rcvNxt + UInt32.ofNat payload.length) Tcp.ack []],
        { c with response := c.response ++ payload
                 rcvNxt := c.rcvNxt + UInt32.ofNat payload.length }) := by
  rw [TcpClient.onData, if_neg hne]
  simp only [if_true, clientSegment_eq]

theorem onFin_fin {flags : UInt8} (hfin : flags &&& fin ≠ 0) :
    c.onFin flags =
      ([tcpPacket c.src c.dst c.sport c.dport c.sndNxt (c.rcvNxt + 1) Tcp.ack [],
        tcpPacket c.src c.dst c.sport c.dport c.sndNxt (c.rcvNxt + 1) (fin ||| Tcp.ack) []],
        { c with rcvNxt := c.rcvNxt + 1, done := true }) := by
  rw [TcpClient.onFin, if_pos hfin]
  simp only [clientSegment_eq]

theorem onFin_none {flags : UInt8} (hfin : flags &&& fin = 0) : c.onFin flags = ([], c) := by
  rw [TcpClient.onFin, if_neg (not_not.mpr hfin)]

/-- An acknowledgement without data is not answered. -/
theorem reactsTo_bareAck (x : UInt32) : reactsTo c ⟨x, Tcp.ack, []⟩ = ([], c) := by
  cases hdone : c.done with
  | true =>
      rw [reactsTo, hdone]
      rfl
  | false =>
      rw [reactsTo_later hdone (by show Tcp.ack &&& syn = 0; decide), TcpClient.onData, if_pos rfl]
      simp only [onFin_none (show Tcp.ack &&& fin = 0 by decide), List.append_nil]

end Client

/-! ## A response in pieces -/

/-- Each segment starts where the one before it ends. -/
def Contiguous : UInt32 → List Segment → Prop
  | _, [] => True
  | x, s :: ss => s.seq = x ∧ Contiguous (x + UInt32.ofNat s.payload.length) ss

section Pieces

variable (seg : Segment)

theorem streamSegments_contiguous (x : UInt32) (ps : List Bytes) :
    Contiguous x (streamSegments seg x ps) := by
  induction x, ps using streamSegments.induct with
  | case1 x => trivial
  | case2 x p => exact ⟨rfl, trivial⟩
  | case3 x p q ps ih => exact ⟨rfl, ih⟩

theorem streamSegments_fin (x : UInt32) {ps : List Bytes} (hne : ps ≠ []) :
    ∃ s, (streamSegments seg x ps).filter (fun s => s.flags &&& fin ≠ 0) = [s] ∧
      (streamSegments seg x ps).getLast? = some s := by
  induction x, ps using streamSegments.induct with
  | case1 x => exact absurd rfl hne
  | case2 x p =>
      refine ⟨_, ?_, rfl⟩
      rw [streamSegments, List.filter_cons, if_pos (by simp; decide)]
      rfl
  | case3 x p q ps ih =>
      obtain ⟨s, hfin, hlast⟩ := ih (List.cons_ne_nil q ps)
      refine ⟨s, ?_, ?_⟩
      · rw [streamSegments, List.filter_cons, if_neg (by simp; decide)]
        exact hfin
      · rw [streamSegments, List.getLast?_cons, hlast]
        rfl

end Pieces

/-- The client reads a reply: it takes the whole response from it, answers
with acknowledgements and ends with its own FIN. -/
def TakesReply (c : TcpClient) (reply : List Bytes) (resp : Bytes) : Prop :=
  ∃ acks last c', feed TcpClient.onInner c reply = (acks ++ [last], c') ∧
    (∀ m ∈ acks, FromClient c Tcp.ack m) ∧ FromClient c (fin ||| Tcp.ack) last ∧
    c'.done = true ∧ c'.response = c.response ++ resp ∧ c'.sport = c.sport

section TakesReply

variable {c : TcpClient}

theorem takesReply_bareAck {src dst : Ipv4Addr} {sport : UInt16} {x y : UInt32} {reply : List Bytes}
    {resp : Bytes} (h : TakesReply c reply resp) :
    TakesReply c (tcpPacket src dst sport c.sport x y Tcp.ack [] :: reply) resp := by
  obtain ⟨acks, last, c', hfeed, hrest⟩ := h
  refine ⟨acks, last, c', ?_, hrest⟩
  rw [feed, onInner_packet (by simp), reactsTo_bareAck]
  simp only [hfeed, List.nil_append]

/-- The lone FIN that ends an empty response. -/
theorem takesReply_fin {src dst : Ipv4Addr} {sport : UInt16} {x y : UInt32}
    (hdone : c.done = false) :
    TakesReply c [tcpPacket src dst sport c.sport x y (fin ||| Tcp.ack) []] [] := by
  have hstep : c.onInner (tcpPacket src dst sport c.sport x y (fin ||| Tcp.ack) []) =
      c.onFin (fin ||| Tcp.ack) := by
    rw [onInner_packet (by simp),
      reactsTo_later hdone (by show (fin ||| Tcp.ack) &&& syn = 0; decide), TcpClient.onData,
      if_pos rfl]
    simp only [List.nil_append]
  rw [onFin_fin (by decide)] at hstep
  rw [TakesReply, feed, hstep]
  refine ⟨[_], _, _, rfl, ?_, ⟨_, _, rfl⟩, rfl, ?_, rfl⟩
  · intro m hm
    cases List.mem_singleton.mp hm
    exact ⟨_, _, rfl⟩
  · rw [List.append_nil]

/-- A response in pieces. -/
theorem takesReply_pieces (seg : Segment) (ackNo : UInt32) (ps : List Bytes)
    (hport : seg.dport = c.sport) (hdone : c.done = false) (hest : c.established = true)
    (hne : ps ≠ [])
    (hps : ∀ p ∈ ps, p ≠ [] ∧ 40 + p.length ≤ 65535) :
    TakesReply c ((streamSegments seg c.rcvNxt ps).map (packetOf ackNo)) ps.flatten := by
  induction ps generalizing c with
  | nil => exact absurd rfl hne
  | cons p ps ih =>
      obtain ⟨hp, hlen⟩ := hps p List.mem_cons_self
      cases ps with
      | nil =>
          have hstep : TcpClient.onInner c (packetOf ackNo
              { seg with seq := c.rcvNxt, flags := psh ||| Tcp.ack ||| fin, payload := p }) =
              reactsTo c ⟨c.rcvNxt, psh ||| Tcp.ack ||| fin, p⟩ := by
            rw [packetOf, hport]
            exact onInner_packet hlen
          rw [reactsTo_later hdone (by show (psh ||| Tcp.ack ||| fin) &&& syn = 0; decide),
            onData_here hp, onFin_fin (by show (psh ||| Tcp.ack ||| fin) &&& fin ≠ 0; decide)]
            at hstep
          rw [TakesReply, streamSegments, List.map_cons, List.map_nil, feed, hstep]
          refine ⟨[_, _], _, _, rfl, ?_, ⟨_, _, rfl⟩, rfl, ?_, rfl⟩
          · intro m hm
            rcases List.mem_cons.mp hm with rfl | hm
            · exact ⟨_, _, rfl⟩
            · cases List.mem_singleton.mp hm
              exact ⟨_, _, rfl⟩
          · show c.response ++ p = c.response ++ [p].flatten
            rw [List.flatten_singleton]
      | cons q ps =>
          have hstep : TcpClient.onInner c (packetOf ackNo
              { seg with seq := c.rcvNxt, flags := psh ||| Tcp.ack, payload := p }) =
              reactsTo c ⟨c.rcvNxt, psh ||| Tcp.ack, p⟩ := by
            rw [packetOf, hport]
            exact onInner_packet hlen
          rw [reactsTo_later hdone (by show (psh ||| Tcp.ack) &&& syn = 0; decide),
            onData_here hp, onFin_none (by show (psh ||| Tcp.ack) &&& fin = 0; decide)] at hstep
          let c₁ : TcpClient := { c with
            response := c.response ++ p, rcvNxt := c.rcvNxt + UInt32.ofNat p.length }
          obtain ⟨acks, last, c', hfeed, hacks, hlast, hdone', hresp, hsport⟩ :=
            ih (c := c₁) hport hdone hest (List.cons_ne_nil q ps)
              fun r hr => hps r (List.mem_cons_of_mem p hr)
          rw [TakesReply, streamSegments, List.map_cons, feed, hstep]
          simp only []
          rw [show feed TcpClient.onInner c₁ _ = _ from hfeed]
          refine ⟨_ :: acks, last, c', rfl, ?_, hlast, hdone', ?_, hsport⟩
          · intro m hm
            rcases List.mem_cons.mp hm with rfl | hm
            · exact ⟨_, _, rfl⟩
            · exact hacks m hm
          · rw [hresp, List.flatten_cons (l := p)]
            show c.response ++ p ++ _ = _
            rw [List.append_assoc]

end TakesReply

/-! ## The rounds of an exchange -/

/-- The client once it has read the SYN-ACK. -/
def joined (c : TcpClient) (iss : UInt32) : TcpClient :=
  { c with rcvNxt := iss + 1, established := true
           sndNxt := c.sndNxt + 1 + UInt32.ofNat c.request.length }

/-- The request as the client sends it. -/
def requestOf (c : TcpClient) (iss : UInt32) : Bytes :=
  tcpPacket c.src c.dst c.sport c.dport (c.sndNxt + 1) (iss + 1) (psh ||| Tcp.ack) c.request

theorem openSyn_reads_synAck {c : TcpClient} (hopened : Opened c) (iss x : UInt32) :
    c.openSyn.2.onInner (tcpPacket c.dst c.src c.dport c.sport iss x (syn ||| Tcp.ack) []) =
      ([tcpPacket c.src c.dst c.sport c.dport (c.sndNxt + 1) (iss + 1) Tcp.ack [],
        requestOf c iss], joined c iss) := by
  refine (onInner_packet (c := c.openSyn.2) (by simp)).trans ?_
  exact reactsTo_synAck (c := c.openSyn.2) hopened.done hopened.established iss

/-- The exchange with any server that answers the SYN, replies to the request
and acknowledges the FIN. -/
theorem exchange_settles {B : Type} (step : B → Bytes → List Bytes × B) {b b₁ b₂ : B}
    {c : TcpClient} {iss x : UInt32} {reply : List Bytes} {resp : Bytes} (hopened : Opened c)
    (hsyn : step b c.openSyn.1 =
      ([tcpPacket c.dst c.src c.dport c.sport iss x (syn ||| Tcp.ack) []], b₁))
    (hack₁ : ∀ m, FromClient c Tcp.ack m → step b₁ m = ([], b₁))
    (hreq : step b₁ (requestOf c iss) = (reply, b₂))
    (hreads : TakesReply (joined c iss) reply resp)
    (hack₂ : ∀ m, FromClient c Tcp.ack m → step b₂ m = ([], b₂))
    (hfin : ∀ m, FromClient c (fin ||| Tcp.ack) m →
      ∃ y z, (step b₂ m).1 = [tcpPacket c.dst c.src c.dport c.sport y z Tcp.ack []]) :
    ∃ c' m, FromClient c (fin ||| Tcp.ack) m ∧
      Settles TcpClient.onInner step ⟨c.openSyn.2, b, [c.openSyn.1], []⟩
        ⟨c', (step b₂ m).2, [], []⟩ ∧ c'.done = true ∧ c'.response = resp := by
  obtain ⟨acks, last, c', hfeed, hacks, hlast, hdone, hresp, hsport⟩ := hreads
  obtain ⟨y, z, hfinAck⟩ := hfin last hlast
  -- the client takes up the connection
  have hserver₁ : feed step b [c.openSyn.1] =
      ([tcpPacket c.dst c.src c.dport c.sport iss x (syn ||| Tcp.ack) []], b₁) := by
    rw [feed, hsyn]
    rfl
  have hclient₁ : feed TcpClient.onInner c.openSyn.2
      [tcpPacket c.dst c.src c.dport c.sport iss x (syn ||| Tcp.ack) []] =
      ([tcpPacket c.src c.dst c.sport c.dport (c.sndNxt + 1) (iss + 1) Tcp.ack [],
        requestOf c iss], joined c iss) := by
    rw [feed, openSyn_reads_synAck hopened]
    rfl
  -- it sends the request and reads the reply
  have hserver₂ : feed step b₁
      [tcpPacket c.src c.dst c.sport c.dport (c.sndNxt + 1) (iss + 1) Tcp.ack [],
        requestOf c iss] = (reply, b₂) := by
    rw [feed, hack₁ _ ⟨_, _, rfl⟩]
    simp only [feed, hreq, List.nil_append, List.append_nil]
  -- the server closes, and its last acknowledgement changes nothing
  have hserver₃ : feed step b₂ (acks ++ [last]) =
      ([tcpPacket c.dst c.src c.dport c.sport y z Tcp.ack []], (step b₂ last).2) := by
    rw [feed_append, feed_silent fun m hm => hack₂ m (hacks m hm)]
    simp only [feed, hfinAck, List.nil_append, List.append_nil]
  have hclient₃ : feed TcpClient.onInner c'
      [tcpPacket c.dst c.src c.dport c.sport y z Tcp.ack []] = ([], c') := by
    rw [feed, show c.sport = c'.sport from hsport.symm, onInner_packet (by simp), reactsTo_bareAck]
    rfl
  obtain ⟨n₁, h₁⟩ := deliver_round _ _ hserver₁ hclient₁
  obtain ⟨n₂, h₂⟩ := deliver_round _ _ hserver₂ hfeed
  obtain ⟨n₃, h₃⟩ := deliver_round _ _ hserver₃ hclient₃
  refine ⟨c', last, hlast, settles_of_steps _ _ ((h₁.trans h₂).trans h₃), hdone, ?_⟩
  rw [hresp, show (joined c iss).response = [] from hopened.response, List.nil_append]

/-! ## The HTTP server -/

section Server

variable {c : TcpClient} {srv : TcpServer} {iss : UInt32}

/-- The server is in a connection with this client. -/
structure ServerIn (c : TcpClient) (srv : TcpServer) : Prop where
  active : srv.conn.active = true
  clientIp : srv.conn.clientIp = c.src
  clientPort : srv.conn.clientPort = c.sport
  ourIp : srv.conn.ourIp = c.dst

theorem serverBranch_in (hin : ServerIn c srv) (x : UInt32) (flags : UInt8) (payload : Bytes) :
    serverBranch srv ⟨c.src, c.dst, c.sport, c.dport, x, flags, payload⟩ =
      if flags &&& rst ≠ 0 then none
      else if payload ≠ [] then some .request
      else if flags &&& fin ≠ 0 then some .close
      else none := by
  rw [serverBranch, if_neg]
  rw [hin.active, hin.clientIp, hin.clientPort]
  simp

/-- `handle` on a packet of its client that is neither SYN nor RST. -/
theorem server_later (hin : ServerIn c srv) (hport : c.dport = httpPort) {x y : UInt32}
    {flags : UInt8} {payload : Bytes} (hsyn : flags &&& syn = 0) (hrst : flags &&& rst = 0)
    (hfits : 40 + payload.length ≤ 65535) :
    srv.handle (tcpPacket c.src c.dst c.sport c.dport x y flags payload) iss =
      if payload ≠ [] then
        ([tcpPacket c.dst c.src c.dport c.sport srv.conn.sndNxt (x + UInt32.ofNat payload.length)
            (psh ||| Tcp.ack ||| fin) (httpResponse (page c.dst))],
          ⟨{ srv.conn with
              rcvNxt := x + UInt32.ofNat payload.length
              sndNxt := srv.conn.sndNxt + UInt32.ofNat (httpResponse (page c.dst)).length + 1 }⟩)
      else if flags &&& fin ≠ 0 then
        ([tcpPacket c.dst c.src c.dport c.sport srv.conn.sndNxt (x + 1) Tcp.ack []],
          ⟨Tcp.Conn.default⟩)
      else ([], srv) := by
  have hparse : parseSegment (tcpPacket c.src c.dst c.sport c.dport x y flags payload) =
      some ⟨c.src, c.dst, c.sport, c.dport, x, flags, payload⟩ := parseSegment_tcpPacket hfits
  have hbranch := server_branch hparse hport srv iss hsyn
  rw [serverBranch_in hin, if_neg (not_not.mpr hrst)] at hbranch
  rw [← hin.ourIp, ← hin.clientIp, ← hin.clientPort, hport]
  rw [← hin.ourIp, ← hin.clientIp, ← hin.clientPort, hport] at hbranch
  split
  · next hne =>
      rw [if_pos hne] at hbranch
      exact hbranch
  · next hnil =>
      rw [if_neg hnil] at hbranch
      split
      · next hfin =>
          rw [if_pos hfin] at hbranch
          exact hbranch
      · next hfin =>
          rw [if_neg hfin] at hbranch
          exact hbranch.resolve_right fun h => h.1 hrst

/-- The SYN opens the connection, whatever the server did before. -/
theorem server_syn (hport : c.dport = httpPort) (srv : TcpServer) (iss : UInt32) :
    ∃ srv', srv.handle c.openSyn.1 iss =
        ([tcpPacket c.dst c.src c.dport c.sport iss (c.sndNxt + 1) (syn ||| Tcp.ack) []], srv') ∧
      ServerIn c srv' ∧ srv'.conn.sndNxt = iss + 1 := by
  have hparse : parseSegment c.openSyn.1 =
      some ⟨c.src, c.dst, c.sport, c.dport, c.sndNxt, syn, []⟩ := by
    rw [TcpClient.openSyn, clientSegment_eq]
    exact parseSegment_tcpPacket (by simp)
  have hsyn := server_opens hparse hport srv iss (show syn &&& syn ≠ 0 by decide)
  rw [← hport] at hsyn
  exact ⟨_, hsyn, ⟨rfl, rfl, rfl, rfl⟩, rfl⟩

theorem server_ack (hin : ServerIn c srv) (hport : c.dport = httpPort) {m : Bytes}
    (hm : FromClient c Tcp.ack m) : srv.handle m iss = ([], srv) := by
  obtain ⟨x, y, rfl⟩ := hm
  rw [server_later hin hport (by decide) (by decide) (by simp), if_neg (not_not.mpr rfl),
    if_neg (by decide)]

theorem server_fin (hin : ServerIn c srv) (hport : c.dport = httpPort) (iss : UInt32) {m : Bytes}
    (hm : FromClient c (fin ||| Tcp.ack) m) :
    ∃ y z, srv.handle m iss =
      ([tcpPacket c.dst c.src c.dport c.sport y z Tcp.ack []], ⟨Tcp.Conn.default⟩) := by
  obtain ⟨x, y, rfl⟩ := hm
  rw [server_later hin hport (by decide) (by decide) (by simp), if_neg (not_not.mpr rfl),
    if_pos (by decide)]
  exact ⟨_, _, rfl⟩

theorem server_request (hin : ServerIn c srv) (hsnd : srv.conn.sndNxt = iss + 1)
    (hopened : Opened c) (hport : c.dport = httpPort) (hne : c.request ≠ [])
    (hfits : 40 + c.request.length ≤ 65535) :
    ∃ reply srv', srv.handle (requestOf c iss) iss = (reply, srv') ∧ ServerIn c srv' ∧
      TakesReply (joined c iss) reply (httpResponse (page c.dst)) := by
  have hlen := httpResponse_fits c.dst
  have hreads := takesReply_pieces (c := joined c iss) ⟨c.dst, c.src, c.dport, c.sport, 0, 0, []⟩
    (c.sndNxt + 1 + UInt32.ofNat c.request.length) [httpResponse (page c.dst)] rfl hopened.done rfl
    (List.cons_ne_nil _ _)
    (by
      intro p hp
      cases List.mem_singleton.mp hp
      exact ⟨httpResponse_ne_nil _, by omega⟩)
  rw [List.flatten_singleton] at hreads
  rw [requestOf, server_later hin hport (by decide) (by decide) hfits, if_pos hne, hsnd]
  exact ⟨_, _, rfl, ⟨hin.active, hin.clientIp, hin.clientPort, hin.ourIp⟩, hreads⟩

/-- The exchange with the HTTP server. -/
theorem server_exchange (hopened : Opened c) (hport : c.dport = httpPort)
    (hne : c.request ≠ []) (hfits : 40 + c.request.length ≤ 65535) (srv : TcpServer)
    (iss : UInt32) :
    ∃ d, Settles TcpClient.onInner (fun srv m => TcpServer.handle srv m iss)
        ⟨c.openSyn.2, srv, [c.openSyn.1], []⟩ d ∧
      d.a.done = true ∧ d.a.response = httpResponse (page c.dst) ∧ d.b.conn.active = false := by
  obtain ⟨srv₁, hsyn, hin₁, hsnd⟩ := server_syn hport srv iss
  obtain ⟨reply, srv₂, hreq, hin₂, hreads⟩ := server_request hin₁ hsnd hopened hport hne hfits
  obtain ⟨c', m, hm, hsettles, hdone, hresp⟩ := exchange_settles
    (fun srv m => TcpServer.handle srv m iss) hopened hsyn
    (fun m hm => server_ack hin₁ hport hm) hreq hreads (fun m hm => server_ack hin₂ hport hm)
    fun m hm => by
      obtain ⟨y, z, h⟩ := server_fin hin₂ hport iss hm
      exact ⟨y, z, congrArg Prod.fst h⟩
  obtain ⟨y, z, hlast⟩ := server_fin hin₂ hport iss hm
  refine ⟨_, hsettles, hdone, hresp, ?_⟩
  show (srv₂.handle m iss).2.conn.active = false
  rw [hlast]
  rfl

end Server

/-! ## The proxy

The proxy's reply is an acknowledgement and then the response in pieces, or
a lone FIN when there is none. -/

section Stream

/-- The segments of a list that carry data. -/
def dataSegments (segs : List Segment) : List Segment := segs.filter fun s => s.payload ≠ []

/-- The segments of a list that carry a FIN. -/
def finSegments (segs : List Segment) : List Segment := segs.filter fun s => s.flags &&& fin ≠ 0

/-- The data segments are the response in pieces of at most `mss` from the
sequence number after `iss` on, and there is one FIN, on the last of them. -/
structure StreamOf (iss : UInt32) (resp : Bytes) (segs : List Segment) : Prop where
  short : ∀ s ∈ dataSegments segs, s.payload.length ≤ Proxy.mss
  contiguous : Contiguous (iss + 1) (dataSegments segs)
  response : (dataSegments segs).flatMap Segment.payload = resp
  oneFin : ∃ s, finSegments segs = [s] ∧ (resp ≠ [] → (dataSegments segs).getLast? = some s)

/-- Every packet is a segment, and the segments are such a stream. -/
def Streamed (iss : UInt32) (resp : Bytes) (sent : List Bytes) : Prop :=
  ∃ segs, sent.map parseSegment = segs.map some ∧ StreamOf iss resp segs

variable {iss : UInt32} {resp : Bytes} {segs : List Segment}

/-- Segments around the stream that carry neither data nor a FIN. -/
theorem streamOf_around {before after : List Segment} (h : StreamOf iss resp segs)
    (hbefore : ∀ s ∈ before, s.payload = [] ∧ s.flags &&& fin = 0)
    (hafter : ∀ s ∈ after, s.payload = [] ∧ s.flags &&& fin = 0) :
    StreamOf iss resp (before ++ segs ++ after) := by
  have hnone : ∀ l : List Segment, (∀ s ∈ l, s.payload = [] ∧ s.flags &&& fin = 0) →
      dataSegments l = [] ∧ finSegments l = [] := by
    intro l hl
    refine ⟨List.filter_eq_nil_iff.mpr fun s hs => ?_, List.filter_eq_nil_iff.mpr fun s hs => ?_⟩
    · simp [(hl s hs).1]
    · simp [(hl s hs).2]
  obtain ⟨hdata₁, hfin₁⟩ := hnone before hbefore
  obtain ⟨hdata₂, hfin₂⟩ := hnone after hafter
  have hdata : dataSegments (before ++ segs ++ after) = dataSegments segs := by
    rw [dataSegments, List.filter_append, List.filter_append]
    show dataSegments before ++ dataSegments segs ++ dataSegments after = _
    rw [hdata₁, hdata₂, List.nil_append, List.append_nil]
  have hfin : finSegments (before ++ segs ++ after) = finSegments segs := by
    rw [finSegments, List.filter_append, List.filter_append]
    show finSegments before ++ finSegments segs ++ finSegments after = _
    rw [hfin₁, hfin₂, List.nil_append, List.append_nil]
  refine ⟨?_, ?_, ?_, ?_⟩
  · rw [hdata]
    exact h.short
  · rw [hdata]
    exact h.contiguous
  · rw [hdata]
    exact h.response
  · rw [hdata, hfin]
    exact h.oneFin

theorem streamOf_fin {s : Segment} (hpayload : s.payload = []) (hfin : s.flags &&& fin ≠ 0) :
    StreamOf iss [] [s] := by
  have hdata : dataSegments [s] = [] := by simp [dataSegments, hpayload]
  refine ⟨?_, ?_, ?_, s, by simp [finSegments, hfin], fun h => absurd rfl h⟩
  · simp [hdata]
  · rw [hdata]
    trivial
  · rw [hdata]
    rfl

theorem streamOf_pieces (seg : Segment) {ps : List Bytes} (hne : ps ≠ [])
    (hps : ∀ p ∈ ps, p ≠ [] ∧ p.length ≤ Proxy.mss) :
    StreamOf iss ps.flatten (streamSegments seg (iss + 1) ps) := by
  have hpayloads := streamSegments_payloads seg (iss + 1) ps
  have hmem : ∀ s ∈ streamSegments seg (iss + 1) ps,
      s.payload ≠ [] ∧ s.payload.length ≤ Proxy.mss :=
    fun s hs => hps _ (hpayloads ▸ List.mem_map_of_mem hs)
  have hdata : dataSegments (streamSegments seg (iss + 1) ps) = streamSegments seg (iss + 1) ps :=
    List.filter_eq_self.mpr fun s hs => decide_eq_true (hmem s hs).1
  obtain ⟨s, hfin, hlast⟩ := streamSegments_fin seg (iss + 1) hne
  refine ⟨?_, ?_, ?_, s, hfin, fun _ => ?_⟩
  · rw [hdata]
    exact fun s hs => (hmem s hs).2
  · rw [hdata]
    exact streamSegments_contiguous seg (iss + 1) ps
  · rw [hdata, List.flatMap_def, hpayloads]
  · rw [hdata]
    exact hlast

end Stream

section Proxy

variable {c : TcpClient} {listenPort : UInt16} {lanFetch : Bytes → Bytes} {iss : UInt32}

/-- The proxy is in a connection with this client. -/
structure ProxyIn (c : TcpClient) (conn : Proxy.Conn) : Prop where
  active : conn.active = true
  clientIp : conn.clientIp = c.src
  clientPort : conn.clientPort = c.sport
  ourIp : conn.ourIp = c.dst

variable {log : Proxy.ProxyLog}

theorem logHandle_eq {inner : Bytes} {out : List Bytes} {proxy : Proxy.TcpProxy}
    {q : Option Bytes} (h : log.proxy.handle listenPort lanFetch inner iss = (out, proxy))
    (hq : log.proxy.lanRequest listenPort inner = q) :
    log.handle listenPort lanFetch inner iss =
      (out, ⟨proxy, log.sent ++ out, log.asked ++ q.toList⟩) := by
  rw [Proxy.ProxyLog.handle, h, hq]

theorem proxyBranch_in {proxy : Proxy.TcpProxy} (hin : ProxyIn c proxy.conn) (x : UInt32)
    (flags : UInt8) (payload : Bytes) :
    proxyBranch proxy ⟨c.src, c.dst, c.sport, c.dport, x, flags, payload⟩ =
      if flags &&& rst ≠ 0 then none
      else if payload ≠ [] ∧ !proxy.conn.fetched then some .request
      else if flags &&& fin ≠ 0 then some .close
      else none := by
  rw [proxyBranch, if_neg]
  rw [hin.active, hin.clientIp, hin.clientPort]
  simp

/-- `handle` on a packet of its client without SYN, RST or data. -/
theorem proxy_later (hin : ProxyIn c log.proxy.conn) (hport : c.dport = listenPort) {x y : UInt32}
    {flags : UInt8} (hsyn : flags &&& syn = 0) (hrst : flags &&& rst = 0) :
    log.handle listenPort lanFetch (tcpPacket c.src c.dst c.sport c.dport x y flags []) iss =
      if flags &&& fin ≠ 0 then
        ([tcpPacket c.dst c.src c.dport c.sport log.proxy.conn.sndNxt (x + 1) Tcp.ack []],
          ⟨⟨Proxy.Conn.default⟩, log.sent ++ [tcpPacket c.dst c.src c.dport c.sport
            log.proxy.conn.sndNxt (x + 1) Tcp.ack []], log.asked⟩)
      else ([], log) := by
  have hparse : parseSegment (tcpPacket c.src c.dst c.sport c.dport x y flags []) =
      some ⟨c.src, c.dst, c.sport, c.dport, x, flags, []⟩ := parseSegment_tcpPacket (by simp)
  have hbranch := proxy_branch hparse hport lanFetch log.proxy iss hsyn
  have hasked := lanRequest_branch hparse hport log.proxy hsyn
  have hb : proxyBranch log.proxy ⟨c.src, c.dst, c.sport, c.dport, x, flags, []⟩ =
      if flags &&& fin ≠ 0 then some .close else none := by
    rw [proxyBranch_in hin, if_neg (not_not.mpr hrst), if_neg (by simp)]
  rw [hb] at hbranch
  rw [hb, if_neg (by split <;> simp)] at hasked
  rw [hin.ourIp, hin.clientIp, hin.clientPort, ← hport] at hbranch
  rw [← hport] at hasked ⊢
  split
  · next hfin =>
      rw [if_pos hfin] at hbranch
      rw [logHandle_eq hbranch hasked, Option.toList_none, List.append_nil]
  · next hfin =>
      rw [if_neg hfin] at hbranch
      rw [logHandle_eq (hbranch.resolve_right fun h => h.1 hrst) hasked, Option.toList_none,
        List.append_nil, List.append_nil]

theorem proxy_syn (hport : c.dport = listenPort) (lanFetch : Bytes → Bytes)
    (log : Proxy.ProxyLog) (iss : UInt32) :
    ∃ log', log.handle listenPort lanFetch c.openSyn.1 iss =
        ([tcpPacket c.dst c.src c.dport c.sport iss (c.sndNxt + 1) (syn ||| Tcp.ack) []], log') ∧
      ProxyIn c log'.proxy.conn ∧ log'.proxy.conn.fetched = false ∧
      log'.proxy.conn.sndNxt = iss + 1 ∧ log'.asked = log.asked ∧
      log'.sent = log.sent ++ [packetOf (c.sndNxt + 1)
        ⟨c.dst, c.src, c.dport, c.sport, iss, syn ||| Tcp.ack, []⟩] := by
  have hparse : parseSegment c.openSyn.1 =
      some ⟨c.src, c.dst, c.sport, c.dport, c.sndNxt, syn, []⟩ := by
    rw [TcpClient.openSyn, clientSegment_eq]
    exact parseSegment_tcpPacket (by simp)
  obtain ⟨hsyn, hasked⟩ :=
    proxy_opens hparse hport lanFetch log.proxy iss (show syn &&& syn ≠ 0 by decide)
  rw [← hport] at hsyn hasked ⊢
  refine ⟨_, logHandle_eq hsyn hasked, ⟨rfl, rfl, rfl, rfl⟩, rfl, rfl, ?_, rfl⟩
  rw [Option.toList_none, List.append_nil]

theorem takesReply_reply (seg : Segment) (ackNo : UInt32) {ps : List Bytes}
    (hport : seg.dport = c.sport) (hdone : c.done = false) (hest : c.established = true)
    (hps : ∀ p ∈ ps, p ≠ [] ∧ p.length ≤ Proxy.mss) :
    TakesReply c ((replySegments seg c.rcvNxt ps).map (packetOf ackNo)) ps.flatten := by
  rw [replySegments, List.map_cons, packetOf, hport]
  refine takesReply_bareAck ?_
  split
  · next hnil =>
      rw [hnil]
      exact takesReply_fin hdone
  · next hne =>
      refine takesReply_pieces seg ackNo ps hport hdone hest hne fun p hp => ?_
      obtain ⟨hp, hshort⟩ := hps p hp
      rw [Proxy.mss] at hshort
      exact ⟨hp, by omega⟩

theorem streamOf_reply (seg : Segment) {ps : List Bytes}
    (hps : ∀ p ∈ ps, p ≠ [] ∧ p.length ≤ Proxy.mss) :
    StreamOf iss ps.flatten (replySegments seg (iss + 1) ps) := by
  have hbare : ∀ s ∈ [{ seg with seq := iss + 1, flags := Tcp.ack, payload := [] }],
      s.payload = [] ∧ s.flags &&& fin = 0 := by
    intro s hs
    cases List.mem_singleton.mp hs
    exact ⟨rfl, show Tcp.ack &&& fin = 0 by decide⟩
  have hstream : StreamOf iss ps.flatten (if ps = [] then
      [{ seg with seq := iss + 1, flags := fin ||| Tcp.ack, payload := [] }]
      else streamSegments seg (iss + 1) ps) := by
    split
    · next hnil =>
        rw [hnil]
        exact streamOf_fin rfl (show (fin ||| Tcp.ack) &&& fin ≠ 0 by decide)
    · next hne => exact streamOf_pieces seg hne hps
  have haround := streamOf_around hstream hbare (List.forall_mem_nil _)
  rw [List.append_nil] at haround
  exact haround

theorem proxy_request (hin : ProxyIn c log.proxy.conn) (hfetched : log.proxy.conn.fetched = false)
    (hsnd : log.proxy.conn.sndNxt = iss + 1) (hopened : Opened c) (hport : c.dport = listenPort)
    (hne : c.request ≠ []) (hfits : 40 + c.request.length ≤ 65535) :
    ∃ a segs log', log.handle listenPort lanFetch (requestOf c iss) iss =
        (segs.map (packetOf a), log') ∧
      ProxyIn c log'.proxy.conn ∧ log'.sent = log.sent ++ segs.map (packetOf a) ∧
      log'.asked = log.asked ++ [c.request] ∧ TakesReply (joined c iss) (segs.map (packetOf a))
        (lanFetch c.request) ∧
      StreamOf iss (lanFetch c.request) segs ∧ ∀ s ∈ segs, 40 + s.payload.length ≤ 65535 := by
  have hask : c.request ≠ [] ∧ (!log.proxy.conn.fetched) = true := ⟨hne, by rw [hfetched]; rfl⟩
  have hsyn : (psh ||| Tcp.ack) &&& syn = 0 := by decide
  have hparse : parseSegment (requestOf c iss) =
      some ⟨c.src, c.dst, c.sport, c.dport, c.sndNxt + 1, psh ||| Tcp.ack, c.request⟩ :=
    parseSegment_tcpPacket hfits
  have hbranch := proxy_branch hparse hport lanFetch log.proxy iss hsyn
  have hasked := lanRequest_branch hparse hport log.proxy hsyn
  have hb : proxyBranch log.proxy
      ⟨c.src, c.dst, c.sport, c.dport, c.sndNxt + 1, psh ||| Tcp.ack, c.request⟩ =
      some .request := by
    rw [proxyBranch_in hin, if_neg (by decide), if_pos hask]
  rw [hb] at hbranch
  rw [hb, if_pos rfl] at hasked
  obtain ⟨ps, x, hflat, hps, hreply⟩ := replyTo_segments listenPort { log.proxy.conn with
    rcvNxt := c.sndNxt + 1 + UInt32.ofNat c.request.length, fetched := true } (lanFetch c.request)
  rw [show ({ log.proxy.conn with
    rcvNxt := c.sndNxt + 1 + UInt32.ofNat c.request.length, fetched := true } : Proxy.Conn).sndNxt =
    iss + 1 from hsnd] at hreply
  rw [← hflat]
  exact ⟨_, _, _, logHandle_eq (hbranch.trans hreply) hasked,
    ⟨hin.active, hin.clientIp, hin.clientPort, hin.ourIp⟩, rfl, rfl,
    takesReply_reply (c := joined c iss) _ _ hin.clientPort hopened.done rfl hps,
    streamOf_reply _ hps, replySegments_fits _ _ hps⟩

theorem proxy_ack (hin : ProxyIn c log.proxy.conn) (hport : c.dport = listenPort) {m : Bytes}
    (hm : FromClient c Tcp.ack m) : log.handle listenPort lanFetch m iss = ([], log) := by
  obtain ⟨x, y, rfl⟩ := hm
  rw [proxy_later hin hport (by decide) (by decide), if_neg (by decide)]

theorem proxy_fin (hin : ProxyIn c log.proxy.conn) (hport : c.dport = listenPort)
    (lanFetch : Bytes → Bytes) (iss : UInt32) {m : Bytes}
    (hm : FromClient c (fin ||| Tcp.ack) m) :
    ∃ y z, log.handle listenPort lanFetch m iss =
      ([tcpPacket c.dst c.src c.dport c.sport y z Tcp.ack []], ⟨⟨Proxy.Conn.default⟩,
        log.sent ++ [packetOf z ⟨c.dst, c.src, c.dport, c.sport, y, Tcp.ack, []⟩], log.asked⟩) := by
  obtain ⟨x, y, rfl⟩ := hm
  rw [proxy_later hin hport (by decide) (by decide), if_pos (by decide)]
  exact ⟨_, _, rfl⟩

/-- What the proxy sends around its reply is no part of the stream. -/
theorem streamed_around {resp : Bytes} {segs : List Segment} {a x z : UInt32} {s t : Segment}
    (h : StreamOf iss resp segs) (hlen : ∀ s ∈ segs, 40 + s.payload.length ≤ 65535)
    (hs : s.payload = [] ∧ s.flags &&& fin = 0) (ht : t.payload = [] ∧ t.flags &&& fin = 0) :
    Streamed iss resp ([packetOf x s] ++ segs.map (packetOf a) ++ [packetOf z t]) := by
  refine ⟨[s] ++ segs ++ [t], ?_, ?_⟩
  · have hparse : (segs.map (packetOf a)).map parseSegment = segs.map some := by
      rw [List.map_map]
      exact List.map_congr_left fun u hu => parseSegment_packetOf a (hlen u hu)
    simp only [List.map_append, List.map_cons, List.map_nil, hparse]
    rw [parseSegment_packetOf x (by rw [hs.1]; decide), parseSegment_packetOf z
      (by rw [ht.1]; decide)]
  · refine streamOf_around h ?_ ?_
    · intro u hu
      cases List.mem_singleton.mp hu
      exact hs
    · intro u hu
      cases List.mem_singleton.mp hu
      exact ht

/-- The exchange with the proxy. -/
theorem proxy_exchange (hopened : Opened c) (hport : c.dport = listenPort)
    (hne : c.request ≠ []) (hfits : 40 + c.request.length ≤ 65535) (lanFetch : Bytes → Bytes)
    (proxy : Proxy.TcpProxy) (iss : UInt32) :
    ∃ d, Settles TcpClient.onInner
        (fun log m => Proxy.ProxyLog.handle listenPort lanFetch log m iss)
        ⟨c.openSyn.2, ⟨proxy, [], []⟩, [c.openSyn.1], []⟩ d ∧
      d.a.done = true ∧ d.a.response = lanFetch c.request ∧ d.b.proxy.conn.active = false ∧
      d.b.asked = [c.request] ∧ Streamed iss (lanFetch c.request) d.b.sent := by
  obtain ⟨log₁, hsyn, hin₁, hfetched, hsnd, hasked₁, hsent₁⟩ :=
    proxy_syn hport lanFetch ⟨proxy, [], []⟩ iss
  obtain ⟨a, segs, log₂, hreq, hin₂, hsent₂, hasked₂, hreads, hstream, hlen⟩ :=
    proxy_request hin₁ hfetched hsnd hopened hport hne hfits
  obtain ⟨c', m, hm, hsettles, hdone, hresp⟩ := exchange_settles
    (fun log m => Proxy.ProxyLog.handle listenPort lanFetch log m iss) hopened hsyn
    (fun m hm => proxy_ack hin₁ hport hm) hreq hreads (fun m hm => proxy_ack hin₂ hport hm)
    fun m hm => by
      obtain ⟨y, z, h⟩ := proxy_fin hin₂ hport lanFetch iss hm
      exact ⟨y, z, congrArg Prod.fst h⟩
  obtain ⟨y, z, hlast⟩ := proxy_fin hin₂ hport lanFetch iss hm
  refine ⟨_, hsettles, hdone, hresp, ?_⟩
  simp only [hlast, hsent₂, hsent₁, hasked₂, hasked₁, List.nil_append]
  refine ⟨rfl, trivial, streamed_around hstream hlen ⟨rfl, ?_⟩ ⟨rfl, ?_⟩⟩
  · show (syn ||| Tcp.ack) &&& fin = 0
    decide
  · show Tcp.ack &&& fin = 0
    decide

end Proxy

/-- The client and either server, over queues that lose nothing. Whatever the
schedule, the exchange ends, and it ends with the whole response read and the
connection closed on both sides. -/
theorem tcp_interoperates (c : TcpClient) (iss : UInt32) (hopened : Opened c)
    (hne : c.request ≠ []) (hfits : 40 + c.request.length ≤ 65535) :
    (c.dport = httpPort → ∀ srv : TcpServer,
      ∃ d, Settles TcpClient.onInner (fun srv m => TcpServer.handle srv m iss)
          ⟨c.openSyn.2, srv, [c.openSyn.1], []⟩ d ∧
        d.a.done = true ∧ d.a.response = httpResponse (page c.dst) ∧
        d.b.conn.active = false) ∧
    (∀ (listenPort : UInt16) (lanFetch : Bytes → Bytes) (proxy : Proxy.TcpProxy),
      c.dport = listenPort →
      ∃ d, Settles TcpClient.onInner
          (fun log m => Proxy.ProxyLog.handle listenPort lanFetch log m iss)
          ⟨c.openSyn.2, ⟨proxy, [], []⟩, [c.openSyn.1], []⟩ d ∧
        d.a.done = true ∧ d.a.response = lanFetch c.request ∧ d.b.proxy.conn.active = false ∧
        d.b.asked = [c.request] ∧ Streamed iss (lanFetch c.request) d.b.sent) := by
  refine ⟨?_, ?_⟩
  · intro hport srv
    exact server_exchange hopened hport hne hfits srv iss
  · intro listenPort lanFetch proxy hport
    exact proxy_exchange hopened hport hne hfits lanFetch proxy iss

/-- A client of some port that has not sent its SYN yet. -/
def calling (dport : UInt16) : TcpClient :=
  TcpClient.new (Arr.zero 4) (Arr.zero 4) 5000 dport (ascii "GET") 0

theorem tcp_interoperates_calling :
    (∃ d, Settles TcpClient.onInner (fun srv m => TcpServer.handle srv m 0xffffffff)
        ⟨(calling 80).openSyn.2, TcpServer.new, [(calling 80).openSyn.1], []⟩ d ∧
      d.a.done = true ∧ d.a.response = httpResponse (page (Arr.zero 4)) ∧
      d.b.conn.active = false) ∧
    (∃ d, Settles TcpClient.onInner
        (fun log m => Proxy.ProxyLog.handle 8080 (fun q => q ++ q) log m 0xffffffff)
        ⟨(calling 8080).openSyn.2, ⟨Proxy.TcpProxy.new, [], []⟩, [(calling 8080).openSyn.1], []⟩ d ∧
      d.a.done = true ∧ d.a.response = ascii "GETGET" ∧ d.b.proxy.conn.active = false ∧
      d.b.asked = [ascii "GET"] ∧ Streamed 0xffffffff (ascii "GETGET") d.b.sent) := by
  have hopened : ∀ dport, Opened (calling dport) := fun _ => ⟨rfl, rfl, rfl⟩
  refine ⟨?_, ?_⟩
  · exact (tcp_interoperates (calling 80) 0xffffffff (hopened 80) (by decide) (by decide)).1 rfl
      TcpServer.new
  · exact (tcp_interoperates (calling 8080) 0xffffffff (hopened 8080) (by decide) (by decide)).2
      8080 (fun q => q ++ q) Proxy.TcpProxy.new rfl

end TailscaleRust.Proofs
