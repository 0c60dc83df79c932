import TailscaleRust.Lib.Duplex
import TailscaleRust.Lib.Run
import TailscaleRust.Proofs.TcpServers

/-!
# The servers under losses, duplicates and reordering

A good exchange says little about a network that repeats and reorders. A SYN
always draws a new initial number, and every request segment is answered with
the whole response at `snd_nxt`, whether or not one was sent before. This file
says for which arrivals what is sent is still one TCP stream, over whole runs
and for any server state before them.
-/

namespace TailscaleRust.Proofs

open TailscaleRust.Lib TailscaleRust.Core TailscaleRust.Core.Tcp
open TailscaleRust.Firmware

/-- One connection of a client, with the number its SYN carries. -/
structure Caller where
  ip : Ipv4Addr
  port : UInt16
  ourIp : Ipv4Addr
  isn : UInt32

/-- A packet, and the number `rand_u32` returns if it is drawn. -/
structure Arrival where
  inner : Bytes
  iss : UInt32

/-! ## What the HTTP server sends -/

def serverStep (srv : TcpServer) (e : Arrival) : List Bytes × TcpServer := srv.handle e.inner e.iss

/-- All packets the server sends on a list of arrivals. -/
def emitted (srv : TcpServer) (arrivals : List Arrival) : List Bytes :=
  (feed serverStep srv arrivals).1

/-- A packet for the server is one of this connection. -/
def Caller.Sends (k : Caller) (inner : Bytes) : Prop :=
  ∀ s, parseSegment inner = some s → s.dport = httpPort →
    s.srcIp = k.ip ∧ s.sport = k.port ∧ s.dstIp = k.ourIp ∧ (s.flags &&& syn ≠ 0 → s.seq = k.isn)

/-- The server is in the connection. -/
def InCall (k : Caller) (srv : TcpServer) : Prop :=
  srv.conn.active = true ∧ srv.conn.clientIp = k.ip ∧ srv.conn.clientPort = k.port

/-- A segment of the stream `R` with initial sequence number `I`. -/
structure FitsStream (I : UInt32) (R : Bytes) (s : Segment) : Prop where
  syn : s.flags &&& syn ≠ 0 → s.seq = I
  payload : s.payload ≠ [] →
    (s.seq - (I + 1)).toNat + s.payload.length ≤ R.length ∧
      s.payload = slice R (s.seq - (I + 1)).toNat ((s.seq - (I + 1)).toNat + s.payload.length)
  fin : s.flags &&& fin ≠ 0 →
    s.seq + UInt32.ofNat s.payload.length = I + 1 + UInt32.ofNat R.length

/-- Every packet is a segment of one stream. -/
def OneStream (I : UInt32) (R : Bytes) (out : List Bytes) : Prop :=
  ∀ m ∈ out, ∃ s, parseSegment m = some s ∧ FitsStream I R s

/-- A SYN that draws `I`, and a request that finds nothing sent since the
SYN. -/
def freshFor (I : UInt32) (srv : TcpServer) (e : Arrival) : Bool :=
  match parseSegment e.inner with
  | none => true
  | some s =>
      s.dport ≠ httpPort ∨
        if s.flags &&& syn ≠ 0 then e.iss = I
        else serverBranch srv s = some .request → srv.conn.sndNxt = I + 1

def ServerStep (srv : TcpServer) (e : Arrival) (srv' : TcpServer) : Prop :=
  (serverStep srv e).2 = srv'

section OneStream

variable {k : Caller} {srv : TcpServer} {e : Arrival} {I : UInt32} {R : Bytes}

theorem oneStream_append {out out' : List Bytes} :
    OneStream I R (out ++ out') ↔ OneStream I R out ∧ OneStream I R out' :=
  List.forall_mem_append

theorem oneStream_packet {a : UInt32} {s : Segment} (h : 40 + s.payload.length ≤ 65535) :
    OneStream I R [packetOf a s] ↔ FitsStream I R s := by
  refine ⟨?_, ?_⟩
  · intro hone
    obtain ⟨t, hparse, hfits⟩ := hone _ List.mem_cons_self
    cases (parseSegment_packetOf a h).symm.trans hparse
    exact hfits
  · intro hfits m hm
    cases List.mem_singleton.mp hm
    exact ⟨s, parseSegment_packetOf a h, hfits⟩

/-- The response as a stream of its own. -/
theorem fitsStream_whole {s : Segment} (hseq : s.seq = I + 1) (hsyn : s.flags &&& Tcp.syn = 0)
    (hR : R = s.payload) : FitsStream I R s where
  syn h := absurd hsyn h
  payload _ := by
    rw [hseq, UInt32.sub_self, hR]
    refine ⟨?_, ?_⟩
    · show 0 + s.payload.length ≤ s.payload.length
      omega
    · show s.payload = slice s.payload 0 (0 + s.payload.length)
      rw [slice, List.drop_zero, Nat.zero_add, Nat.sub_zero, List.take_length]
  fin _ := by rw [hseq, hR]

theorem fitsStream_synAck {s : Segment} (hflags : s.flags = Tcp.syn ||| Tcp.ack)
    (hpayload : s.payload = []) : FitsStream I R s ↔ s.seq = I := by
  refine ⟨fun h => h.syn (by rw [hflags]; decide), fun h => ⟨fun _ => h, ?_, ?_⟩⟩
  · exact fun hne => absurd hpayload hne
  · exact fun hfin => absurd (by rw [hflags]; decide) hfin

theorem fitsStream_ack {s : Segment} (hflags : s.flags = Tcp.ack) (hpayload : s.payload = []) :
    FitsStream I R s where
  syn h := absurd (by rw [hflags]; decide) h
  payload h := absurd hpayload h
  fin h := absurd (by rw [hflags]; decide) h

/-- Everything an arrival of the connection can do: nothing or a reset, a new
start, a response, or the end. -/
theorem server_answers (hcall : InCall k srv → srv.conn.ourIp = k.ourIp)
    (hsent : k.Sends e.inner) :
    ((∀ I, freshFor I srv e = true) ∧ (serverStep srv e = ([], srv) ∨
      serverStep srv e = ([], ⟨Tcp.Conn.default⟩))) ∨
    (∃ a, (∀ I, freshFor I srv e = true ↔ e.iss = I) ∧ serverStep srv e =
      ([packetOf a ⟨k.ourIp, k.ip, httpPort, k.port, e.iss, syn ||| Tcp.ack, []⟩],
        ⟨⟨true, k.ip, k.ourIp, k.port, a, e.iss + 1⟩⟩)) ∨
    (∃ a, (∀ I, freshFor I srv e = true ↔ srv.conn.sndNxt = I + 1) ∧ InCall k srv ∧
      serverStep srv e =
      ([packetOf a ⟨k.ourIp, k.ip, httpPort, k.port, srv.conn.sndNxt, psh ||| Tcp.ack ||| fin,
          httpResponse (page k.ourIp)⟩],
        ⟨{ srv.conn with rcvNxt := a
                         sndNxt := srv.conn.sndNxt +
                           UInt32.ofNat (httpResponse (page k.ourIp)).length + 1 }⟩)) ∨
    (∃ a x, (∀ I, freshFor I srv e = true) ∧ serverStep srv e =
      ([packetOf a ⟨k.ourIp, k.ip, httpPort, k.port, x, Tcp.ack, []⟩], ⟨Tcp.Conn.default⟩)) := by
  simp only [freshFor, serverStep]
  cases hparse : parseSegment e.inner with
  | none =>
      refine .inl ⟨fun _ => rfl, .inl (server_other fun s hs => ?_)⟩
      rw [hparse] at hs
      cases hs
  | some s =>
      simp only [decide_eq_true_eq]
      by_cases hport : s.dport = httpPort
      · obtain ⟨hip, hsport, hours, -⟩ := hsent s hparse hport
        simp only [hport, ne_eq, not_true, false_or]
        by_cases hsyn : s.flags &&& syn = 0
        · simp only [hsyn, not_true, if_false]
          have hbranch := server_branch hparse hport srv e.iss hsyn
          cases hb : serverBranch srv s with
          | none =>
              rw [hb] at hbranch
              refine .inl ⟨fun _ h => (by cases h), ?_⟩
              rcases hbranch with h | ⟨-, h⟩
              · exact .inl h
              · exact .inr h
          | some b =>
              rw [hb] at hbranch
              obtain ⟨hactive, hclient, hclientPort, -⟩ := serverBranch_some hb
              have hin : InCall k srv :=
                ⟨hactive, hclient.symm.trans hip, hclientPort.symm.trans hsport⟩
              have hour := hcall hin
              cases b with
              | request =>
                  rw [hour, hin.2.1, hin.2.2] at hbranch
                  exact .inr (.inr (.inl ⟨_, fun _ => by simp, hin, hbranch⟩))
              | close =>
                  rw [hour, hin.2.1, hin.2.2] at hbranch
                  exact .inr (.inr (.inr ⟨_, _, fun _ h => (by cases h), hbranch⟩))
        · have hopens := server_opens hparse hport srv e.iss hsyn
          rw [hip, hours, hsport] at hopens
          refine .inr (.inl ⟨_, fun _ => ?_, hopens⟩)
          rw [if_pos hsyn]
      · refine .inl ⟨fun _ => .inl hport, .inl (server_other fun t ht => ?_)⟩
        cases hparse.symm.trans ht
        exact hport

/-- An arrival that meets the condition is answered within the stream of the
page. -/
theorem oneStream_step (hcall : InCall k srv → srv.conn.ourIp = k.ourIp)
    (hsent : k.Sends e.inner) (hfresh : freshFor I srv e = true) :
    OneStream I (httpResponse (page k.ourIp)) (serverStep srv e).1 := by
  have hlen := httpResponse_fits k.ourIp
  rcases server_answers hcall hsent with ⟨-, h | h⟩ | ⟨a, hiff, h⟩ | ⟨a, hiff, -, h⟩ | ⟨a, x, -, h⟩
  · rw [h]
    exact List.forall_mem_nil _
  · rw [h]
    exact List.forall_mem_nil _
  · rw [h]
    exact (oneStream_packet (by simp)).mpr ((fitsStream_synAck rfl rfl).mpr ((hiff I).mp hfresh))
  · rw [h]
    refine (oneStream_packet (by simp only []; omega)).mpr
      (fitsStream_whole ((hiff I).mp hfresh) ?_ rfl)
    show (psh ||| Tcp.ack ||| fin) &&& syn = 0
    decide
  · rw [h]
    exact (oneStream_packet (by simp)).mpr (fitsStream_ack rfl rfl)

theorem ourIp_step (hcall : InCall k srv → srv.conn.ourIp = k.ourIp) (hsent : k.Sends e.inner) :
    InCall k (serverStep srv e).2 → (serverStep srv e).2.conn.ourIp = k.ourIp := by
  have hclosed : InCall k ⟨Tcp.Conn.default⟩ → Tcp.Conn.default.ourIp = k.ourIp := by
    intro h
    cases h.1
  rcases server_answers hcall hsent with ⟨-, h | h⟩ | ⟨a, -, h⟩ | ⟨a, -, hin, h⟩ | ⟨a, x, -, h⟩
  · rw [h]
    exact hcall
  · rw [h]
    exact hclosed
  · rw [h]
    exact fun _ => rfl
  · rw [h]
    exact fun _ => hcall hin
  · rw [h]
    exact hclosed

/-- Where the server stands in a connection whose packets are one stream so
far: before the response, or behind it and then the stream has its length. -/
def Placed (k : Caller) (I : UInt32) (R : Bytes) (srv : TcpServer) : Prop :=
  let len := UInt32.ofNat (httpResponse (page k.ourIp)).length
  InCall k srv → srv.conn.ourIp = k.ourIp ∧ (srv.conn.sndNxt = I + 1 ∨
    (UInt32.ofNat R.length = len ∧ srv.conn.sndNxt = I + 1 + len + 1))

theorem add_ofNat_succ_ne (x : UInt32) {l : Nat} (hl : l + 1 < 2 ^ 32) :
    x + UInt32.ofNat l + 1 ≠ x := by
  intro h
  have hzero : UInt32.ofNat (l + 1) = 0 := by
    rw [UInt32.ofNat_add]
    grind
  have hnat := congrArg UInt32.toNat hzero
  rw [UInt32.toNat_ofNat_of_lt' hl] at hnat
  exact absurd hnat (Nat.succ_ne_zero l)

theorem after_response_ne (x : UInt32) (ip : Ipv4Addr) :
    x + UInt32.ofNat (httpResponse (page ip)).length + 1 ≠ x := by
  have hlen := httpResponse_fits ip
  exact add_ofNat_succ_ne x (by omega)

/-- A second response would end the stream at another place. -/
theorem placed_step (hplaced : Placed k I R srv) (hsent : k.Sends e.inner)
    (hone : OneStream I R (serverStep srv e).1) :
    freshFor I srv e = true ∧ Placed k I R (serverStep srv e).2 := by
  have hlen := httpResponse_fits k.ourIp
  have hclosed : Placed k I R ⟨Tcp.Conn.default⟩ := by
    intro h
    cases h.1
  rcases server_answers (fun hin => (hplaced hin).1) hsent with
    ⟨hfresh, h | h⟩ | ⟨a, hiff, h⟩ | ⟨a, hiff, hin, h⟩ | ⟨a, x, hfresh, h⟩
  · rw [h]
    exact ⟨hfresh I, hplaced⟩
  · rw [h]
    exact ⟨hfresh I, hclosed⟩
  · rw [h] at hone ⊢
    have hdraw := (fitsStream_synAck rfl rfl).mp ((oneStream_packet (by simp)).mp hone)
    refine ⟨(hiff I).mpr hdraw, fun _ => ⟨rfl, .inl ?_⟩⟩
    show e.iss + 1 = I + 1
    rw [show e.iss = I from hdraw]
  · rw [h] at hone ⊢
    have hend := ((oneStream_packet (by simp only []; omega)).mp hone).fin
      (show (psh ||| Tcp.ack ||| fin) &&& fin ≠ 0 by decide)
    simp only [] at hend
    obtain ⟨hour, hfirst | ⟨hR, hsecond⟩⟩ := hplaced hin
    · refine ⟨(hiff I).mpr hfirst, fun _ => ⟨hour, .inr ⟨?_, ?_⟩⟩⟩
      · rw [hfirst] at hend
        exact ((UInt32.add_right_inj _).mp hend).symm
      · show srv.conn.sndNxt + _ + 1 = _
        rw [hfirst]
    · exfalso
      rw [hsecond, hR, UInt32.add_assoc _ 1, UInt32.add_comm 1, ← UInt32.add_assoc] at hend
      exact after_response_ne _ k.ourIp hend
  · rw [h]
    exact ⟨hfresh I, hclosed⟩

theorem oneStream_of_run {srv' : TcpServer} {arrivals : List Arrival}
    (hrun : Run (Guarded (fun srv e => freshFor I srv e = true) ServerStep) srv arrivals srv')
    (hcall : InCall k srv → srv.conn.ourIp = k.ourIp)
    (hsent : ∀ e ∈ arrivals, k.Sends e.inner) :
    OneStream I (httpResponse (page k.ourIp)) (emitted srv arrivals) := by
  induction hrun with
  | nil => exact List.forall_mem_nil _
  | @cons srv _ _ e arrivals hstep _ ih =>
      obtain ⟨hfresh, rfl⟩ := hstep
      have he := hsent e List.mem_cons_self
      have hrest := ih (ourIp_step hcall he) fun e' he' => hsent e' (List.mem_cons_of_mem e he')
      exact oneStream_append.mpr ⟨oneStream_step hcall he hfresh, hrest⟩

theorem run_of_oneStream (arrivals : List Arrival) (hplaced : Placed k I R srv)
    (hsent : ∀ e ∈ arrivals, k.Sends e.inner) (hone : OneStream I R (emitted srv arrivals)) :
    ∃ srv', Run (Guarded (fun srv e => freshFor I srv e = true) ServerStep) srv arrivals srv' := by
  induction arrivals generalizing srv with
  | nil => exact ⟨srv, .nil⟩
  | cons e arrivals ih =>
      obtain ⟨hfirst, hrest⟩ := oneStream_append.mp hone
      obtain ⟨hfresh, hnext⟩ := placed_step hplaced (hsent e List.mem_cons_self) hfirst
      obtain ⟨srv', hrun⟩ := ih hnext (fun e' he' => hsent e' (List.mem_cons_of_mem e he')) hrest
      exact ⟨srv', .cons ⟨hfresh, rfl⟩ hrun⟩

end OneStream

/-- All the packets of one connection. The server's packets are segments of
one stream exactly if every SYN draws the same number and every request is
the first since its SYN, and that stream is then the page. -/
theorem server_stream_iff (k : Caller) (srv : TcpServer) (arrivals : List Arrival)
    (hidle : ¬InCall k srv) (hsent : ∀ e ∈ arrivals, k.Sends e.inner) :
    ((∃ I R, OneStream I R (emitted srv arrivals)) ↔
      ∃ I srv', Run (Guarded (fun srv e => freshFor I srv e = true) ServerStep) srv arrivals
        srv') ∧
    ∀ I srv', Run (Guarded (fun srv e => freshFor I srv e = true) ServerStep) srv arrivals srv' →
      OneStream I (httpResponse (page k.ourIp)) (emitted srv arrivals) := by
  have hpage : ∀ I srv', Run (Guarded (fun srv e => freshFor I srv e = true) ServerStep) srv
      arrivals srv' → OneStream I (httpResponse (page k.ourIp)) (emitted srv arrivals) :=
    fun I srv' hrun => oneStream_of_run hrun (fun hin => absurd hin hidle) hsent
  refine ⟨⟨?_, ?_⟩, hpage⟩
  · intro ⟨I, R, hone⟩
    exact ⟨I, run_of_oneStream arrivals (fun hin => absurd hin hidle) hsent hone⟩
  · intro ⟨I, srv', hrun⟩
    exact ⟨I, _, hpage I srv' hrun⟩

/-- A client on port 5000 whose SYN has number 0. -/
def visitor : Caller := ⟨Arr.zero 4, 5000, Arr.zero 4, 0⟩

def visits (seq : UInt32) (flags : UInt8) (payload : Bytes) : Bytes :=
  tcpPacket visitor.ip visitor.ourIp visitor.port httpPort seq 0 flags payload

theorem parseSegment_visits {seq : UInt32} {flags : UInt8} {payload : Bytes}
    (hlen : 40 + payload.length ≤ 65535) :
    parseSegment (visits seq flags payload) =
      some ⟨visitor.ip, visitor.ourIp, visitor.port, httpPort, seq, flags, payload⟩ :=
  parseSegment_tcpPacket hlen

theorem visitor_sends {seq : UInt32} {flags : UInt8} {payload : Bytes}
    (hlen : 40 + payload.length ≤ 65535) (hsyn : flags &&& syn ≠ 0 → seq = 0) :
    visitor.Sends (visits seq flags payload) := by
  intro s hparse _
  cases (parseSegment_visits hlen).symm.trans hparse
  exact ⟨rfl, rfl, rfl, hsyn⟩

section Visitor

variable {I iss : UInt32} {srv : TcpServer}

theorem fresh_syn (h : freshFor I srv ⟨visits 0 syn [], iss⟩ = true) : iss = I := by
  simp only [freshFor] at h
  rw [parseSegment_visits (by decide)] at h
  have hor := of_decide_eq_true h
  rw [if_pos (by decide)] at hor
  exact hor.resolve_left fun hport => hport rfl

theorem serverBranch_get (hin : InCall visitor srv) :
    serverBranch srv ⟨visitor.ip, visitor.ourIp, visitor.port, httpPort, 1, psh ||| Tcp.ack, [71]⟩ =
      some .request := by
  obtain ⟨hactive, hip, hport⟩ := hin
  have hours : ¬((!srv.conn.active) = true ∨ visitor.ip ≠ srv.conn.clientIp ∨
      visitor.port ≠ srv.conn.clientPort) := by
    rw [hactive, hip, hport]
    simp
  rw [serverBranch, if_neg hours, if_neg (by decide), if_pos (List.cons_ne_nil _ _)]

theorem fresh_get (hin : InCall visitor srv)
    (h : freshFor I srv ⟨visits 1 (psh ||| Tcp.ack) [71], iss⟩ = true) :
    srv.conn.sndNxt = I + 1 := by
  simp only [freshFor] at h
  rw [parseSegment_visits (by decide)] at h
  have hor := of_decide_eq_true h
  rw [if_neg (by decide)] at hor
  exact hor.resolve_left (fun hport => hport rfl) (serverBranch_get hin)

theorem get_advances (hin : InCall visitor srv) (iss : UInt32) :
    ∃ ip, InCall visitor (serverStep srv ⟨visits 1 (psh ||| Tcp.ack) [71], iss⟩).2 ∧
      (serverStep srv ⟨visits 1 (psh ||| Tcp.ack) [71], iss⟩).2.conn.sndNxt =
        srv.conn.sndNxt + UInt32.ofNat (httpResponse (page ip)).length + 1 := by
  have hparse : parseSegment (visits 1 (psh ||| Tcp.ack) [71]) = some ⟨visitor.ip, visitor.ourIp,
      visitor.port, httpPort, 1, psh ||| Tcp.ack, [71]⟩ := parseSegment_visits (by decide)
  have hbranch := server_branch hparse rfl srv iss (show (psh ||| Tcp.ack) &&& syn = 0 by decide)
  rw [serverBranch_get hin] at hbranch
  rw [serverStep, show srv.handle _ iss = _ from hbranch]
  exact ⟨srv.conn.ourIp, hin, rfl⟩

end Visitor

/-- The SYN, and the request twice. -/
def requestTwice : List Arrival :=
  [⟨visits 0 syn [], 7⟩, ⟨visits 1 (psh ||| Tcp.ack) [71], 7⟩,
    ⟨visits 1 (psh ||| Tcp.ack) [71], 7⟩]

/-- The SYN twice. -/
def synTwice : List Arrival := [⟨visits 0 syn [], 7⟩, ⟨visits 0 syn [], 8⟩]

/-- The SYN, the request and the FIN. -/
def oneVisit : List Arrival :=
  [⟨visits 0 syn [], 7⟩, ⟨visits 1 (psh ||| Tcp.ack) [71], 9⟩, ⟨visits 2 (fin ||| Tcp.ack) [], 9⟩]

theorem new_idle : ¬InCall visitor TcpServer.new := by
  intro h
  cases h.1

theorem visitor_arrivals :
    ∀ e ∈ requestTwice ++ synTwice ++ oneVisit, visitor.Sends e.inner := by
  have hsyn : visitor.Sends (visits 0 syn []) := visitor_sends (by decide) fun _ => rfl
  have hget : visitor.Sends (visits 1 (psh ||| Tcp.ack) [71]) :=
    visitor_sends (by decide) fun h => absurd (by decide) h
  have hfin : visitor.Sends (visits 2 (fin ||| Tcp.ack) []) :=
    visitor_sends (by decide) fun h => absurd (by decide) h
  simp [requestTwice, synTwice, oneVisit, hsyn, hget, hfin]

theorem duplicates_split_stream :
    ¬InCall visitor TcpServer.new ∧
    (∀ e ∈ requestTwice ++ synTwice, visitor.Sends e.inner) ∧
    (¬∃ I R, OneStream I R (emitted TcpServer.new requestTwice)) ∧
    ¬∃ I R, OneStream I R (emitted TcpServer.new synTwice) := by
  have hsent : ∀ e ∈ requestTwice ++ synTwice, visitor.Sends e.inner := fun e he =>
    visitor_arrivals e (List.mem_append_left _ he)
  refine ⟨new_idle, hsent, ?_, ?_⟩
  · intro ⟨I, R, hone⟩
    obtain ⟨srv', hrun⟩ := run_of_oneStream _ (fun hin => absurd hin new_idle)
      (fun e he => hsent e (List.mem_append_left _ he)) hone
    cases hrun with
    | cons hfirst hrun =>
        obtain ⟨-, rfl⟩ := hfirst
        have hin : InCall visitor (serverStep TcpServer.new ⟨visits 0 syn [], 7⟩).2 := by
          rw [serverStep, server_opens (parseSegment_visits (by decide)) rfl _ _ (by decide)]
          exact ⟨rfl, rfl, rfl⟩
        cases hrun with
        | cons hsecond hrun =>
            obtain ⟨hfresh, rfl⟩ := hsecond
            obtain ⟨ip, hin', hnext⟩ := get_advances hin 7
            cases hrun with
            | cons hthird _ =>
                have hsnd := fresh_get hin' hthird.1
                rw [hnext, fresh_get hin hfresh] at hsnd
                exact after_response_ne _ ip hsnd
  · intro ⟨I, R, hone⟩
    obtain ⟨srv', hrun⟩ := run_of_oneStream _ (fun hin => absurd hin new_idle)
      (fun e he => hsent e (List.mem_append_right _ he)) hone
    cases hrun with
    | cons hfirst hrun =>
        cases fresh_syn hfirst.1
        cases hrun with
        | cons hsecond _ => cases fresh_syn hsecond.1

theorem server_stream_visitor :
    OneStream 7 (httpResponse (page visitor.ourIp)) (emitted TcpServer.new oneVisit) := by
  have hsent : ∀ e ∈ oneVisit, visitor.Sends e.inner := fun e he =>
    visitor_arrivals e (List.mem_append_right _ he)
  obtain ⟨srv', hrun⟩ : ∃ srv', Run (Guarded (fun srv e => freshFor 7 srv e = true) ServerStep)
      TcpServer.new oneVisit srv' :=
    ⟨_, .cons ⟨by decide +kernel, rfl⟩ (.cons ⟨by decide +kernel, rfl⟩
      (.cons ⟨by decide +kernel, rfl⟩ .nil))⟩
  exact (server_stream_iff visitor TcpServer.new oneVisit new_idle hsent).2 7 srv' hrun

end TailscaleRust.Proofs
