import TailscaleRust.Proofs.Segments
import TailscaleRust.Lib.Run

/-!
# The outbound TCP client and the server's stream

What `on_inner` does with a packet depends on three fields it reads, so it
is a function of those. Along every delivery of a server's stream the
response is a piece from its start, and `rcv_nxt` says how long a piece: a
segment is appended only when it starts there. The FIN branch does not ask
where the FIN is. It is right exactly when nothing before the FIN is
missing, which is a condition on `rcv_nxt` and the segment's bounds.
-/

namespace TailscaleRust.Proofs

open TailscaleRust.Lib TailscaleRust.Core TailscaleRust.Core.Icmp
open TailscaleRust.Core.Outbound
open TailscaleRust.Core.Tcp (fin syn protoTcp)

/-! ## What the client reads -/

structure Heard where
  seq : UInt32
  flags : UInt8
  payload : Bytes

/-- The checks and reads of `on_inner`. -/
def hears (c : TcpClient) (inner : Bytes) : Option Heard :=
  if !c.owns inner then none
  else
    let ihl := ihlOf inner
    let total := totalOf inner
    if total < ihl + 20 ∨ total > inner.length then none
    else
      let tcp := slice inner ihl total
      let dataOff := (byteAt tcp 12 >>> 4).toNat * 4
      if dataOff < 20 ∨ dataOff > tcp.length then none
      else some ⟨u32be tcp 4, byteAt tcp 13, tcp.drop dataOff⟩

theorem hears_tcpPacket {src dst : Ipv4Addr} {sport : UInt16} {seq ackNo : UInt32}
    {flags : UInt8} {payload : Bytes} (c : TcpClient) (h : 40 + payload.length ≤ 65535) :
    hears c (tcpPacket src dst sport c.sport seq ackNo flags payload) =
      some ⟨seq, flags, payload⟩ := by
  obtain ⟨hversion, hihl, htotal, hproto, -⟩ :=
    tcpPacket_header src dst sport c.sport seq ackNo flags payload h
  obtain ⟨-, hdport, hseq, -, hoff, hflags, hpayload⟩ :=
    tcpSegment_fields src dst sport c.sport seq ackNo flags payload
  have hlen := length_tcpPacket src dst sport c.sport seq ackNo flags payload
  have hbody := tcpPacket_body src dst sport c.sport seq ackNo flags payload
  have htcpLen := length_tcpSegment src dst sport c.sport seq ackNo flags payload
  have hdataOff : ((0x50 : UInt8) >>> 4).toNat * 4 = 20 := by decide
  have hport : u16be (tcpPacket src dst sport c.sport seq ackNo flags payload) 22 = c.sport := by
    rw [u16be, ← slice_slice (b := tcpPacket src dst sport c.sport seq ackNo flags payload)
      (i := 20) (j := 40 + payload.length) (k := 2) (l := 4) (by omega), hbody]
    exact hdport
  have howns : c.owns (tcpPacket src dst sport c.sport seq ackNo flags payload) = true := by
    rw [TcpClient.owns, hversion, hproto, hlen, hihl, hport]
    rw [if_neg (by simp only [ne_eq, not_true, or_false, Nat.not_lt]; omega), if_neg (by omega)]
    exact decide_eq_true rfl
  rw [hears, howns]
  simp only [Bool.not_true, Bool.false_eq_true, if_false, hihl, htotal, hbody, hlen, hoff, hdataOff,
    htcpLen, hseq, hflags, hpayload]
  rw [if_neg (by omega), if_neg (by omega)]

/-- What `on_inner` does with what it read. -/
def reactsTo (c : TcpClient) (h : Heard) : List Bytes × TcpClient :=
  if c.done then ([], c)
  else if h.flags &&& syn ≠ 0 ∧ h.flags &&& Tcp.ack ≠ 0 ∧ !c.established then
    let c := { c with rcvNxt := h.seq + 1, established := true }
    ([c.segment Tcp.ack [], c.segment (Tcp.psh ||| Tcp.ack) c.request],
      { c with sndNxt := c.sndNxt + UInt32.ofNat c.request.length })
  else
    let (out, c) := c.onData h.seq h.payload
    let (out', c) := c.onFin h.flags
    (out ++ out', c)

theorem onInner_eq (c : TcpClient) (inner : Bytes) :
    c.onInner inner =
      match hears c inner with
      | none => ([], c)
      | some h => reactsTo c h := by
  rw [TcpClient.onInner, hears]
  cases howns : c.owns inner with
  | false => rfl
  | true =>
      cases hdone : c.done with
      | true =>
          simp only [Bool.not_true, Bool.false_eq_true, or_true, if_true, if_false]
          split
          · rfl
          · next h hsome =>
              rw [reactsTo, hdone]
              rfl
      | false =>
          simp only [Bool.not_true, Bool.false_eq_true, or_self, if_false]
          split
          · rfl
          · split
            · rfl
            · simp only [reactsTo, hdone, Bool.false_eq_true, if_false]

/-- The client takes the payload of a segment that starts at `rcv_nxt`. -/
theorem onData_snd (c : TcpClient) (seq : UInt32) (payload : Bytes) :
    (c.onData seq payload).2 =
      if seq = c.rcvNxt then
        { c with response := c.response ++ payload
                 rcvNxt := c.rcvNxt + UInt32.ofNat payload.length }
      else c := by
  rw [TcpClient.onData]
  cases payload with
  | nil =>
      simp only [if_true, List.append_nil, List.length_nil]
      split
      · show c = { c with rcvNxt := c.rcvNxt + 0 }
        rw [UInt32.add_zero]
      · rfl
  | cons b bs => rfl

theorem onFin_snd (c : TcpClient) (flags : UInt8) :
    (c.onFin flags).2 =
      if flags &&& fin ≠ 0 then { c with rcvNxt := c.rcvNxt + 1, done := true } else c := by
  rw [TcpClient.onFin]
  split
  · rfl
  · rfl

/-! ## The server's stream -/

section Stream

variable (S : Bytes) (iss : UInt32)

/-- A segment of the server: the SYN-ACK, or, once the client has sent its
request, a piece of the stream at its place, with a FIN only at the end. -/
def SentBy (established : Bool) (h : Heard) : Prop :=
  (h.flags &&& syn ≠ 0 ∧ h.flags &&& Tcp.ack ≠ 0 ∧ h.flags &&& fin = 0 ∧ h.payload = [] ∧
    h.seq = iss) ∨
  (established = true ∧ h.flags &&& syn = 0 ∧ ∃ off, h.seq = iss + 1 + UInt32.ofNat off ∧
    off + h.payload.length ≤ S.length ∧ h.payload = slice S off (off + h.payload.length) ∧
    (h.flags &&& fin ≠ 0 → off + h.payload.length = S.length))

/-- Delivery of a packet to the client: of a segment of the server, or of
something that is not read. -/
def ClientStep (c : TcpClient) (inner : Bytes) (c' : TcpClient) : Prop :=
  (∀ h, hears c inner = some h → SentBy S iss c.established h) ∧ (c.onInner inner).2 = c'

/-- The client after `open`. -/
structure Opened (c : TcpClient) : Prop where
  response : c.response = []
  done : c.done = false
  established : c.established = false

/-- The response is the start of the stream, and `rcv_nxt` is where it ends. -/
structure Follows (c : TcpClient) : Prop where
  response : c.response <+: S
  waiting : c.established = false → c.response = [] ∧ c.done = false
  next : c.established = true → c.done = false →
    c.rcvNxt = iss + 1 + UInt32.ofNat c.response.length

/-- The client calls the response complete only if it is. -/
def Complete (c : TcpClient) : Prop := c.done = true → c.response = S

/-- A FIN that the client reads starts, or ends, where the client's data
ends: nothing before it is missing. -/
def finInOrder (c : TcpClient) (inner : Bytes) : Bool :=
  match hears c inner with
  | none => true
  | some h =>
      c.done ∨ h.flags &&& fin = 0 ∨ h.seq = c.rcvNxt ∨
        h.seq + UInt32.ofNat h.payload.length = c.rcvNxt

end Stream

section Steps

variable {S : Bytes} {iss : UInt32} {c c' : TcpClient} {inner : Bytes} {h : Heard} {off : Nat}

theorem seq_eq_iff {a b : Nat} (ha : a < 2 ^ 32) (hb : b < 2 ^ 32) :
    iss + 1 + UInt32.ofNat a = iss + 1 + UInt32.ofNat b ↔ a = b := by
  refine ⟨?_, fun h => by rw [h]⟩
  intro h
  have hnat := congrArg UInt32.toNat ((UInt32.add_right_inj _).mp h)
  rwa [UInt32.toNat_ofNat_of_lt' ha, UInt32.toNat_ofNat_of_lt' hb] at hnat

/-- The client with the payload of a segment, where it takes it. -/
def takes (c : TcpClient) (h : Heard) : TcpClient :=
  if h.seq = c.rcvNxt then
    { c with response := c.response ++ h.payload
             rcvNxt := c.rcvNxt + UInt32.ofNat h.payload.length }
  else c

/-- The reaction to a segment that does not open the connection. -/
theorem reactsTo_piece (hdone : c.done = false) (hest : c.established = true) :
    (reactsTo c h).2 =
      if h.flags &&& fin ≠ 0 then
        { takes c h with rcvNxt := (takes c h).rcvNxt + 1, done := true }
      else takes c h := by
  have hnot : ¬(h.flags &&& syn ≠ 0 ∧ h.flags &&& Tcp.ack ≠ 0 ∧ !c.established) := by
    rw [hest]
    simp
  rw [reactsTo, if_neg (by rw [hdone]; decide), if_neg hnot]
  simp only [onFin_snd, onData_snd]
  rfl

theorem takes_done (c : TcpClient) (h : Heard) : (takes c h).done = c.done := by
  rw [takes]
  split
  · rfl
  · rfl

theorem takes_established (c : TcpClient) (h : Heard) :
    (takes c h).established = c.established := by
  rw [takes]
  split
  · rfl
  · rfl

/-- A piece that starts where the response ends makes it longer. -/
theorem append_piece {r : Bytes} (hr : r <+: S) (hoff : off = r.length)
    {n : Nat} : r ++ slice S off (off + n) = S.take (off + n) := by
  have htake : r = S.take off := by
    rw [hoff]
    exact List.prefix_iff_eq_take.mp hr
  rw [slice, Nat.add_sub_cancel_left, List.take_add, ← htake]

section Piece

variable (hS : S.length < 2 ^ 31) (hF : Follows S iss c) (hdone : c.done = false)
  (hest : c.established = true) (hseq : h.seq = iss + 1 + UInt32.ofNat off)
  (hle : off + h.payload.length ≤ S.length)
  (hpiece : h.payload = slice S off (off + h.payload.length))

include hS hF hdone hest hseq hle in
/-- `seq == rcv_nxt` says that the piece starts where the response ends. -/
theorem starts_here_iff : h.seq = c.rcvNxt ↔ off = c.response.length := by
  have hlen := hF.response.length_le
  rw [hseq, hF.next hest hdone]
  exact seq_eq_iff (by omega) (by omega)

include hS hF hdone hest hseq hle hpiece in
theorem takes_follows :
    (takes c h).response <+: S ∧
    (takes c h).rcvNxt = iss + 1 + UInt32.ofNat (takes c h).response.length := by
  rw [takes]
  split
  · next hhere =>
      have hoff := (starts_here_iff hS hF hdone hest hseq hle).mp hhere
      have happ : c.response ++ h.payload = S.take (off + h.payload.length) := by
        rw [← append_piece hF.response hoff, ← hpiece]
      refine ⟨?_, ?_⟩
      · show c.response ++ h.payload <+: S
        rw [happ]
        exact List.take_prefix _ S
      · show c.rcvNxt + UInt32.ofNat h.payload.length = _
        rw [hF.next hest hdone, List.length_append, UInt32.ofNat_add]
        exact UInt32.add_assoc _ _ _
  · exact ⟨hF.response, hF.next hest hdone⟩

include hS hF hdone hest hseq hle hpiece in
/-- After the last piece the response is complete exactly if that piece
starts or ends where the response did. -/
theorem takes_complete_iff (hend : off + h.payload.length = S.length) :
    (takes c h).response = S ↔
      h.seq = c.rcvNxt ∨ h.seq + UInt32.ofNat h.payload.length = c.rcvNxt := by
  have hlen := hF.response.length_le
  have hends : h.seq + UInt32.ofNat h.payload.length = c.rcvNxt ↔ c.response = S := by
    have hsum : h.seq + UInt32.ofNat h.payload.length = iss + 1 + UInt32.ofNat S.length := by
      rw [hseq, ← hend, UInt32.ofNat_add]
      simp only [UInt32.add_assoc]
    rw [hsum, hF.next hest hdone, seq_eq_iff (by omega) (by omega)]
    refine ⟨fun heq => hF.response.eq_of_length heq.symm, fun heq => by rw [heq]⟩
  rw [hends, takes]
  split
  · next hhere =>
      have hoff := (starts_here_iff hS hF hdone hest hseq hle).mp hhere
      have happ : c.response ++ h.payload = S := by
        rw [hpiece, append_piece hF.response hoff, hend, List.take_length]
      exact ⟨fun _ => .inl hhere, fun _ => happ⟩
  · next hnot => exact ⟨.inr, fun hor => hor.resolve_left hnot⟩

end Piece

/-- What delivering a segment of the server does to a client that has not
finished: it opens the connection, or takes a piece. -/
theorem react_cases (hdone : c.done = false)
    (hsent : SentBy S iss c.established h) :
    (c.established = false ∧ h.flags &&& fin = 0 ∧
      (reactsTo c h).2 = { c with rcvNxt := iss + 1, established := true
                                  sndNxt := c.sndNxt + UInt32.ofNat c.request.length }) ∨
    (c.established = true ∧ ∃ off, h.seq = iss + 1 + UInt32.ofNat off ∧
      off + h.payload.length ≤ S.length ∧ h.payload = slice S off (off + h.payload.length) ∧
      (h.flags &&& fin ≠ 0 → off + h.payload.length = S.length)) ∨
    (h.flags &&& fin = 0 ∧ (reactsTo c h).2 = c) := by
  cases hest : c.established with
  | false =>
      rcases hsent with ⟨hsyn, hack, hfin, -, hseq⟩ | ⟨hest', -⟩
      · refine .inl ⟨rfl, hfin, ?_⟩
        rw [reactsTo, if_neg (by rw [hdone]; decide), if_pos ⟨hsyn, hack, by rw [hest]; rfl⟩, hseq]
      · rw [hest] at hest'
        cases hest'
  | true =>
      rcases hsent with ⟨-, -, hfin, hnil, hseq⟩ | ⟨-, -, hpiece⟩
      · -- a SYN-ACK once more: it carries nothing
        refine .inr (.inr ⟨hfin, ?_⟩)
        rw [reactsTo_piece hdone hest, if_neg (not_not.mpr hfin), takes]
        split
        · rw [hnil, List.append_nil]
          show { c with rcvNxt := c.rcvNxt + 0 } = c
          rw [UInt32.add_zero]
        · rfl
      · exact .inr (.inl ⟨rfl, hpiece⟩)

theorem follows_step (hS : S.length < 2 ^ 31) (hF : Follows S iss c)
    (hstep : ClientStep S iss c inner c') : Follows S iss c' := by
  obtain ⟨hsent, rfl⟩ := hstep
  rw [onInner_eq]
  cases hread : hears c inner with
  | none => exact hF
  | some h =>
      cases hdone : c.done with
      | true =>
          simp only [reactsTo, hdone, if_true]
          exact hF
      | false =>
          rcases react_cases hdone (hsent h hread) with ⟨hest, -, heq⟩ |
            ⟨hest, off, hseq, hle, hpiece, hend⟩ | ⟨-, heq⟩
          · simp only [heq]
            obtain ⟨hresp, -⟩ := hF.waiting hest
            refine ⟨hF.response, fun hn => (by cases hn), fun _ _ => ?_⟩
            show iss + 1 = iss + 1 + UInt32.ofNat c.response.length
            rw [hresp]
            exact (UInt32.add_zero _).symm
          · obtain ⟨hresp, hnext⟩ := takes_follows hS hF hdone hest hseq hle hpiece
            simp only [reactsTo_piece hdone hest]
            have hest' := (takes_established c h).trans hest
            split
            · exact ⟨hresp, fun hn => (by cases hest'.symm.trans hn), fun _ hd => (by cases hd)⟩
            · exact ⟨hresp, fun hn => (by cases hest'.symm.trans hn), fun _ _ => hnext⟩
          · simp only [heq]
            exact hF

theorem complete_step_iff (hS : S.length < 2 ^ 31) (hF : Follows S iss c) (hC : Complete S c)
    (hstep : ClientStep S iss c inner c') : finInOrder c inner = true ↔ Complete S c' := by
  obtain ⟨hsent, rfl⟩ := hstep
  rw [onInner_eq, finInOrder]
  cases hread : hears c inner with
  | none => exact ⟨fun _ => hC, fun _ => rfl⟩
  | some h =>
      simp only [decide_eq_true_eq]
      cases hdone : c.done with
      | true =>
          simp only [reactsTo, hdone, if_true]
          exact ⟨fun _ => hC, fun _ => .inl trivial⟩
      | false =>
          have hopen : ∀ c', c'.done = false → Complete S c' := by
            intro c' hn hd
            rw [hn] at hd
            cases hd
          rcases react_cases hdone (hsent h hread) with ⟨-, hfin, heq⟩ |
            ⟨hest, off, hseq, hle, hpiece, hend⟩ | ⟨hfin, heq⟩
          · rw [heq]
            exact ⟨fun _ => hopen _ hdone, fun _ => .inr (.inl hfin)⟩
          · rw [reactsTo_piece hdone hest]
            by_cases hfin : h.flags &&& fin = 0
            · rw [if_neg (not_not.mpr hfin)]
              exact ⟨fun _ => hopen _ ((takes_done c h).trans hdone), fun _ => .inr (.inl hfin)⟩
            · rw [if_pos hfin]
              have hiff := takes_complete_iff hS hF hdone hest hseq hle hpiece (hend hfin)
              refine ⟨?_, ?_⟩
              · intro hor _
                rcases hor with hd | hf | hpos
                · cases hd
                · exact absurd hf hfin
                · exact hiff.mpr hpos
              · intro hcomp
                exact .inr (.inr (hiff.mp (hcomp rfl)))
          · rw [heq]
            exact ⟨fun _ => hC, fun _ => .inr (.inl hfin)⟩

theorem follows_opened (h : Opened c) : Follows S iss c where
  response := by
    rw [h.response]
    exact List.nil_prefix
  waiting _ := ⟨h.response, h.done⟩
  next hest := by
    rw [h.established] at hest
    cases hest

end Steps

/-- Every delivery of the server's segments, in any order, with losses and
duplicates. The response is the start of the stream throughout; the client
calls it complete only when it is, exactly while every FIN it reads is in
order. -/
theorem client_stream_iff (S : Bytes) (iss : UInt32) (hS : S.length < 2 ^ 31)
    (c₀ c : TcpClient) (packets : List Bytes) (hopened : Opened c₀) :
    (Run (ClientStep S iss) c₀ packets c → c.response <+: S) ∧
    (Run (Guarded (fun c inner => finInOrder c inner = true) (ClientStep S iss)) c₀ packets c ↔
      Run (Keeping (Complete S) (ClientStep S iss)) c₀ packets c) ∧
    (Run (Guarded (fun c inner => finInOrder c inner = true) (ClientStep S iss)) c₀ packets c →
      c.response <+: S ∧ (c.done = true → c.response = S)) := by
  have hF : Follows S iss c₀ := follows_opened hopened
  have hC : Complete S c₀ := by
    intro hd
    rw [hopened.done] at hd
    cases hd
  have hresp : Run (ClientStep S iss) c₀ packets c → c.response <+: S := fun hrun =>
    (hrun.invariant (P := Follows S iss) hF fun h hstep => follows_step hS h hstep).response
  have hiff : Run (Guarded (fun c inner => finInOrder c inner = true) (ClientStep S iss)) c₀
      packets c ↔ Run (Keeping (Complete S) (ClientStep S iss)) c₀ packets c := by
    refine run_guarded_iff_keeping (I := Follows S iss) ?_ ?_ hF hC
    · intro c inner c' h hstep
      exact follows_step hS h hstep
    · intro c inner c' h hc hstep
      exact complete_step_iff hS h hc hstep
  exact ⟨hresp, hiff, fun hrun => ⟨hresp hrun.unguarded, (hiff.mp hrun).keeps hC⟩⟩

/-! ## A client, run -/

/-- A client that has sent its SYN from port 5000. -/
def asking : TcpClient :=
  (TcpClient.new (Arr.zero 4) (Arr.zero 4) 5000 80 (ascii "GET") 0).openSyn.2

def serverSegment (seq : UInt32) (flags : UInt8) (payload : Bytes) : Bytes :=
  tcpPacket (Arr.zero 4) (Arr.zero 4) 80 5000 seq 0 flags payload

theorem asking_opened : Opened asking := ⟨rfl, rfl, rfl⟩

theorem clientStep_segment {S : Bytes} {iss : UInt32} {c : TcpClient} (hport : c.sport = 5000)
    {seq : UInt32} {flags : UInt8} {payload : Bytes} (hlen : 40 + payload.length ≤ 65535)
    (hsent : SentBy S iss c.established ⟨seq, flags, payload⟩) :
    ClientStep S iss c (serverSegment seq flags payload) (reactsTo c ⟨seq, flags, payload⟩).2 := by
  have hread : hears c (serverSegment seq flags payload) = some ⟨seq, flags, payload⟩ := by
    rw [serverSegment, ← hport]
    exact hears_tcpPacket c hlen
  refine ⟨fun h hh => ?_, ?_⟩
  · rw [hread] at hh
    cases hh
    exact hsent
  · rw [onInner_eq, hread]

/-- The two bytes of the stream are lost, and the FIN behind them is not. -/
theorem fin_over_gap_completes :
    Opened asking ∧ ∃ packets c, Run (ClientStep [1, 2] 7) asking packets c ∧
      c.done = true ∧ c.response ≠ [1, 2] := by
  refine ⟨asking_opened,
    [serverSegment 7 (syn ||| Tcp.ack) [], serverSegment 10 (fin ||| Tcp.ack) []], _,
    .cons (clientStep_segment rfl (by decide) ?_)
      (.cons (clientStep_segment rfl (by decide) ?_) .nil),
    by decide +kernel, by decide +kernel⟩
  · exact .inl (by decide)
  · exact .inr ⟨rfl, by decide, 2, by decide, by decide, by decide, fun _ => rfl⟩

theorem client_stream_asking :
    ∃ packets c, Run (Guarded (fun c inner => finInOrder c inner = true) (ClientStep [1, 2] 7))
        asking packets c ∧ c.done = true ∧ c.response = [1, 2] := by
  obtain ⟨c, hrun, hend⟩ : ∃ c, Run
      (Guarded (fun c inner => finInOrder c inner = true) (ClientStep [1, 2] 7)) asking
      [serverSegment 7 (syn ||| Tcp.ack) [], serverSegment 8 (fin ||| Tcp.ack) [1, 2]] c ∧
      c.done = true := by
    refine ⟨_, .cons ⟨by decide +kernel, clientStep_segment rfl (by decide) ?_⟩
      (.cons ⟨by decide +kernel, clientStep_segment rfl (by decide) ?_⟩ .nil), by decide +kernel⟩
    · exact .inl (by decide)
    · exact .inr ⟨rfl, by decide, 0, by decide, by decide, by decide, fun _ => rfl⟩
  obtain ⟨-, -, hdone⟩ := client_stream_iff [1, 2] 7 (by decide) asking c _ asking_opened
  exact ⟨_, c, hrun, hend, (hdone hrun).2 hend⟩

end TailscaleRust.Proofs
