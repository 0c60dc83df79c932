import TailscaleRust.Core.H2Client
import TailscaleRust.Proofs.ControlChannel

/-!
# Frame loops over a stream

A frame loop reads and sends by turns, on one connection. The two directions
do not meet: reading does not look at what was sent, and sending does not
touch what is to be read. So a loop over a stream of frames is the fold of
its step over them, and what it sends is what the step asks for, frame by
frame, in records that the other end opens.
-/

namespace TailscaleRust.Proofs

open TailscaleRust.Lib TailscaleRust.Core TailscaleRust.Core.Noise
open TailscaleRust.Core.Transport

/-! ## The two directions -/

/-- What of a session belongs to sending. -/
structure SendSide where
  written : Bytes
  writeFails : Bool
  key : Key
  nonce : UInt64

def sendSide (s : Conn × Transport) : SendSide :=
  ⟨s.1.stream.written, s.1.stream.writeFails, s.2.send, s.2.txNonce⟩

/-- The same connection with another sending side. -/
def setSendSide (x : SendSide) (s : Conn × Transport) : Conn × Transport :=
  ({ s.1 with stream.written := x.written, stream.writeFails := x.writeFails },
    { s.2 with send := x.key, txNonce := x.nonce })

def setStream (x : SendSide) (s : ByteStream) : ByteStream :=
  { s with written := x.written, writeFails := x.writeFails }

theorem byteStream_ignores (cap : Nat) (x : SendSide) :
    (ByteStream.source cap).Ignores (setStream x) := by
  intro s
  have hread : (setStream x s).read cap = (s.read cap).map fun r => (r.1, setStream x r.2) := by
    obtain ⟨incoming, readFails, written, writeFails⟩ := s
    cases incoming with
    | nil =>
        cases readFails with
        | false => rfl
        | true => rfl
    | cons c rest =>
        by_cases hc : c.length ≤ cap
        · simp only [ByteStream.read, setStream, if_pos hc]
          rfl
        · simp only [ByteStream.read, setStream, if_neg hc]
          rfl
  simp only [ByteStream.source, hread]
  cases s.read cap with
  | error e => rfl
  | ok r =>
      obtain ⟨b, s'⟩ := r
      cases b with
      | nil => rfl
      | cons y b => rfl

def setConn (x : SendSide) (c : Conn) : Conn := { c with stream := setStream x c.stream }

theorem take_setConn (x : SendSide) (c : Conn) (n : Nat) :
    (setConn x c).take n = (c.take n).map fun r => (r.1, setConn x r.2) := by
  simp only [Conn.take, setConn, Source.take_ignores (byteStream_ignores 2048 x)]
  cases (ByteStream.source 2048).take n c.rx c.stream with
  | error e =>
      obtain ⟨why, got⟩ := e
      cases why with
      | failed => rfl
      | closed => rfl
  | ok r => rfl

theorem readFrame_setConn (x : SendSide) (c : Conn) :
    (setConn x c).readFrame = c.readFrame.map fun r => (r.1, setConn x r.2) := by
  rw [Conn.readFrame, Conn.readFrame, take_setConn]
  cases c.take 3 with
  | error e => rfl
  | ok r =>
      obtain ⟨hdr, c1⟩ := r
      simp only [Except.map, take_setConn]
      cases c1.take (u16be hdr 1).toNat with
      | error e => rfl
      | ok r => rfl

theorem source_ignores (C : Crypto) (x : SendSide) : (H2.source C).Ignores (setSendSide x) := by
  intro s
  obtain ⟨c, tr⟩ := s
  have hset : setSendSide x (c, tr) =
      (setConn x c, { tr with send := x.key, txNonce := x.nonce }) := rfl
  simp only [H2.source, H2.pullRecord, hset, readFrame_setConn]
  cases c.readFrame with
  | error e => rfl
  | ok r =>
      obtain ⟨⟨typ, ct⟩, c1⟩ := r
      simp only [Except.map]
      split
      · have hopen : Transport.openRecord C { tr with send := x.key, txNonce := x.nonce } ct =
            ((tr.openRecord C ct).1,
              { (tr.openRecord C ct).2 with send := x.key, txNonce := x.nonce }) := by
          simp only [Transport.openRecord]
          cases C.chachaOpen tr.recv (beNonce tr.rxNonce) ct [] with
          | none => rfl
          | some pt => rfl
        rw [hopen]
        obtain ⟨pt, tr'⟩ := tr.openRecord C ct
        cases pt with
        | error e => rfl
        | ok pt => rfl
      · split
        · rfl
        · rfl

section Session

variable {C : Crypto} {h h' : H2} {q : Bytes}

/-- A read leaves the sending side as it is. -/
theorem readExact_sendSide {n : Nat} {out : Bytes} (hr : h.readExact C n = .ok (out, h')) :
    sendSide (h'.conn, h'.tr) = sendSide (h.conn, h.tr) := by
  have hself : setSendSide (sendSide (h.conn, h.tr)) (h.conn, h.tr) = (h.conn, h.tr) := rfl
  have hignores := Source.take_ignores (source_ignores C (sendSide (h.conn, h.tr))) n h.rx
    (h.conn, h.tr)
  rw [hself] at hignores
  rw [H2.readExact] at hr
  split at hr
  · cases hr
  · next rx conn tr ht =>
      cases hr
      rw [ht] at hignores
      have hback : (conn, tr) = setSendSide (sendSide (h.conn, h.tr)) (conn, tr) :=
        (Prod.mk.inj (Prod.mk.inj (Except.ok.inj hignores)).2).2
      rw [hback]
      rfl

theorem readFrame_sendSide {fr : H2.Frame} (hr : h.readFrame C = .ok (fr, h')) :
    sendSide (h'.conn, h'.tr) = sendSide (h.conn, h.tr) := by
  rw [H2.readFrame] at hr
  split at hr
  · cases hr
  · next hdr h1 h9 =>
      simp only [] at hr
      split at hr
      · split at hr
        · cases hr
        · next payload h2 hpay =>
            cases hr
            rw [readExact_sendSide hpay, readExact_sendSide h9]
      · cases hr
        exact readExact_sendSide h9

/-- Sending changes the sending side only. -/
theorem send_setSendSide {data : Bytes} (hs : h.send C data = .ok h') :
    ∃ x, x.writeFails = h.conn.stream.writeFails ∧
      h' = { h with conn := (setSendSide x (h.conn, h.tr)).1
                    tr := (setSendSide x (h.conn, h.tr)).2 } := by
  induction hk : data.length using Nat.strongRecOn generalizing h data with
  | ind k ih =>
    rw [H2.send] at hs
    split at hs
    · cases hs
      exact ⟨sendSide (h'.conn, h'.tr), rfl, rfl⟩
    · next hne =>
        have hpos := List.length_pos_iff.mpr hne
        have hlen : (data.drop 2048).length < k := by
          rw [List.length_drop]
          omega
        simp only [] at hs
        split at hs
        · cases hs
        · next conn hw =>
            obtain ⟨x, hfails, rfl⟩ := ih _ hlen hs rfl
            refine ⟨x, ?_⟩
            rw [Conn.writeAll, ByteStream.writeAll] at hw
            split at hw
            · cases hw
            · next stream hw' =>
                cases hw
                split at hw'
                · cases hw'
                · cases hw'
                  exact ⟨hfails, rfl⟩

/-- What is ahead stays ahead. -/
theorem send_ahead {data : Bytes} (hq : PlainAhead C h q) (hs : h.send C data = .ok h') :
    PlainAhead C h' q := by
  obtain ⟨x, -, rfl⟩ := send_setSendSide hs
  obtain ⟨rest, hrest, heq⟩ := hq
  exact ⟨rest, hrest.ignores (source_ignores C x), heq⟩

end Session

/-! ## What was written -/

theorem openAll_append {C : Crypto} {t : Transport} {cts : List Bytes} {data : Bytes}
    (h : openAll C t cts = .ok data) (cts' : List Bytes) :
    openAll C t (cts ++ cts') =
      (openAll C { t with rxNonce := t.rxNonce + UInt64.ofNat cts.length } cts').map
        (data ++ ·) := by
  induction cts generalizing t data with
  | nil =>
      cases h
      rw [List.nil_append]
      show openAll C t cts' = (openAll C { t with rxNonce := t.rxNonce + 0 } cts').map id
      rw [UInt64.add_zero]
      exact (Except.map_id ▸ rfl)
  | cons ct cts ih =>
      have hnext : (t.openRecord C ct).2 = { t with rxNonce := t.rxNonce + 1 } := by
        rw [Transport.openRecord]
        split
        · rfl
        · rfl
      rw [openAll] at h
      rw [List.cons_append, openAll]
      split at h
      · cases h
      · next pt t' hopen =>
          rw [hopen] at hnext
          obtain rfl : t' = { t with rxNonce := t.rxNonce + 1 } := hnext
          split at h
          · cases h
          · next pts hpts =>
              cases h
              simp only [ih hpts]
              rw [List.length_cons, ← counter_succ]
              cases openAll C _ cts' with
              | error e => rfl
              | ok d =>
                  show Except.ok (pt ++ (pts ++ d)) = Except.ok (pt ++ pts ++ d)
                  rw [List.append_assoc]

/-- Between the two states this was sent, in records that the other end opens
to it, and nothing else. -/
structure Wrote (C : Crypto) (h h' : H2) (data : Bytes) : Prop where
  records : ∃ cts : List Bytes,
    h'.conn.stream.written = h.conn.stream.written ++ cts.flatMap (controlFrame msgRecord) ∧
    (∀ peer : Transport, peer.recv = h.tr.send → peer.rxNonce = h.tr.txNonce →
      openAll C peer cts = .ok data) ∧
    h'.tr.txNonce = h.tr.txNonce + UInt64.ofNat cts.length
  key : h'.tr.send = h.tr.send
  writable : h'.conn.stream.writeFails = h.conn.stream.writeFails

section Wrote

variable {C : Crypto} {h h' h'' : H2}

theorem Wrote.of_sendSide (hs : sendSide (h'.conn, h'.tr) = sendSide (h.conn, h.tr)) :
    Wrote C h h' [] := by
  have hwritten := congrArg SendSide.written hs
  have hfails := congrArg SendSide.writeFails hs
  have hkey := congrArg SendSide.key hs
  have hnonce := congrArg SendSide.nonce hs
  simp only [sendSide] at hwritten hfails hkey hnonce
  refine ⟨⟨[], ?_, fun _ _ _ => rfl, ?_⟩, hkey, hfails⟩
  · rw [hwritten, List.flatMap_nil, List.append_nil]
  · rw [hnonce]
    exact (UInt64.add_zero _).symm

theorem Wrote.trans {d d' : Bytes} (h1 : Wrote C h h' d) (h2 : Wrote C h' h'' d') :
    Wrote C h h'' (d ++ d') := by
  obtain ⟨⟨cts, hw, hopen, hn⟩, hkey, hfails⟩ := h1
  obtain ⟨⟨cts', hw', hopen', hn'⟩, hkey', hfails'⟩ := h2
  refine ⟨⟨cts ++ cts', ?_, ?_, ?_⟩, hkey'.trans hkey, hfails'.trans hfails⟩
  · rw [hw', hw, List.flatMap_append, List.append_assoc]
  · intro peer hp hpn
    rw [openAll_append (hopen peer hp hpn), hopen' { peer with
      rxNonce := peer.rxNonce + UInt64.ofNat cts.length } (by rw [hkey]; exact hp)
      (by rw [hn, hpn])]
    rfl
  · rw [hn', hn, List.length_append, UInt64.ofNat_add, UInt64.add_assoc]

theorem Wrote.of_sent {data : Bytes} {cts : List Bytes} (hs : h.send C data = .ok h')
    (hsent : Sent C h h' data cts) : Wrote C h h' data := by
  refine ⟨⟨cts, hsent.written, hsent.opened, by rw [hsent.next]⟩, by rw [hsent.next], ?_⟩
  obtain ⟨x, hfails, rfl⟩ := send_setSendSide hs
  exact hfails

/-- Several sends in a row. -/
theorem sendAll_wrote (hC : C.Lawful) (ds : List Bytes) {q : Bytes}
    (hw : h.conn.stream.writeFails = false) (hq : PlainAhead C h q) :
    ∃ h', h.sendAll C ds = .ok h' ∧ Wrote C h h' ds.flatten ∧ PlainAhead C h' q := by
  induction ds generalizing h with
  | nil => exact ⟨h, rfl, .of_sendSide rfl, hq⟩
  | cons d ds ih =>
      obtain ⟨h1, cts, hsend, hsent⟩ := send_sent hC h d hw
      have hfirst := Wrote.of_sent hsend hsent
      obtain ⟨h2, hrest, hwrote, hq2⟩ := ih (hfirst.writable.trans hw) (send_ahead hq hsend)
      refine ⟨h2, ?_, hfirst.trans hwrote, hq2⟩
      rw [H2.sendAll, hsend]
      exact hrest

end Wrote

/-! ## The loop -/

section Loop

variable {C : Crypto} {σ α : Type} {step : σ → H2.Frame → List Bytes × H2.Next σ α}

/-- One turn of the loop. -/
theorem frameLoop_frame (step : σ → H2.Frame → List Bytes × H2.Next σ α) (hC : C.Lawful)
    {h : H2} {f : WireFrame} {q : Bytes} (hw : h.conn.stream.writeFails = false)
    (hq : PlainAhead C h (f.bytes ++ q)) (s : σ) :
    ∃ h', PlainAhead C h' q ∧ Wrote C h h' (step s f.received).1.flatten ∧
      h.frameLoop C step s =
        match (step s f.received).2 with
        | .stop (.ok r) => .ok (r, h')
        | .stop (.error e) => .error e
        | .more s => h'.frameLoop C step s := by
  obtain ⟨h1, hread, hq1⟩ := h2ReadFrame_ahead hq
  have hnone : Wrote C h h1 [] := .of_sendSide (readFrame_sendSide hread)
  obtain ⟨h2, hsend, hwrote, hq2⟩ := sendAll_wrote hC (step s f.received).1
    (hnone.writable.trans hw) hq1
  refine ⟨h2, hq2, hnone.trans hwrote, ?_⟩
  rw [H2.frameLoop]
  split
  · next he =>
      rw [hread] at he
      cases he
  · next fr h1' hr =>
      rw [hread] at hr
      cases hr
      split
      · next he =>
          rw [hsend] at he
          cases he
      · next hs =>
          rw [hsend] at hs
          cases hs
          rfl

/-- The states of a loop that goes on over these frames. -/
inductive GoesOn (step : σ → H2.Frame → List Bytes × H2.Next σ α) :
    σ → List H2.Frame → σ → Prop
  | nil {s : σ} : GoesOn step s [] s
  | cons {s s' t : σ} {fr : H2.Frame} {frs : List H2.Frame} : (step s fr).2 = .more s' →
      GoesOn step s' frs t → GoesOn step s (fr :: frs) t

/-- What the steps over these frames send. -/
def sends (step : σ → H2.Frame → List Bytes × H2.Next σ α) (s : σ) : List H2.Frame → List Bytes
  | [] => []
  | fr :: frs =>
      (step s fr).1 ++
        match (step s fr).2 with
        | .more s' => sends step s' frs
        | .stop _ => []

/-- A loop that goes on over all frames but the last and stops at that one
consumes exactly these. -/
theorem frameLoop_frames (hC : C.Lawful) {h : H2} {fs : List WireFrame} {last : WireFrame}
    {q : Bytes} {s t : σ} {r : α} (hw : h.conn.stream.writeFails = false)
    (hq : PlainAhead C h ((fs ++ [last]).flatMap WireFrame.bytes ++ q))
    (hon : GoesOn step s (fs.map WireFrame.received) t)
    (hstop : (step t last.received).2 = .stop (.ok r)) :
    ∃ h', h.frameLoop C step s = .ok (r, h') ∧ PlainAhead C h' q ∧
      Wrote C h h' (sends step s ((fs ++ [last]).map WireFrame.received)).flatten := by
  induction fs generalizing h s with
  | nil =>
      cases hon
      rw [List.nil_append, List.flatMap_singleton] at hq
      obtain ⟨h', hq', hwrote, hloop⟩ := frameLoop_frame step hC hw hq t
      rw [hstop] at hloop
      refine ⟨h', hloop, hq', ?_⟩
      rw [List.nil_append, List.map_singleton, sends, hstop, List.append_nil]
      exact hwrote
  | cons f fs ih =>
      cases hon with
      | cons hmore hrest =>
          rw [List.cons_append, List.flatMap_cons, List.append_assoc] at hq
          obtain ⟨h1, hq1, hwrote, hloop⟩ := frameLoop_frame step hC hw hq s
          rw [hmore] at hloop
          obtain ⟨h', hloop', hq', hwrote'⟩ := ih (hwrote.writable.trans hw) hq1 hrest
          refine ⟨h', hloop.trans hloop', hq', ?_⟩
          rw [List.cons_append, List.map_cons, sends, hmore, List.flatten_append]
          exact hwrote.trans hwrote'

end Loop

end TailscaleRust.Proofs
