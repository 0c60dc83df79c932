import TailscaleRust.Firmware.ControlSession
import TailscaleRust.Proofs.H2Response
import TailscaleRust.Proofs.Headers

/-!
# A whole session with the control server

The client upgrades a connection, shakes hands, starts HTTP/2 and makes one
request after the other. What it reads is settled in `H2Response`; here are
both directions of a whole session. A server that opens the records of what
was written and reads frames off them finds the preface, the settings, and
for each request its headers and its body on a stream of its own, with the
acknowledgements and the credit that its own frames called for in between.

`Sealed` says what was written between two states: records of at most 2048
bytes under the nonces that come next, so that every length fits its field.
-/

namespace TailscaleRust.Proofs.ControlRequests

open TailscaleRust.Lib TailscaleRust.Lib.Hpack TailscaleRust.Core TailscaleRust.Core.H2
open TailscaleRust.Core.Transport (Conn ByteStream connectAndUpgrade upgradeRequest base64Std)
open TailscaleRust.Core.Noise (controlFrame msgRecord msgResponse beNonce framedInitiation)
open TailscaleRust.Firmware TailscaleRust.Firmware.Control

/-! ## What is written -/

structure Sealed (C : Crypto) (h h' : H2) (data : Bytes) : Prop where
  records : ∃ pts : List Bytes, pts.flatten = data ∧ (∀ pt ∈ pts, pt.length ≤ 2048) ∧
    h'.conn.stream.written =
      h.conn.stream.written ++ sealedFrom C h.tr.send h.tr.txNonce pts ∧
    h'.tr.txNonce = h.tr.txNonce + UInt64.ofNat pts.length
  key : h'.tr.send = h.tr.send
  writable : h'.conn.stream.writeFails = h.conn.stream.writeFails

/-- The parts of a session that only a new request changes. -/
structure SameSession (h h' : H2) : Prop where
  next : h'.nextStream = h.nextStream
  authority : h'.authority = h.authority

theorem SameSession.trans {h h' h'' : H2} (h1 : SameSession h h') (h2 : SameSession h' h'') :
    SameSession h h'' :=
  ⟨h2.next.trans h1.next, h2.authority.trans h1.authority⟩

theorem sealedFrom_append (C : Crypto) (key : Key) (n : UInt64) (a b : List Bytes) :
    sealedFrom C key n (a ++ b) =
      sealedFrom C key n a ++ sealedFrom C key (n + UInt64.ofNat a.length) b := by
  induction a generalizing n with
  | nil =>
      show sealedFrom C key n b = sealedFrom C key (n + 0) b
      rw [UInt64.add_zero]
  | cons pt a ih =>
      rw [List.cons_append, sealedFrom, ih, sealedFrom, List.append_assoc, List.length_cons,
        counter_succ]

section Sealed

variable {C : Crypto} {h h' h'' : H2} {data data' : Bytes}

theorem Sealed.of_sendSide (hs : sendSide (h'.conn, h'.tr) = sendSide (h.conn, h.tr)) :
    Sealed C h h' [] := by
  have hwritten := congrArg SendSide.written hs
  have hfails := congrArg SendSide.writeFails hs
  have hkey := congrArg SendSide.key hs
  have hnonce := congrArg SendSide.nonce hs
  simp only [sendSide] at hwritten hfails hkey hnonce
  refine ⟨⟨[], rfl, fun _ h => absurd h List.not_mem_nil, ?_, ?_⟩, hkey, hfails⟩
  · rw [hwritten, sealedFrom, List.append_nil]
  · rw [hnonce]
    exact (UInt64.add_zero _).symm

theorem Sealed.trans (h1 : Sealed C h h' data) (h2 : Sealed C h' h'' data') :
    Sealed C h h'' (data ++ data') := by
  obtain ⟨⟨pts, hdata, hle, hw, hn⟩, hkey, hfails⟩ := h1
  obtain ⟨⟨pts', hdata', hle', hw', hn'⟩, hkey', hfails'⟩ := h2
  refine ⟨⟨pts ++ pts', ?_, ?_, ?_, ?_⟩, hkey'.trans hkey, hfails'.trans hfails⟩
  · rw [List.flatten_append, hdata, hdata']
  · intro pt hpt
    rcases List.mem_append.mp hpt with hpt | hpt
    · exact hle pt hpt
    · exact hle' pt hpt
  · rw [hw', hw, hkey, hn, sealedFrom_append, List.append_assoc]
  · rw [hn', hn, List.length_append, UInt64.ofNat_add, UInt64.add_assoc]

theorem send_sealed (hs : h.send C data = .ok h') : Sealed C h h' data ∧ SameSession h h' := by
  induction hk : data.length using Nat.strongRecOn generalizing h data with
  | ind k ih =>
    rw [H2.send] at hs
    split at hs
    · next hnil =>
        cases hs
        rw [hnil]
        exact ⟨.of_sendSide rfl, rfl, rfl⟩
    · next hne =>
        have hpos := List.length_pos_iff.mpr hne
        have hlen : (data.drop 2048).length < k := by
          rw [List.length_drop]
          omega
        simp only [] at hs
        split at hs
        · cases hs
        · next conn hw =>
            obtain ⟨hrest, hsame⟩ := ih _ hlen hs rfl
            have hconn : conn.stream.written = h.conn.stream.written ++
                (h.tr.sealRecord C (data.take 2048)).1 ∧
                conn.stream.writeFails = h.conn.stream.writeFails := by
              rw [Conn.writeAll, ByteStream.writeAll] at hw
              split at hw
              · cases hw
              · next stream hw' =>
                  cases hw
                  split at hw'
                  · cases hw'
                  · cases hw'
                    exact ⟨rfl, rfl⟩
            have hfirst : Sealed C h { h with conn, tr := (h.tr.sealRecord C (data.take 2048)).2 }
                (data.take 2048) := by
              refine ⟨⟨[data.take 2048], ?_, ?_, ?_, rfl⟩, rfl, hconn.2⟩
              · rw [List.flatten_cons, List.flatten_nil, List.append_nil]
              · intro pt hpt
                rw [List.mem_singleton.mp hpt]
                exact List.length_take_le 2048 data
              · show conn.stream.written = _
                rw [hconn.1, sealedFrom, sealedFrom, List.append_nil]
                rfl
            have hboth := hfirst.trans hrest
            rw [List.take_append_drop] at hboth
            exact ⟨hboth, hsame.next, hsame.authority⟩

theorem sendAll_sealed {ds : List Bytes} (hs : h.sendAll C ds = .ok h') :
    Sealed C h h' ds.flatten ∧ SameSession h h' := by
  induction ds generalizing h with
  | nil =>
      cases hs
      exact ⟨.of_sendSide rfl, rfl, rfl⟩
  | cons d ds ih =>
      rw [H2.sendAll] at hs
      split at hs
      · cases hs
      · next h1 hsend =>
          obtain ⟨hfirst, hsame⟩ := send_sealed hsend
          obtain ⟨hrest, hsame'⟩ := ih hs
          exact ⟨hfirst.trans hrest, hsame.trans hsame'⟩

theorem sendAll_ahead {ds : List Bytes} {q : Bytes} (hq : PlainAhead C h q)
    (hs : h.sendAll C ds = .ok h') : PlainAhead C h' q := by
  induction ds generalizing h with
  | nil =>
      cases hs
      exact hq
  | cons d ds ih =>
      rw [H2.sendAll] at hs
      split at hs
      · cases hs
      · next h1 hsend => exact ih (send_ahead hq hsend) hs

theorem readExact_same {n : Nat} {out : Bytes} (hr : h.readExact C n = .ok (out, h')) :
    SameSession h h' := by
  rw [H2.readExact] at hr
  split at hr
  · cases hr
  · cases hr
    exact ⟨rfl, rfl⟩

theorem readFrame_same {fr : H2.Frame} (hr : h.readFrame C = .ok (fr, h')) :
    SameSession h h' := by
  rw [H2.readFrame] at hr
  split at hr
  · cases hr
  · next hhdr =>
      simp only [] at hr
      split at hr
      · split at hr
        · cases hr
        · next hpay =>
            cases hr
            exact (readExact_same hhdr).trans (readExact_same hpay)
      · cases hr
        exact readExact_same hhdr

end Sealed

/-! ## The loops -/

section Loop

variable {C : Crypto} {σ α : Type} {step : σ → H2.Frame → List Bytes × H2.Next σ α}

/-- A turn of a loop that has come to an end. -/
theorem frameLoop_turn {h h' : H2} {fr : H2.Frame} {h1 : H2} {s : σ} {r : α}
    (hread : h.readFrame C = .ok (fr, h1)) (hloop : h.frameLoop C step s = .ok (r, h')) :
    ∃ h2, h1.sendAll C (step s fr).1 = .ok h2 ∧
      ((step s fr).2 = .stop (.ok r) ∧ h2 = h' ∨
        ∃ s', (step s fr).2 = .more s' ∧ h2.frameLoop C step s' = .ok (r, h')) := by
  rw [H2.frameLoop] at hloop
  split at hloop
  · cases hloop
  · next fr' h1' hr =>
      rw [hread] at hr
      cases hr
      split at hloop
      · cases hloop
      · next h2 hsend =>
          refine ⟨h2, hsend, ?_⟩
          split at hloop
          · next hstop =>
              cases hloop
              exact .inl ⟨hstop, rfl⟩
          · cases hloop
          · next s' hmore => exact .inr ⟨s', hmore, hloop⟩

/-- What a loop has written over the frames that it takes. -/
theorem frameLoop_sealed {h h' : H2} {fs : List WireFrame} {last : WireFrame} {q : Bytes}
    {s t : σ} {r r' : α} (hq : PlainAhead C h ((fs ++ [last]).flatMap WireFrame.bytes ++ q))
    (hon : GoesOn step s (fs.map WireFrame.received) t)
    (hstop : (step t last.received).2 = .stop (.ok r'))
    (hloop : h.frameLoop C step s = .ok (r, h')) :
    Sealed C h h' (sends step s ((fs ++ [last]).map WireFrame.received)).flatten ∧
      SameSession h h' := by
  induction fs generalizing h s with
  | nil =>
      cases hon
      rw [List.nil_append, List.flatMap_singleton] at hq
      obtain ⟨h1, hread, -⟩ := h2ReadFrame_ahead hq
      obtain ⟨h2, hsend, hend⟩ := frameLoop_turn hread hloop
      obtain ⟨hsent, hsame⟩ := sendAll_sealed hsend
      have hlast : h2 = h' := by
        rcases hend with ⟨-, heq⟩ | ⟨s', hmore, -⟩
        · exact heq
        · rw [hstop] at hmore
          cases hmore
      rw [List.nil_append, List.map_singleton, sends, hstop, List.append_nil, ← hlast]
      exact ⟨(Sealed.of_sendSide (readFrame_sendSide hread)).trans hsent,
        (readFrame_same hread).trans hsame⟩
  | cons f fs ih =>
      cases hon with
      | cons hmore hrest =>
          rw [List.cons_append, List.flatMap_cons, List.append_assoc] at hq
          obtain ⟨h1, hread, hq1⟩ := h2ReadFrame_ahead hq
          obtain ⟨h2, hsend, hend⟩ := frameLoop_turn hread hloop
          obtain ⟨hsent, hsame⟩ := sendAll_sealed hsend
          rcases hend with ⟨hstop', -⟩ | ⟨s', hmore', hloop'⟩
          · rw [hmore] at hstop'
            cases hstop'
          · rw [hmore] at hmore'
            cases hmore'
            obtain ⟨hrecords, hsame'⟩ := ih (sendAll_ahead hq1 hsend) hrest hloop'
            rw [List.cons_append, List.map_cons, sends, hmore, List.flatten_append]
            exact ⟨((Sealed.of_sendSide (readFrame_sendSide hread)).trans hsent).trans hrecords,
              ((readFrame_same hread).trans hsame).trans hsame'⟩

end Loop

/-! ## Exchanges -/

/-- A request, and the frames of the server up to the end of its response.
What is in between may be of other streams. -/
structure Exchange where
  path : Bytes
  body : Bytes
  frames : List WireFrame
  last : WireFrame

namespace Exchange

def wire (x : Exchange) : List WireFrame := x.frames ++ [x.last]

def received (x : Exchange) : List H2.Frame := x.wire.map WireFrame.received

/-- The frames are those of a response on a stream. -/
structure On (streamId : UInt32) (x : Exchange) : Prop where
  regular : ∀ f ∈ x.wire, Regular f.received
  more : ∀ f ∈ x.frames, ¬Ends streamId f.received
  ends : Ends streamId x.last.received

/-- What `post_json` returns. -/
def reply (streamId : UInt32) (x : Exchange) : UInt16 × Bytes :=
  ((statusOf streamId x.received).getD 0, stripWirePrefix (bodyOf streamId x.received))

/-- What it sends. -/
def sent (authority : Bytes) (streamId : UInt32) (x : Exchange) : List H2.Frame :=
  [⟨ftHeaders, flEndHeaders, streamId, postHeaders authority x.path x.body⟩,
    ⟨ftData, flEndStream, streamId, x.body⟩] ++ x.received.flatMap (answers streamId)

end Exchange

/-- Every exchange has the stream after the one before. -/
def Streams : UInt32 → List Exchange → Prop
  | _, [] => True
  | streamId, x :: xs => x.On streamId ∧ Streams (streamId + 2) xs

def replies : UInt32 → List Exchange → List (UInt16 × Bytes)
  | _, [] => []
  | streamId, x :: xs => x.reply streamId :: replies (streamId + 2) xs

def sentFrames (authority : Bytes) : UInt32 → List Exchange → List H2.Frame
  | _, [] => []
  | streamId, x :: xs => x.sent authority streamId ++ sentFrames authority (streamId + 2) xs

/-- One request after the other. -/
def postAll (C : Crypto) : H2 → List (Bytes × Bytes) → Except String (List (UInt16 × Bytes) × H2)
  | h, [] => .ok ([], h)
  | h, (path, body) :: reqs =>
      match h.postJson C path body with
      | .error e => .error e
      | .ok (reply, h) =>
          match postAll C h reqs with
          | .error e => .error e
          | .ok (replies, h) => .ok (reply :: replies, h)

section Requests

variable {C : Crypto} {h : H2} {q : Bytes}

theorem readResponse_sealed (hC : C.Lawful) {x : Exchange} {streamId : UInt32}
    (hx : x.On streamId) (hw : h.conn.stream.writeFails = false)
    (hq : PlainAhead C h (x.wire.flatMap WireFrame.bytes ++ q)) :
    ∃ h', h.readResponse C streamId = .ok (x.reply streamId, h') ∧ PlainAhead C h' q ∧
      Sealed C h h' ((x.received.flatMap (answers streamId)).flatMap frameBytes) ∧
      SameSession h h' := by
  have hfrs : x.received = x.frames.map WireFrame.received ++ [x.last.received] := by
    rw [Exchange.received, Exchange.wire, List.map_append, List.map_singleton]
  have hregs : ∀ fr ∈ x.frames.map WireFrame.received, Regular fr := by
    intro fr hfr
    obtain ⟨f, hf, rfl⟩ := List.mem_map.mp hfr
    exact hx.regular f (List.mem_append_left _ hf)
  have hlast : Regular x.last.received :=
    hx.regular x.last (List.mem_append_right _ List.mem_cons_self)
  have hmores : ∀ fr ∈ x.frames.map WireFrame.received, ¬Ends streamId fr := by
    intro fr hfr
    obtain ⟨f, hf, rfl⟩ := List.mem_map.mp hfr
    exact hx.more f hf
  have hon := goesOn_absorb hregs hmores (0, [])
  have hstop := responseStep_stop hlast hx.ends
    ((x.frames.map WireFrame.received).foldl (absorb streamId) (0, []))
  have hreply : absorb streamId
      ((x.frames.map WireFrame.received).foldl (absorb streamId) (0, [])) x.last.received =
        ((statusOf streamId x.received).getD 0, bodyOf streamId x.received) := by
    have hsnoc : (x.frames.map WireFrame.received ++ [x.last.received]).foldl
        (absorb streamId) (0, []) = _ :=
      List.foldl_concat ..
    rw [← hsnoc, ← hfrs, foldl_absorb, List.nil_append]
  rw [hreply] at hstop
  obtain ⟨h', hloop, hq', -⟩ := frameLoop_frames hC hw hq hon hstop
  obtain ⟨hsealed, hsame⟩ := frameLoop_sealed hq hon hstop hloop
  refine ⟨h', hloop, hq', ?_, hsame⟩
  rw [hfrs, ← sends_answers hregs hlast hmores hx.ends (0, []), ← hfrs]
  exact hsealed

/-- One request and its response. -/
theorem postJson_sealed (hC : C.Lawful) {x : Exchange} (hx : x.On h.nextStream)
    (hw : h.conn.stream.writeFails = false)
    (hq : PlainAhead C h (x.wire.flatMap WireFrame.bytes ++ q)) :
    ∃ h', h.postJson C x.path x.body = .ok (x.reply h.nextStream, h') ∧ PlainAhead C h' q ∧
      Sealed C h h' ((x.sent h.authority h.nextStream).flatMap frameBytes) ∧
      h'.nextStream = h.nextStream + 2 ∧ h'.authority = h.authority := by
  have hq0 : PlainAhead C { h with nextStream := h.nextStream + 2 }
      (x.wire.flatMap WireFrame.bytes ++ q) := hq
  obtain ⟨h1, cts, hsend, -⟩ := send_sent hC { h with nextStream := h.nextStream + 2 }
    (frame ftHeaders flEndHeaders h.nextStream (postHeaders h.authority x.path x.body) ++
      frame ftData flEndStream h.nextStream x.body) hw
  obtain ⟨hrequest, hsame⟩ := send_sealed hsend
  obtain ⟨h', hresp, hq', hanswers, hsame'⟩ :=
    readResponse_sealed hC hx (hrequest.writable.trans hw) (send_ahead hq0 hsend)
  have hpost : h.postStream C x.path x.body = .ok (h.nextStream, h1) := by
    rw [H2.postStream]
    simp only [hsend]
  have hboth : Sealed C h h' _ :=
    Sealed.trans ⟨hrequest.records, hrequest.key, hrequest.writable⟩ hanswers
  refine ⟨h', ?_, hq', ?_, (hsame.trans hsame').next, (hsame.trans hsame').authority⟩
  · rw [H2.postJson, hpost]
    exact hresp
  · rw [Exchange.sent, List.flatMap_append]
    simp only [List.flatMap_cons, List.flatMap_nil, List.append_nil]
    exact hboth

theorem postAll_sealed (hC : C.Lawful) {xs : List Exchange} (hxs : Streams h.nextStream xs)
    (hw : h.conn.stream.writeFails = false)
    (hq : PlainAhead C h ((xs.flatMap Exchange.wire).flatMap WireFrame.bytes ++ q)) :
    ∃ h', postAll C h (xs.map fun x => (x.path, x.body)) = .ok (replies h.nextStream xs, h') ∧
      PlainAhead C h' q ∧
      Sealed C h h' ((sentFrames h.authority h.nextStream xs).flatMap frameBytes) := by
  induction xs generalizing h with
  | nil => exact ⟨h, rfl, hq, .of_sendSide rfl⟩
  | cons x xs ih =>
      rw [List.flatMap_cons, List.flatMap_append, List.append_assoc] at hq
      obtain ⟨h1, hpost, hq1, hsent, hnext, hauth⟩ := postJson_sealed hC hxs.1 hw hq
      obtain ⟨h2, hall, hq2, hrest⟩ :=
        ih (h := h1) (hnext ▸ hxs.2) (hsent.writable.trans hw) hq1
      refine ⟨h2, ?_, hq2, ?_⟩
      · rw [List.map_cons, postAll, hpost]
        simp only [hall, hnext]
        rfl
      · rw [sentFrames, List.flatMap_append]
        rw [hnext, hauth] at hrest
        exact hsent.trans hrest

end Requests

/-! ## Coming up -/

section Connect

theorem read_written {cap : Nat} {s s' : ByteStream} {b : Bytes}
    (h : s.read cap = .ok (b, s')) :
    s'.written = s.written ∧ s'.writeFails = s.writeFails := by
  rw [ByteStream.read] at h
  split at h
  · split at h
    · cases h
    · cases h
      exact ⟨rfl, rfl⟩
  · split at h
    · cases h
      exact ⟨rfl, rfl⟩
    · cases h
      exact ⟨rfl, rfl⟩

theorem pull_written {cap : Nat} {s s' : ByteStream} {b : Bytes}
    (h : (ByteStream.source cap).pull s = .ok (b, s')) :
    s'.written = s.written ∧ s'.writeFails = s.writeFails := by
  simp only [ByteStream.source] at h
  split at h
  · cases h
  · cases h
  · next hr =>
      cases h
      exact read_written hr

theorem readHead_written {s s' : ByteStream} {head out : Bytes} {n : Nat}
    (h : Transport.readHead s head = .ok (out, n, s')) :
    s'.written = s.written ∧ s'.writeFails = s.writeFails := by
  fun_induction Transport.readHead s head with
  | case1 => cases h
  | case2 => cases h
  | case3 s head b s₁ hpull pos hpos =>
      cases h
      exact pull_written hpull
  | case4 => cases h
  | case5 s head b s₁ hpull hpos hlen ih =>
      obtain ⟨hwritten, hfails⟩ := ih h
      obtain ⟨hwritten', hfails'⟩ := pull_written hpull
      exact ⟨hwritten.trans hwritten', hfails.trans hfails'⟩

theorem connectAndUpgrade_written {s : ByteStream} {host b64 : Bytes} {conn : Conn}
    (h : connectAndUpgrade s host b64 = .ok conn) :
    conn.stream.written = s.written ++ upgradeRequest host b64 ∧
      conn.stream.writeFails = s.writeFails := by
  rw [connectAndUpgrade, ByteStream.writeAll] at h
  split at h
  · cases h
  · next stream hwrite =>
      split at hwrite
      · cases hwrite
      · cases hwrite
        split at h
        · cases h
        · next hread =>
            simp only [] at h
            split at h
            · cases h
              exact readHead_written hread
            · cases h

theorem connReadFrame_written {c c' : Conn} {fr : UInt8 × Bytes} (h : c.readFrame = .ok (fr, c')) :
    c'.stream.written = c.stream.written ∧ c'.stream.writeFails = c.stream.writeFails := by
  -- reading does not look at the sending side, so it cannot have changed it
  let x : SendSide := ⟨c.stream.written, c.stream.writeFails, Arr.zero 32, 0⟩
  have hset := readFrame_setConn x c
  rw [show setConn x c = c from rfl, h] at hset
  have hback : c' = setConn x c' := (Prod.mk.inj (Except.ok.inj hset)).2
  rw [hback]
  exact ⟨rfl, rfl⟩

variable {C : Crypto}

theorem consumeEarlyPayload_sealed {h h' : H2} {early : Option Bytes}
    (hr : h.consumeEarlyPayload C = .ok (early, h')) :
    Sealed C h h' [] ∧ SameSession h h' := by
  rw [H2.consumeEarlyPayload] at hr
  split at hr
  · cases hr
  · next hhdr =>
      have hside := readExact_sendSide hhdr
      have hsame := readExact_same hhdr
      split at hr
      · split at hr
        · cases hr
        · next hjson =>
            cases hr
            exact ⟨.of_sendSide ((readExact_sendSide hjson).trans hside),
              hsame.trans (readExact_same hjson)⟩
      · cases hr
        exact ⟨.of_sendSide hside, hsame.next, hsame.authority⟩

/-- The settings we send. -/
def ourSettings : H2.Frame :=
  ⟨ftSettings, 0, 0, [0x00, 0x02, 0x00, 0x00, 0x00, 0x00, 0x00, 0x05] ++ be32 maxFrameSize⟩

/-- The acknowledgement of the server's. -/
def ackFrames (fr : H2.Frame) : List H2.Frame :=
  if fr.flags &&& flAck = 0 then [⟨ftSettings, flAck, 0, []⟩] else []

theorem settingsAck_frames (fr : H2.Frame) :
    (settingsAck fr).flatten = (ackFrames fr).flatMap frameBytes := by
  rw [settingsAck, ackFrames]
  split
  · rfl
  · rfl

theorem start_sealed (hC : C.Lawful) {conn : Conn} {tr : Noise.Transport} {host : Bytes}
    {sv : ServerStream} (hw : conn.stream.writeFails = false)
    (hq : PlainAhead C (H2.new conn tr host) sv.records.flatten) :
    ∃ h, H2.start C conn tr host = .ok (h, sv.early) ∧
      PlainAhead C h (sv.frames.flatMap WireFrame.bytes) ∧
      Sealed C (H2.new conn tr host) h
        (preface ++ (ourSettings :: ackFrames sv.settings.received).flatMap frameBytes) ∧
      SameSession (H2.new conn tr host) h := by
  obtain ⟨h1, cts, hsend, -⟩ := send_sent hC (H2.new conn tr host) hello hw
  obtain ⟨hhello, hsame1⟩ := send_sealed hsend
  obtain ⟨h2, hearly, hq2⟩ := early_then_frames (send_ahead hq hsend)
  obtain ⟨hnone, hsame2⟩ := consumeEarlyPayload_sealed hearly
  have hw2 : h2.conn.stream.writeFails = false :=
    hnone.writable.trans (hhello.writable.trans hw)
  have hstop : (startStep () sv.settings.received).2 = .stop (.ok ()) := by
    rw [startStep, if_pos (show sv.settings.received.typ = ftSettings from sv.settings_typ)]
  have hone : (([] : List WireFrame) ++ [sv.settings]).flatMap WireFrame.bytes ++
      sv.frames.flatMap WireFrame.bytes = (sv.settings :: sv.frames).flatMap WireFrame.bytes := by
    rw [List.nil_append, List.flatMap_singleton, List.flatMap_cons]
  rw [← hone] at hq2
  obtain ⟨h3, hloop, hq3, -⟩ := frameLoop_frames hC hw2 hq2 .nil hstop
  obtain ⟨hack, hsame3⟩ := frameLoop_sealed hq2 .nil hstop hloop
  have hdata : hello ++ [] ++ (sends startStep () (([] ++ [sv.settings]).map
      WireFrame.received)).flatten =
        preface ++ (ourSettings :: ackFrames sv.settings.received).flatMap frameBytes := by
    have hsends : sends startStep () (([] ++ [sv.settings]).map WireFrame.received) =
        settingsAck sv.settings.received := by
      rw [List.nil_append, List.map_singleton, sends, hstop, List.append_nil, startStep,
        if_pos (show sv.settings.received.typ = ftSettings from sv.settings_typ)]
    rw [hsends, settingsAck_frames, List.flatMap_cons, List.append_nil, ← List.append_assoc]
    rfl
  refine ⟨h3, ?_, hq3, ?_, (hsame1.trans hsame2).trans hsame3⟩
  · rw [H2.start, hsend]
    simp only [hearly, hloop]
  · rw [← hdata]
    exact (hhello.trans hnone).trans hack

end Connect

/-! ## The server's side -/

section Server

/-- A frame whose numbers fit their fields. -/
def Fits (fr : H2.Frame) : Prop := fr.payload.length < 2 ^ 24 ∧ fr.streamId.toNat < 2 ^ 31

theorem streamId_mask {streamId : UInt32} (h : streamId.toNat < 2 ^ 31) :
    streamId &&& 0x7fffffff = streamId := by
  apply UInt32.toNat_inj.mp
  rw [UInt32.toNat_and]
  show streamId.toNat &&& (2 ^ 31 - 1) = _
  rw [Nat.and_two_pow_sub_one_eq_mod, Nat.mod_eq_of_lt h]

/-- Frames that fit are read as they are written. -/
theorem frames_wire (frs : List H2.Frame) (h : ∀ fr ∈ frs, Fits fr) :
    ∃ ws : List WireFrame, ws.flatMap WireFrame.bytes = frs.flatMap frameBytes ∧
      ws.map WireFrame.received = frs := by
  induction frs with
  | nil => exact ⟨[], rfl, rfl⟩
  | cons fr frs ih =>
      obtain ⟨ws, hbytes, hframes⟩ := ih fun x hx => h x (List.mem_cons_of_mem fr hx)
      obtain ⟨hlen, hid⟩ := h fr List.mem_cons_self
      refine ⟨⟨fr.typ, fr.flags, fr.streamId &&& 0x7fffffff, fr.payload, hlen⟩ :: ws, ?_, ?_⟩
      · rw [List.flatMap_cons, List.flatMap_cons, hbytes]
        rfl
      · rw [List.map_cons, hframes, WireFrame.received]
        simp only [streamId_mask hid]

theorem answers_fits {streamId : UInt32} (hid : streamId.toNat < 2 ^ 31) (fr : H2.Frame) :
    ∀ a ∈ answers streamId fr, Fits a := by
  have hzero : (0 : UInt32).toNat < 2 ^ 31 := by decide
  have hlen : ∀ n : UInt32, (be32 n).length < 2 ^ 24 := fun n => by
    rw [length_be32]
    decide
  intro a ha
  rw [answers] at ha
  split at ha
  · rcases List.mem_cons.mp ha with rfl | ha
    · exact ⟨hlen _, hid⟩
    · rw [List.mem_singleton.mp ha]
      exact ⟨hlen _, hzero⟩
  · split at ha
    · rw [List.mem_singleton.mp ha]
      exact ⟨by decide, hzero⟩
    · cases ha

/-- A request that fits into a frame of headers and one of data. -/
def Exchange.Fits (authority : Bytes) (x : Exchange) : Prop :=
  (postHeaders authority x.path x.body).length < 2 ^ 24 ∧ x.body.length < 2 ^ 24

theorem sentFrames_fits {authority : Bytes} {xs : List Exchange} {streamId : UInt32}
    (hxs : ∀ x ∈ xs, x.Fits authority) (hid : streamId.toNat + 2 * xs.length ≤ 2 ^ 31) :
    ∀ fr ∈ sentFrames authority streamId xs, Fits fr := by
  induction xs generalizing streamId with
  | nil => exact fun fr hfr => absurd hfr List.not_mem_nil
  | cons x xs ih =>
      rw [List.length_cons] at hid
      have hlt : streamId.toNat < 2 ^ 31 := by omega
      have hnext : (streamId + 2).toNat = streamId.toNat + 2 := by
        rw [UInt32.toNat_add]
        exact Nat.mod_eq_of_lt (by show streamId.toNat + 2 < 2 ^ 32; omega)
      obtain ⟨hheaders, hbody⟩ := hxs x List.mem_cons_self
      intro fr hfr
      rw [sentFrames, Exchange.sent] at hfr
      rcases List.mem_append.mp hfr with hfr | hfr
      · rcases List.mem_append.mp hfr with hfr | hfr
        · rcases List.mem_cons.mp hfr with rfl | hfr
          · exact ⟨hheaders, hlt⟩
          · rw [List.mem_singleton.mp hfr]
            exact ⟨hbody, hlt⟩
        · obtain ⟨fr', -, hans⟩ := List.mem_flatMap.mp hfr
          exact answers_fits hlt fr' fr hans
      · exact ih (fun y hy => hxs y (List.mem_cons_of_mem x hy)) (by omega) fr hfr

/-- The fields of a request. -/
def requestFields (authority path body : Bytes) : List (Bytes × Bytes) :=
  [(ascii ":method", ascii "POST"), (ascii ":scheme", ascii "http"),
    (ascii ":authority", authority), (ascii ":path", path),
    (ascii "content-type", ascii "application/json"),
    (ascii "content-length", ascii (toString body.length)),
    (ascii "accept", ascii "application/json")]

theorem postHeaders_fields (authority path body : Bytes) :
    decodeBlock (postHeaders authority path body) = some (requestFields authority path body) := by
  have hblock : postHeaders authority path body =
      (requestFields authority path body).flatMap fun f => encHeader f.1 f.2 := by
    simp only [postHeaders, requestFields, List.flatMap_cons, List.flatMap_nil, List.append_nil,
      List.append_assoc]
  rw [decodeBlock, hblock, decodeReps_encHeaders]
  rfl

/-- A server with the other end of the keys, to which these bytes come. -/
structure Listens (send : Key) (bytes : Bytes) (peer : H2) : Prop where
  key : peer.tr.recv = send
  nonce : peer.tr.rxNonce = 0
  chunked : Chunked peer.conn.stream
  bytes : peer.conn.stream.incoming.flatten = bytes
  unread : peer.conn.rx = [] ∧ peer.rx = []

theorem Listens.ahead {C : Crypto} (hC : C.Lawful) {send : Key} {pts : List Bytes} {peer : H2}
    (h : Listens send (sealedFrom C send 0 pts) peer) (hle : ∀ pt ∈ pts, pt.length ≤ 2048) :
    PlainAhead C peer pts.flatten := by
  have hconn : ConnAhead peer.conn (sealedFrom C peer.tr.recv peer.tr.rxNonce pts) := by
    refine ⟨peer.conn.stream.incoming.flatten, delivers_incoming (by decide) h.chunked, ?_⟩
    rw [h.unread.1, List.nil_append, h.bytes, h.key, h.nonce]
  refine ⟨pts.flatten, delivers_records hC (fun pt hpt => ?_) hconn, ?_⟩
  · have := hle pt hpt
    rw [maxPlaintext]
    omega
  · rw [h.unread.2, List.nil_append]

end Server

/-! ## The whole session -/

/-- A client and a server that finish the handshake, over TCP that cuts the
streams as it likes, and any requests. Each is answered with the status and
the body of the server's response on its stream. The client has written the
upgrade, and then what a server that listens under the same key reads as the
preface and, frame by frame, the settings, the requests on streams 1, 3, 5, …
and what the server's frames called for; and from the headers of a request
the fields are read back. -/
theorem control_session (C : Crypto) (hC : C.Lawful) (host init : Bytes)
    (complete : Bytes → Except String Noise.Transport) (send recv : Key) (sv : ServerStream)
    (hfirst : sv.firstTyp = msgResponse)
    (hcomplete : complete sv.firstPayload = .ok (Noise.Transport.new send recv))
    (hreason : ¬Blank sv.head.reason) (s : ByteStream) (hs : Chunked s)
    (hw : s.writeFails = false) (hbytes : s.incoming.flatten = sv.bytes C recv)
    (xs : List Exchange) (hframes : sv.frames = xs.flatMap Exchange.wire) (hxs : Streams 1 xs)
    (hfits : ∀ x ∈ xs, x.Fits host) (hcount : xs.length < 2 ^ 30) :
    ∃ h₀ h rest,
      connect C host (.ok (init, complete)) (.ok s) = .ok h₀ ∧
      postAll C h₀ (xs.map fun x => (x.path, x.body)) = .ok (replies 1 xs, h) ∧
      h.conn.stream.written =
        s.written ++ upgradeRequest host (base64Std (framedInitiation init)) ++ rest ∧
      (∀ peer, Listens send rest peer →
        let sent := ourSettings :: ackFrames sv.settings.received ++ sentFrames host 1 xs
        ∃ p₁ p₂, peer.readExact C preface.length = .ok (preface, p₁) ∧
          p₁.readFrames C sent.length = .ok (sent, p₂) ∧ p₂.rx = []) ∧
      ∀ x ∈ xs, decodeBlock (postHeaders host x.path x.body) =
        some (requestFields host x.path x.body) := by
  obtain ⟨conn, hup, hahead⟩ := connectAndUpgrade_ahead host
    (base64Std (framedInitiation init)) hw hs hbytes hreason
  obtain ⟨hwritten, hfails⟩ := connectAndUpgrade_written hup
  obtain ⟨conn1, hframe, hahead1⟩ := readFrame_ahead hahead sv.first_lt
  obtain ⟨hwritten1, hfails1⟩ := connReadFrame_written hframe
  have hplain : PlainAhead C (H2.new conn1 (Noise.Transport.new send recv) host)
      sv.records.flatten :=
    ⟨sv.records.flatten, delivers_records hC sv.records_le hahead1, rfl⟩
  obtain ⟨h₀, hstart, hq, hsealed, hsame⟩ := start_sealed hC
    (hfails1.trans (hfails.trans hw)) hplain
  have hnext : h₀.nextStream = 1 := hsame.next
  have hauth : h₀.authority = host := hsame.authority
  rw [hframes, ← List.append_nil (List.flatMap _ _)] at hq
  obtain ⟨h, hall, -, hrequests⟩ := postAll_sealed hC (hnext ▸ hxs)
    (hsealed.writable.trans (hfails1.trans (hfails.trans hw))) hq
  rw [hnext, hauth] at hrequests
  rw [hnext] at hall
  have hconnect : connect C host (.ok (init, complete)) (.ok s) = .ok h₀ := by
    simp only [connect, Control.handshake, hup, hframe, hcomplete, if_pos hfirst, hstart]
  obtain ⟨⟨pts, hflat, hle, htx, -⟩, -, -⟩ := hsealed.trans hrequests
  refine ⟨h₀, h, sealedFrom C send 0 pts, hconnect, hall, ?_, ?_, ?_⟩
  · rw [htx]
    show conn1.stream.written ++ _ = _
    rw [hwritten1, hwritten]
    rfl
  · intro peer hpeer sent
    have hsent : ∀ fr ∈ sent, Fits fr := by
      intro fr hfr
      rcases List.mem_append.mp hfr with hfr | hfr
      · rcases List.mem_cons.mp hfr with rfl | hfr
        · exact ⟨by decide, by decide⟩
        · rw [ackFrames] at hfr
          split at hfr
          · rw [List.mem_singleton.mp hfr]
            exact ⟨by decide, by decide⟩
          · cases hfr
      · exact sentFrames_fits hfits (by show 1 + _ ≤ _; omega) fr hfr
    obtain ⟨ws, hws, hreceived⟩ := frames_wire sent hsent
    have hq := hpeer.ahead hC hle
    have hdata : pts.flatten = preface ++ (ws.flatMap WireFrame.bytes ++ []) := by
      rw [hflat, hws, List.append_nil, List.append_assoc, ← List.flatMap_append]
    rw [hdata] at hq
    obtain ⟨p₁, hpre, hq1⟩ := readExact_ahead hq
    obtain ⟨p₂, hread, hq2⟩ := readFrames_ahead hq1
    refine ⟨p₁, p₂, hpre, ?_, hq2.buffer_nil⟩
    rw [← hreceived, List.length_map]
    exact hread
  · exact fun x _ => postHeaders_fields host x.path x.body

/-! Two requests. The server also has a word on the connection's flow, sends
the first answer in two pieces and gives the second a length in front. -/

private def status200 : WireFrame :=
  ⟨ftHeaders, flEndHeaders, 1,
    encHeader (ascii ":status") (ascii "200") ++ encHeader (ascii "server") (ascii "control"),
    by decide⟩

private def connectionCredit : WireFrame := ⟨ftWindowUpdate, 0, 0, be32 32768, by decide⟩

private def firstPiece : WireFrame := ⟨ftData, 0, 1, ascii "\x7b\"a\":", by decide⟩

private def lastPiece : WireFrame := ⟨ftData, flEndStream, 1, ascii "1\x7d", by decide⟩

private def status404 : WireFrame :=
  ⟨ftHeaders, flEndHeaders, 3, encHeader (ascii ":status") (ascii "404"), by decide⟩

private def prefixedData : WireFrame :=
  ⟨ftData, flEndStream, 3, [2, 0, 0, 0] ++ ascii "\x7b\x7d", by decide⟩

private def registration : Exchange :=
  ⟨ascii "/machine/register", ascii "\x7b\x7d",
    [status200, connectionCredit, firstPiece, emptySettings], lastPiece⟩

private def mapRequest : Exchange := ⟨ascii "/machine/map", [1], [status404], prefixedData⟩

private def answersBytes : Bytes :=
  (emptySettings :: [registration, mapRequest].flatMap Exchange.wire).flatMap WireFrame.bytes

private def twoAnswers : ServerStream :=
  { politeServer with
    frames := [registration, mapRequest].flatMap Exchange.wire
    records := [answersBytes.take 60, answersBytes.drop 60]
    records_le := by decide +kernel
    records_eq := by decide +kernel }

private theorem twoAnswers_on : Streams 1 [registration, mapRequest] :=
  ⟨⟨by decide, by decide, by decide⟩, ⟨by decide, by decide, by decide⟩, trivial⟩

theorem control_session_twice :
    ∃ h₀ h, connect transparent (ascii "control") (.ok ([], fun _ => .ok (Noise.Transport.new
        (Arr.zero 32) (Arr.zero 32)))) (.ok (arriving twoAnswers)) = .ok h₀ ∧
      postAll transparent h₀ [(ascii "/machine/register", ascii "\x7b\x7d"),
          (ascii "/machine/map", [1])] =
        .ok ([(200, ascii "\x7b\"a\":1\x7d"), (404, ascii "\x7b\x7d")], h) := by
  obtain ⟨h₀, h, -, hconnect, hall, -⟩ := control_session transparent transparent_lawful
    (ascii "control") [] (fun _ => .ok (Noise.Transport.new (Arr.zero 32) (Arr.zero 32)))
    (Arr.zero 32) (Arr.zero 32) twoAnswers rfl rfl (by decide +kernel) (arriving twoAnswers)
    (by unfold Chunked; decide +kernel) rfl (by decide +kernel) [registration, mapRequest] rfl
    twoAnswers_on (by unfold Exchange.Fits; decide +kernel) (by decide)
  refine ⟨h₀, h, hconnect, hall.trans ?_⟩
  have hreplies : replies 1 [registration, mapRequest] =
      [(200, ascii "\x7b\"a\":1\x7d"), (404, ascii "\x7b\x7d")] := by decide +kernel
  rw [hreplies]

end TailscaleRust.Proofs.ControlRequests
