import TailscaleRust.Proofs.DerpLogin

/-!
# A session of the relay is its frames

`serve` reads frames off a connection that delivers bytes as it likes, and
answers into the same connection. `served` is the session without one: what
the frames of a list do to the state, and the packets and targets they make
us send. The two agree. Under any schedule, one that fails in the middle
included, the frames `serve` has handled are the first ones the relay sent,
unaltered and in order; under one that does not fail they are all of them,
and what has been written is the packets of `served` as frames, in order.

That frames are not mixed up rests on there being one way to cut a stream
into frames, and at most one place where a response head ends.
-/

namespace TailscaleRust.Proofs.DerpSession

open TailscaleRust.Lib TailscaleRust.Core TailscaleRust.Firmware TailscaleRust.Firmware.DerpConn
open TailscaleRust.Firmware.Dataplane TailscaleRust.Firmware.Derp
open TailscaleRust.Proofs.DerpFraming TailscaleRust.Proofs.DerpLogin

/-! ## The session without a connection -/

section Served

variable (C : Crypto) (F : Features) (id : Identity) (upgrade : Option Upgrade)

def served : ServeState → List RelayFrame → ServeState × Sends
  | st, [] => (st, Sends.none)
  | st, f :: fs =>
      let (st, sends) := serveFrame C F f.env id upgrade st f.typ f.payload
      let (st, rest) := served st fs
      (st, ⟨sends.packets ++ rest.packets, sends.targets ++ rest.targets⟩)

end Served

/-- Frames with the draws of their handling, the first one numbered `n`. -/
def withDraws (draws : Nat → FrameDraws) (n : Nat) : List DerpConn.Frame → List RelayFrame
  | [] => []
  | f :: fs => ⟨f.1, f.2, draws n⟩ :: withDraws draws (n + 1) fs

/-- The frame that carries a packet to the relay. -/
def packetFrame (p : Packet) : DerpConn.Frame := (frameSendPacket, p.dst.1 ++ p.bytes)

def packetBytes (pkts : List Packet) : Bytes := pkts.flatMap fun p => frameBytes (packetFrame p)

/-- A stream that ends inside a frame, or before one. -/
def CutOff (tail : Bytes) : Prop :=
  ∃ f : DerpConn.Frame, f.2.length ≤ maxFrame ∧ tail <+: frameBytes f ∧ tail ≠ frameBytes f

/-! ## One way to cut a stream -/

theorem frameBytes_inj {f g : DerpConn.Frame} {a b : Bytes} (hf : f.2.length ≤ maxFrame)
    (hg : g.2.length ≤ maxFrame) (h : frameBytes f ++ a = frameBytes g ++ b) : f = g ∧ a = b := by
  have hbound : maxFrame < 2 ^ 32 := by decide
  rw [frameBytes, frameBytes, List.append_assoc, List.append_assoc] at h
  obtain ⟨hhdr, hrest⟩ := List.append_inj h
    ((DerpFraming.length_header f).trans (DerpFraming.length_header g).symm)
  have hlen : f.2.length = g.2.length := by
    rw [← declared_length hf, ← declared_length hg, hhdr]
  obtain ⟨hpay, hab⟩ := List.append_inj hrest hlen
  exact ⟨Prod.ext (List.cons.inj hhdr).1 hpay, hab⟩

/-- No frame fits where the stream is cut off. -/
theorem CutOff.no_frame {tail : Bytes} (h : CutOff tail) {f : DerpConn.Frame} {a : Bytes}
    (hf : f.2.length ≤ maxFrame) : tail ≠ frameBytes f ++ a := by
  rintro rfl
  obtain ⟨g, hg, ⟨b, hb⟩, hne⟩ := h
  rw [List.append_assoc, ← List.append_nil (frameBytes g)] at hb
  obtain ⟨rfl, hab⟩ := frameBytes_inj hf hg hb
  rw [(List.append_eq_nil_iff.mp hab).1, List.append_nil] at hne
  exact hne rfl

/-- A stream has one head. -/
theorem upgradeHead_unique {head head' a b : Bytes} (h : UpgradeHead head) (h' : UpgradeHead head')
    (heq : head ++ a = head' ++ b) : head = head' ∧ a = b := by
  have hnot : ∀ {x y u v : Bytes}, UpgradeHead x → UpgradeHead y → x ++ u = y ++ v →
      ¬x.length < y.length := by
    intro x y u v hx hy hxy hlt
    have htake : y.take x.length = x := by
      have := congrArg (List.take x.length) hxy
      rw [List.take_left, List.take_append_of_le_length (by omega)] at this
      exact this.symm
    apply hy.first x.length hlt
    rw [htake]
    exact hx.ends
  have hlen : head.length = head'.length := by
    have h1 := hnot h h' heq
    have h2 := hnot h' h heq.symm
    omega
  exact List.append_inj heq hlen

/-! ## Sends -/

theorem leftByWriteAll_ok {d d' : Derp} {buf : Bytes} {off : Nat}
    (h : writeAll d buf off = .ok d') : leftByWriteAll d buf off = d' := by
  fun_induction writeAll d buf off with
  | case1 d off hoff n d₁ hwrite ih =>
      rw [leftByWriteAll, if_pos hoff]
      split <;> next hwrite' =>
        rw [hwrite] at hwrite'
        cases hwrite' <;> exact ih h
  | case2 d off hoff x d₁ hwrite ih =>
      rw [leftByWriteAll, if_pos hoff]
      split <;> next hwrite' =>
        rw [hwrite] at hwrite'
        cases hwrite' <;> exact ih h
  | case3 => cases h
  | case4 => cases h
  | case5 d off hoff =>
      cases h
      rw [leftByWriteAll, if_neg hoff]

/-- A packet that can be sent is sent. -/
theorem sendAnyway_live {d : Derp} (hd : d.Live) (p : Packet) :
    d.Sent (frameBytes (packetFrame p)) (sendAnyway d p) := by
  obtain ⟨d', hok, hsent⟩ := writeFrame_live hd frameSendPacket (p.dst.1 ++ p.bytes)
  suffices hleft : sendAnyway d p = d' by
    rw [hleft]
    exact hsent
  rw [writeFrame] at hok
  rw [sendAnyway]
  cases hhdr : writeAll d
      (frameSendPacket :: be32 (UInt32.ofNat (p.dst.1 ++ p.bytes).length)) 0 with
  | error e =>
      simp only [hhdr] at hok
      cases hok
  | ok d₁ =>
      simp only [hhdr] at hok ⊢
      split at hok
      · next hne => rw [if_pos hne, leftByWriteAll_ok hok]
      · next hempty =>
          cases hok
          rw [if_neg hempty]

theorem foldl_sendAnyway_live {d : Derp} (hd : d.Live) (pkts : List Packet) :
    d.Sent (packetBytes pkts) (pkts.foldl sendAnyway d) := by
  induction pkts generalizing d with
  | nil => exact ⟨rfl, (List.append_nil d.tx).symm, hd⟩
  | cons p pkts ih =>
      have hfirst := sendAnyway_live hd p
      exact hfirst.trans (ih hfirst.live)

/-! ## The loop -/

section Loop

variable (C : Crypto) (F : Features) (id : Identity) (upgrade : Option Upgrade)
  (draws : Nat → FrameDraws)

/-- The loop has handled exactly these frames. -/
structure Handled (s : RelaySession) (fs : List DerpConn.Frame) (s' : RelaySession) : Prop where
  st : s'.st = (served C F id upgrade s.st (withDraws draws s.count fs)).1
  count : s'.count = s.count + fs.length
  targets : s'.targets =
    s.targets ++ (served C F id upgrade s.st (withDraws draws s.count fs)).2.targets

/-- The session after one frame. -/
def afterFrame (s : RelaySession) (f : DerpConn.Frame) (conn : Derp) : RelaySession :=
  let (st, sends) := serveFrame C F (draws s.count) id upgrade s.st f.1 f.2
  { conn := sends.packets.foldl sendAnyway conn, st := st, count := s.count + 1
    targets := s.targets ++ sends.targets }

variable {C F id upgrade draws}

theorem serve_error {s : RelaySession} {e : String} (h : readFrame s.conn = .error e) :
    serve C F id upgrade draws s = (e, s) := by
  rw [serve]
  split <;> next h' =>
    rw [h] at h'
    cases h' <;> rfl

theorem serve_frame {s : RelaySession} {f : DerpConn.Frame} {conn : Derp}
    (h : readFrame s.conn = .ok (f, conn)) :
    serve C F id upgrade draws s =
      serve C F id upgrade draws (afterFrame C F id upgrade draws s f conn) := by
  rw [serve]
  split <;> next h' =>
    rw [h] at h'
    cases h' <;> rfl

theorem handled_nil (s : RelaySession) : Handled C F id upgrade draws s [] s :=
  ⟨rfl, rfl, (List.append_nil s.targets).symm⟩

/-- One more frame in front. -/
theorem handled_cons {s s' : RelaySession} {f : DerpConn.Frame} {fs : List DerpConn.Frame}
    {conn : Derp}
    (h : Handled C F id upgrade draws (afterFrame C F id upgrade draws s f conn) fs s') :
    Handled C F id upgrade draws s (f :: fs) s' := by
  refine ⟨h.st, ?_, ?_⟩
  · rw [h.count, List.length_cons]
    show s.count + 1 + fs.length = _
    omega
  · rw [h.targets]
    exact List.append_assoc _ _ _

/-- Whatever the schedule does, the frames handled are the first ones. -/
theorem serve_handles_first {fs : List DerpConn.Frame} (hmax : ∀ f ∈ fs, f.2.length ≤ maxFrame)
    {tail : Bytes} (hcut : CutOff tail) {s : RelaySession}
    (hrx : s.conn.rx = fs.flatMap frameBytes ++ tail) :
    ∃ k ≤ fs.length,
      Handled C F id upgrade draws s (fs.take k) (serve C F id upgrade draws s).2 := by
  induction fs generalizing s with
  | nil =>
      refine ⟨0, Nat.le_refl 0, ?_⟩
      cases hread : readFrame s.conn with
      | error e =>
          rw [serve_error hread]
          exact handled_nil s
      | ok r =>
          obtain ⟨hgave, hle⟩ := readFrame_gave hread
          rw [hgave.rx, List.flatMap_nil, List.nil_append] at hrx
          exact absurd hrx.symm (hcut.no_frame hle)
  | cons f fs ih =>
      cases hread : readFrame s.conn with
      | error e =>
          refine ⟨0, Nat.zero_le _, ?_⟩
          rw [serve_error hread]
          exact handled_nil s
      | ok r =>
          obtain ⟨hgave, hle⟩ := readFrame_gave hread
          rw [hgave.rx, List.flatMap_cons, List.append_assoc] at hrx
          obtain ⟨hfirst, hrest⟩ := frameBytes_inj hle (hmax f List.mem_cons_self) hrx
          have hrx' : (afterFrame C F id upgrade draws s r.1 r.2).conn.rx =
              fs.flatMap frameBytes ++ tail := by
            rw [← hrest]
            exact foldl_sendAnyway_rx r.2 _
          obtain ⟨k, hk, hhandled⟩ :=
            ih (fun g hg => hmax g (List.mem_cons_of_mem f hg)) hrx'
          refine ⟨k + 1, Nat.succ_le_succ hk, ?_⟩
          rw [serve_frame hread, List.take_succ_cons, ← hfirst]
          exact handled_cons hhandled

/-- On a live connection all of them are, and answered. -/
theorem serve_live {fs : List DerpConn.Frame} (hmax : ∀ f ∈ fs, f.2.length ≤ maxFrame)
    {tail : Bytes} (hcut : CutOff tail) {s : RelaySession} (hlive : s.conn.Live)
    (hrx : s.conn.rx = fs.flatMap frameBytes ++ tail) :
    ∃ s', serve C F id upgrade draws s = ("DERP connection closed", s') ∧
      Handled C F id upgrade draws s fs s' ∧
      s'.conn.tx = s.conn.tx ++
        packetBytes (served C F id upgrade s.st (withDraws draws s.count fs)).2.packets := by
  induction fs generalizing s with
  | nil =>
      rw [List.flatMap_nil, List.nil_append] at hrx
      obtain ⟨f, hf, hpre, hne⟩ := hcut
      rw [← hrx] at hpre hne
      refine ⟨s, serve_error (readFrame_closed hlive hf hpre hne), handled_nil s, ?_⟩
      exact (List.append_nil s.conn.tx).symm
  | cons f fs ih =>
      rw [List.flatMap_cons, List.append_assoc] at hrx
      obtain ⟨conn, hread, htook⟩ := readFrame_live hlive (hmax f List.mem_cons_self) hrx
      have hsent := foldl_sendAnyway_live htook.live
        (serveFrame C F (draws s.count) id upgrade s.st f.1 f.2).2.packets
      have hrx' : (afterFrame C F id upgrade draws s f conn).conn.rx =
          fs.flatMap frameBytes ++ tail :=
        hsent.rx.trans (List.append_cancel_left (htook.rx.symm.trans hrx))
      obtain ⟨s', hserve, hhandled, htx⟩ :=
        ih (fun g hg => hmax g (List.mem_cons_of_mem f hg)) hsent.live hrx'
      refine ⟨s', (serve_frame hread).trans hserve, handled_cons hhandled, ?_⟩
      have hconn : (afterFrame C F id upgrade draws s f conn).conn.tx = s.conn.tx ++
          packetBytes (serveFrame C F (draws s.count) id upgrade s.st f.1 f.2).2.packets :=
        hsent.tx.trans (by rw [htook.tx])
      rw [htx, hconn, List.append_assoc]
      show _ ++ (packetBytes _ ++ packetBytes _) = _ ++ packetBytes (_ ++ _)
      rw [packetBytes, packetBytes, packetBytes, List.flatMap_append]
      rfl

end Loop

/-! ## From the login to the close -/

/-- What a relay sends in a session: a head, its key, frames, and a last one
that it does not finish. -/
structure RelayStream where
  head : Bytes
  key : Key
  more : Bytes
  frames : List DerpConn.Frame
  tail : Bytes
  head_ok : UpgradeHead head
  more_le : magic.length + 32 + more.length ≤ maxFrame
  frames_le : ∀ f ∈ frames, f.2.length ≤ maxFrame
  tail_cut : CutOff tail

def RelayStream.bytes (r : RelayStream) : Bytes :=
  r.head ++ (frameBytes (serverKeyFrame r.key r.more) ++ (r.frames.flatMap frameBytes ++ r.tail))

/-- What `serve` is started with. -/
def RelaySession.start (conn : Derp) : RelaySession :=
  { conn := conn, st := ServeState.empty, count := 0, targets := [] }

theorem keyFrame_le {key : Key} {more : Bytes}
    (h : magic.length + 32 + more.length ≤ maxFrame) :
    (serverKeyFrame key more).2.length ≤ maxFrame := by
  rw [serverKeyFrame, List.length_append, List.length_append, key.2]
  exact h

section Run

variable (C : Crypto) (F : Features) (id : Identity) (upgrade : Option Upgrade) (host : Bytes)
  (a : Attempt) (r : RelayStream)

theorem runOnce_connected {conn : Derp}
    (h : connect C a.tls host id.nodePriv id.nodePub a.nonce = .ok conn) :
    runOnce C F id upgrade host a =
      .ok (serve C F id upgrade a.draws (RelaySession.start conn)) := by
  rw [runOnce, h]
  rfl

/-- A session over any connection, also one that fails at any call: if the
login succeeds, the frames that are handled are the first ones of the relay. -/
theorem session_handles_first (d : Derp) (htls : a.tls = .ok d) (hrx : d.rx = r.bytes)
    (e : String) (s : RelaySession) (h : runOnce C F id upgrade host a = .ok (e, s)) :
    ∃ k ≤ r.frames.length,
      Handled C F id upgrade a.draws (RelaySession.start d) (r.frames.take k) s := by
  rw [runOnce, htls] at h
  split at h
  · cases h
  · next conn hconn =>
      obtain ⟨head, key, more, ct, hhead, hmax, hsplit, -, -⟩ := connect_gave hconn
      rw [hrx, RelayStream.bytes] at hsplit
      obtain ⟨-, hframes⟩ := upgradeHead_unique r.head_ok hhead hsplit
      obtain ⟨-, hrest⟩ := frameBytes_inj (keyFrame_le r.more_le) (keyFrame_le hmax) hframes
      obtain ⟨k, hk, hhandled⟩ := serve_handles_first (C := C) (F := F) r.frames_le r.tail_cut
        (s := RelaySession.start conn) hrest.symm
      have hs : (serve C F id upgrade a.draws (RelaySession.start conn)).2 = s :=
        congrArg Prod.snd (Except.ok.inj h)
      rw [hs] at hhandled
      exact ⟨k, hk, hhandled.st, hhandled.count, hhandled.targets⟩

/-- A session over a connection that does not fail, from the login to the
close: every frame of the relay is handled, and what has been written is the
login and the packets of the frames. -/
theorem session_answers_all (d : Derp) (htls : a.tls = .ok d) (hlive : d.Live)
    (hrx : d.rx = r.bytes) (ct : Bytes)
    (hseal : C.boxSeal id.nodePriv r.key a.nonce clientInfoJson = some ct) :
    ∃ s, runOnce C F id upgrade host a = .ok ("DERP connection closed", s) ∧
      Handled C F id upgrade a.draws (RelaySession.start d) r.frames s ∧
      s.conn.tx = d.tx ++ upgradeRequest host ++
        frameBytes (clientInfoFrame id.nodePub a.nonce ct) ++
        packetBytes (served C F id upgrade ServeState.empty
          (withDraws a.draws 0 r.frames)).2.packets := by
  obtain ⟨conn, hok, hrest, hlive', htx⟩ := connect_live hlive host r.head_ok id.nodePriv
    id.nodePub r.key a.nonce r.more hseal r.more_le hrx
  obtain ⟨s, hserve, hhandled, htx'⟩ := serve_live (C := C) (F := F) r.frames_le r.tail_cut
    (s := RelaySession.start conn) hlive' hrest
  refine ⟨s, ?_, ⟨hhandled.st, hhandled.count, hhandled.targets⟩, ?_⟩
  · rw [runOnce_connected C F id upgrade host a (htls ▸ hok)]
    exact congrArg Except.ok hserve
  · rw [htx']
    show conn.tx ++ _ = _
    rw [htx]
    rfl

end Run

section Example

private def peerInitiation : Bytes :=
  (Wg.buildInitiation transparent (byteKey 5) (byteKey 5) (byteKey 3) (Wg.tai64n 9 0) 77
    (byteKey 7)).1.1

/-- A ping of the relay, a peer's initiation, a packet of nobody's, and three
bytes of another frame. -/
private def shortRelay : RelayStream where
  head := ascii "HTTP/1.1 101 S\r\n\r\n"
  key := transparent.x25519Public (byteKey 9)
  more := [1]
  frames := [(6, []), (frameRecvPacket, (byteKey 5).1 ++ peerInitiation),
    (frameRecvPacket, (byteKey 8).1 ++ [9])]
  tail := [5, 0, 0]
  head_ok := ⟨by decide, by decide, by decide, by decide⟩
  more_le := by decide
  frames_le := by decide +kernel
  tail_cut := ⟨(5, []), by decide, by decide, by decide⟩

private def member : Identity := ⟨byteKey 2, byteKey 2, byteKey 3, byteKey 3, none⟩

private def attemptOver (d : Derp) : Attempt where
  tls := .ok d
  nonce := ⟨List.replicate 24 9, rfl⟩
  draws n := ⟨UInt32.ofNat n, byteKey 11, Arr.zero 24, Arr.zero 24, 0⟩

private def crawl : Derp :=
  { rx := shortRelay.bytes, tx := [], turns := fun _ => ⟨[.write, .read], .moves 0⟩ }

private theorem crawl_live : crawl.Live := fun _ => ⟨0, rfl⟩

private def crawlAttempt : Attempt := attemptOver crawl

/-! It moves what it is given at once, and breaks within the initiation. -/

private def breaking : Derp :=
  { rx := shortRelay.bytes, tx := []
    turns := fun i => ⟨[], if i < 25 then .moves 4096 else .fails (-76)⟩ }

private def breakingAttempt : Attempt := attemptOver breaking

/-- A buffer that the next call takes whole. -/
private theorem writeAll_whole {d : Derp} {buf : Bytes} {k : Nat}
    (hturn : d.turns 0 = ⟨[], .moves k⟩) (hpos : 0 < buf.length) (hle : buf.length ≤ k + 1) :
    writeAll d buf 0 =
      .ok { d with tx := d.tx ++ buf, turns := fun i => d.turns (i + 1) } := by
  have hwrite : d.write (buf.drop 0) =
      (.moved buf.length, { d with tx := d.tx ++ buf, turns := fun i => d.turns (i + 1) }) := by
    simp only [Wire.write, Wire.call, Wire.wants, hturn, Wire.writeUpTo, List.drop_zero,
      Nat.min_eq_right hle, if_neg (Nat.ne_of_gt hpos), List.take_length]
  rw [writeAll, if_pos hpos]
  split <;> next h =>
    rw [hwrite] at h
    cases h <;> rw [writeAll, if_neg (by omega)]

private def requested : Derp :=
  { breaking with
    tx := upgradeRequest (ascii "derp"), turns := fun i => breaking.turns (i + 1) }

/-- The connection after what a read of it returned. -/
private def restOf {α : Type} (r : Except String (α × Derp)) : Derp :=
  match r with
  | .ok (_, d) => d
  | .error _ => breaking

private theorem of_readOk {α : Type} {r : Except String (α × Derp)} {a : α}
    (h : r.toOption.map Prod.fst = some a) : r = .ok (a, restOf r) := by
  cases r with
  | error e => cases h
  | ok x => exact congrArg Except.ok (Prod.ext (Option.some.inj h) rfl)

private def upgraded : Derp := restOf (readHead requested [])

private def keyed : Derp := restOf (readServerKey upgraded)

private def clientInfo : Bytes :=
  (byteKey 3).1 ++ breakingAttempt.nonce.1 ++
    (transparent.boxSeal (byteKey 3) (byteKey 9) breakingAttempt.nonce clientInfoJson).getD []

private def headed : Derp :=
  { keyed with
    tx := keyed.tx ++ frameClientInfo :: be32 (UInt32.ofNat clientInfo.length)
    turns := fun i => keyed.turns (i + 1) }

private def loggedIn : Derp :=
  { headed with tx := headed.tx ++ clientInfo, turns := fun i => headed.turns (i + 1) }

private theorem breaking_login :
    connect transparent breakingAttempt.tls (ascii "derp") (byteKey 3) (byteKey 3)
      breakingAttempt.nonce = .ok loggedIn := by
  have hrequest : writeAll breaking (upgradeRequest (ascii "derp")) 0 = .ok requested :=
    writeAll_whole (k := 4096) rfl (by decide) (by decide)
  have hhead : readHead requested [] = .ok (shortRelay.head, upgraded) :=
    of_readOk (by decide +kernel)
  have hswitch : contains (firstLine (lossy shortRelay.head)) switching = true := by decide
  have hkey : readServerKey upgraded = .ok (byteKey 9, keyed) := of_readOk (by decide +kernel)
  have hheader : writeAll keyed (frameClientInfo :: be32 (UInt32.ofNat clientInfo.length)) 0 =
      .ok headed :=
    writeAll_whole (k := 4096) (by decide +kernel) (by decide +kernel) (by decide +kernel)
  have hpayload : writeAll headed clientInfo 0 = .ok loggedIn :=
    writeAll_whole (k := 4096) (by decide +kernel) (by decide +kernel) (by decide +kernel)
  have hinfo : writeFrame keyed frameClientInfo clientInfo = .ok loggedIn := by
    simp only [writeFrame, hheader, if_pos (show clientInfo ≠ [] by decide +kernel), hpayload]
  show connect transparent (.ok breaking) _ _ _ _ = _
  simp only [connect, httpUpgrade, hrequest, hhead, hswitch, if_true, hkey, sendClientInfo]
  exact hinfo

theorem session_handles_first_broken :
    ∃ s, runOnce transparent defaultFeatures member none (ascii "derp") breakingAttempt =
        .ok ("esp_tls_conn_read error -76", s) ∧ s.count = 1 ∧
      Handled transparent defaultFeatures member none breakingAttempt.draws
        (RelaySession.start breaking) (shortRelay.frames.take 1) s := by
  have hrun := runOnce_connected transparent defaultFeatures member none (ascii "derp")
    breakingAttempt breaking_login
  have hend : (serve transparent defaultFeatures member none breakingAttempt.draws
      (RelaySession.start loggedIn)).1 = "esp_tls_conn_read error -76" := by decide +kernel
  have hcount : (serve transparent defaultFeatures member none breakingAttempt.draws
      (RelaySession.start loggedIn)).2.count = 1 := by decide +kernel
  obtain ⟨k, hk, hhandled⟩ := session_handles_first transparent defaultFeatures member none
    (ascii "derp") breakingAttempt shortRelay breaking rfl rfl _ _ hrun
  have hone : k = 1 := by
    have htaken := hhandled.count.symm.trans hcount
    rw [List.length_take, Nat.min_eq_left hk] at htaken
    exact (Nat.zero_add k).symm.trans htaken
  rw [hone] at hhandled
  exact ⟨_, hrun.trans (congrArg Except.ok (Prod.ext hend rfl)), hcount, hhandled⟩

/-- All frames are handled, and the peer's initiation is answered. -/
theorem session_answers_all_crawl :
    ∃ s ct resp, runOnce transparent defaultFeatures member none (ascii "derp") crawlAttempt =
        .ok ("DERP connection closed", s) ∧ s.count = 3 ∧ resp.length = 92 ∧
      s.conn.tx = upgradeRequest (ascii "derp") ++
        frameBytes (clientInfoFrame (byteKey 3) crawlAttempt.nonce ct) ++
        frameBytes (frameSendPacket, (byteKey 5).1 ++ resp) := by
  obtain ⟨s, hrun, hhandled, htx⟩ := session_answers_all transparent defaultFeatures member none
    (ascii "derp") crawlAttempt shortRelay crawl rfl crawl_live rfl _ rfl
  have hone : (served transparent defaultFeatures member none ServeState.empty
      (withDraws crawlAttempt.draws 0 shortRelay.frames)).2.packets.map
        (fun p => (p.dst, p.bytes.length)) = [(byteKey 5, 92)] := by decide +kernel
  obtain ⟨p, hpkts, hp⟩ := List.map_eq_singleton_iff.mp hone
  obtain ⟨hdst, hlen⟩ := Prod.mk.inj hp
  rw [hpkts, packetBytes, List.flatMap_singleton, packetFrame, hdst] at htx
  exact ⟨s, _, p.bytes, hrun, hhandled.count, hlen, htx⟩

end Example

end TailscaleRust.Proofs.DerpSession
