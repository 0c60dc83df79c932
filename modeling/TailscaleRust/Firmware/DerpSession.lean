import TailscaleRust.Firmware.Derp
import TailscaleRust.Firmware.DerpConn

/-!
# A session with the relay (`src/derp.rs`)

The login of `Derp::connect`, the loop of `serve` over a connection and the
reconnecting loop of `run`. Opening the TLS connection is a parameter, as it
may fail. What `context` adds to an error is left out, and so are log lines
and the pause between two sessions.

`serve` ends when a frame cannot be read. It does so for every connection,
because a frame takes its header off what there is to read and sending takes
nothing; the lemmas that say so stand before it, since its recursion rests on
them.
-/

namespace TailscaleRust.Firmware.DerpConn

open TailscaleRust.Lib TailscaleRust.Core

/-! ## The login -/

def frameServerKey : UInt8 := 0x01
def frameClientInfo : UInt8 := 0x02

/-- `DERP` and the four bytes of a key emoji. -/
def magic : Bytes := [0x44, 0x45, 0x52, 0x50, 0xf0, 0x9f, 0x94, 0x91]

def readServerKey (d : Derp) : Except String (Key × Derp) :=
  match readFrame d with
  | .error e => .error e
  | .ok ((typ, payload), d) =>
      if typ ≠ frameServerKey then .error s!"expected server key frame, got type {typ}"
      else if payload.length < magic.length + 32 ∨ payload.take magic.length ≠ magic then
        .error s!"bad server key frame ({payload.length} bytes)"
      else .ok (arrAt payload magic.length 32, d)

def clientInfoJson : Bytes := ascii "\x7b\"version\":2\x7d"

/-- `nonce` is what `fill_random` draws. -/
def sendClientInfo (C : Crypto) (d : Derp) (nodePriv nodePub serverPub : Key) (nonce : Arr 24) :
    Except String Derp :=
  match C.boxSeal nodePriv serverPub nonce clientInfoJson with
  | none => .error "clientinfo seal"
  | some ct => writeFrame d frameClientInfo (nodePub.1 ++ nonce.1 ++ ct)

/-- `tls` is the outcome of `tls_connect`. -/
def connect (C : Crypto) (tls : Except String Derp) (host : Bytes) (nodePriv nodePub : Key)
    (nonce : Arr 24) : Except String Derp :=
  match tls with
  | .error e => .error e
  | .ok d =>
      match httpUpgrade d host with
      | .error e => .error e
      | .ok d =>
          match readServerKey d with
          | .error e => .error e
          | .ok (serverPub, d) => sendClientInfo C d nodePriv nodePub serverPub nonce

/-! ## Sends whose result is dropped -/

/-- What `write_all` leaves behind, however it ends. -/
def leftByWriteAll (d : Derp) (buf : Bytes) (off : Nat) : Derp :=
  if off < buf.length then
    match _h : d.write (buf.drop off) with
    | (.moved n, d') => leftByWriteAll d' buf (off + n)
    | (.want _, d') => leftByWriteAll d' buf off
    | (.zero, d') => d'
    | (.failed _, d') => d'
  else d
termination_by (buf.length - off, d.wants.length)
decreasing_by
  · have hpos := Wire.write_moved_pos _h
    exact Prod.Lex.left _ _ (by omega)
  · exact Prod.Lex.right _ (Wire.write_want_lt _h)

/-- `let _ = d.send_packet(..)`: a packet that cannot be sent is given up, and
what was written of it stays written. -/
def sendAnyway (d : Derp) (pkt : Derp.Packet) : Derp :=
  let payload := pkt.dst.1 ++ pkt.bytes
  let hdr := frameSendPacket :: be32 (UInt32.ofNat payload.length)
  match writeAll d hdr 0 with
  | .error _ => leftByWriteAll d hdr 0
  | .ok d => if payload ≠ [] then leftByWriteAll d payload 0 else d

/-! ## Every frame is progress -/

theorem readSome_gave {d d' : Derp} {cap : Nat} {b : Bytes} (h : readSome d cap = .ok (b, d')) :
    d.Gave b d' ∧ b.length ≤ cap := by
  -- on the number of times the call is told to try again
  induction hk : d.wants.length using Nat.strongRecOn generalizing d with
  | ind k ih =>
    rw [readSome] at h
    split at h
    · next hread =>
        cases h
        exact Wire.read_gave hread
    · next hread =>
        cases h
        exact Wire.read_gave hread
    · next d₁ hread =>
        have hlt : d₁.wants.length < k := hk ▸ Wire.read_want_lt hread
        obtain ⟨hrest, hle⟩ := ih _ hlt h rfl
        exact ⟨(Wire.read_gave hread).1.trans hrest, hle⟩
    · cases h

/-- The buffer is filled with what came, up to its end. -/
theorem readExact_gave {d d' : Derp} {len : Nat} {buf out : Bytes}
    (h : readExact d len buf = .ok (out, d')) (hle : buf.length ≤ len) :
    ∃ a, out = buf ++ a ∧ out.length = len ∧ d.Gave a d' := by
  induction hk : len - buf.length using Nat.strongRecOn generalizing d buf with
  | ind k ih =>
    rw [readExact] at h
    split at h
    · next hlt =>
        split at h
        · cases h
        · cases h
        · next x b d₁ hsome =>
            obtain ⟨hgave, hcap⟩ := readSome_gave hsome
            have hlen : (buf ++ x :: b).length = buf.length + (b.length + 1) := by
              rw [List.length_append, List.length_cons]
            rw [List.length_cons] at hcap
            obtain ⟨a, hout, hfull, hrest⟩ := ih (len - (buf ++ x :: b).length) (by omega) h
              (by omega) rfl
            exact ⟨x :: b ++ a, by rw [hout, List.append_assoc], hfull, hgave.trans hrest⟩
    · next hge =>
        cases h
        exact ⟨[], (List.append_nil _).symm, by omega, rfl, rfl⟩

theorem readFrame_rx_lt {d d' : Derp} {f : Frame} (h : readFrame d = .ok (f, d')) :
    d'.rx.length < d.rx.length := by
  rw [readFrame] at h
  split at h
  · cases h
  · next hdr d₁ hhdr =>
      obtain ⟨a, hout, hlen, hgave⟩ := readExact_gave hhdr (Nat.zero_le 5)
      rw [List.nil_append] at hout
      have hrx := congrArg List.length hgave.rx
      rw [List.length_append, ← hout, hlen] at hrx
      simp only [] at h
      split at h
      · cases h
      · split at h
        · split at h
          · cases h
          · next hpay =>
              cases h
              obtain ⟨b, -, -, hgave'⟩ := readExact_gave hpay (Nat.zero_le _)
              have hrx' := congrArg List.length hgave'.rx
              rw [List.length_append] at hrx'
              omega
        · cases h
          omega

/-- Whatever is left of a write, the front of the buffer has been accepted. -/
theorem leftByWriteAll_accepted (d : Derp) (buf : Bytes) (off : Nat) :
    ∃ b, b <+: buf.drop off ∧ d.Accepted b (leftByWriteAll d buf off) := by
  fun_induction leftByWriteAll d buf off with
  | case1 d off hoff n d' hwrite ih =>
      obtain ⟨b, ⟨c, hc⟩, hacc⟩ := ih
      obtain ⟨hfirst, -⟩ := Wire.write_accepted hwrite
      refine ⟨(buf.drop off).take n ++ b, ⟨c, ?_⟩, hfirst.trans hacc⟩
      rw [List.append_assoc, hc, ← List.drop_drop, List.take_append_drop]
  | case2 d off hoff x d' hwrite ih =>
      obtain ⟨b, hb, hacc⟩ := ih
      exact ⟨b, hb, (Wire.write_accepted hwrite).1.trans hacc⟩
  | case3 d off hoff d' hwrite =>
      exact ⟨[], List.nil_prefix, (Wire.write_accepted hwrite).1⟩
  | case4 d off hoff code d' hwrite =>
      exact ⟨[], List.nil_prefix, (Wire.write_accepted hwrite).1⟩
  | case5 d off hoff => exact ⟨[], List.nil_prefix, Wire.Accepted.refl d⟩

theorem writeAll_accepted {d d' : Derp} {buf : Bytes} {off : Nat}
    (h : writeAll d buf off = .ok d') : d.Accepted (buf.drop off) d' := by
  fun_induction writeAll d buf off with
  | case1 d off hoff n d₁ hwrite ih =>
      have hsplit : buf.drop off = (buf.drop off).take n ++ buf.drop (off + n) := by
        rw [← List.drop_drop, List.take_append_drop]
      rw [hsplit]
      exact (Wire.write_accepted hwrite).1.trans (ih h)
  | case2 d off hoff x d₁ hwrite ih => exact (Wire.write_accepted hwrite).1.trans (ih h)
  | case3 d off hoff d₁ hwrite => cases h
  | case4 d off hoff code d₁ hwrite => cases h
  | case5 d off hoff =>
      cases h
      rw [List.drop_eq_nil_of_le (Nat.le_of_not_lt hoff)]
      exact Wire.Accepted.refl _

/-- Sending takes nothing of what there is to read. -/
theorem sendAnyway_rx (d : Derp) (pkt : Derp.Packet) : (sendAnyway d pkt).rx = d.rx := by
  simp only [sendAnyway]
  cases hhdr : writeAll d
      (frameSendPacket :: be32 (UInt32.ofNat (pkt.dst.1 ++ pkt.bytes).length)) 0 with
  | error e =>
      obtain ⟨b, -, hacc⟩ := leftByWriteAll_accepted d
        (frameSendPacket :: be32 (UInt32.ofNat (pkt.dst.1 ++ pkt.bytes).length)) 0
      exact hacc.rx
  | ok d₁ =>
      have hrx := (writeAll_accepted hhdr).rx
      simp only []
      split
      · obtain ⟨b, -, hacc⟩ := leftByWriteAll_accepted d₁ (pkt.dst.1 ++ pkt.bytes) 0
        rw [hacc.rx, hrx]
      · exact hrx

theorem foldl_sendAnyway_rx (d : Derp) (pkts : List Derp.Packet) :
    (pkts.foldl sendAnyway d).rx = d.rx := by
  induction pkts generalizing d with
  | nil => rfl
  | cons p pkts ih => rw [List.foldl_cons, ih, sendAnyway_rx]

/-! ## The loop of a session -/

open TailscaleRust.Firmware.Dataplane TailscaleRust.Firmware.Derp

/-- Where a session has got to: the connection, what `serve` keeps, how many
frames have been read, and what was put on the upgrade channel. -/
structure RelaySession where
  conn : Derp
  st : ServeState
  count : Nat
  targets : List Target

section Serve

variable (C : Crypto) (F : Features) (id : Identity) (upgrade : Option Upgrade)
  (draws : Nat → FrameDraws)

/-- The loop of `serve`; it returns with the error of the read that ended it.
The draws are numbered by the frames. -/
def serve (s : RelaySession) : String × RelaySession :=
  match _h : readFrame s.conn with
  | .error e => (e, s)
  | .ok ((typ, payload), conn) =>
      let (st, sends) := serveFrame C F (draws s.count) id upgrade s.st typ payload
      serve { conn := sends.packets.foldl sendAnyway conn, st := st, count := s.count + 1
              targets := s.targets ++ sends.targets }
termination_by s.conn.rx.length
decreasing_by
  rw [foldl_sendAnyway_rx]
  exact readFrame_rx_lt _h

/-- What an attempt to connect finds: the outcome of `tls_connect`, the nonce
of the login and the draws of the frames. -/
structure Attempt where
  tls : Except String Derp
  nonce : Arr 24
  draws : Nat → FrameDraws

end Serve

/-- One turn of `run`: connect and serve from nothing until a read fails. -/
def runOnce (C : Crypto) (F : Features) (id : Identity) (upgrade : Option Upgrade) (host : Bytes)
    (a : Attempt) : Except String (String × RelaySession) :=
  match connect C a.tls host id.nodePriv id.nodePub a.nonce with
  | .error e => .error e
  | .ok conn =>
      .ok (serve C F id upgrade a.draws
        { conn := conn, st := ServeState.empty, count := 0, targets := [] })

end TailscaleRust.Firmware.DerpConn
