import TailscaleRust.Core.H2
import TailscaleRust.Core.Peers

/-!
# Requests and responses (`core/src/h2.rs`)

The header encoder, the scan for `:status` and the loops that read frames
until something happens. The three loops of the source (startup, a whole
response, the next piece of a stream) differ in what they do with a frame and
are otherwise one: read a frame, send what it calls for, go on or stop.
-/

namespace TailscaleRust.Core.H2

open TailscaleRust.Lib TailscaleRust.Core.Peers
open TailscaleRust.Core.Transport (Conn ByteStream)
open TailscaleRust.Core.Noise (Transport)

def preface : Bytes := ascii "PRI * HTTP/2.0\r\n\r\nSM\r\n\r\n"

def ftData : UInt8 := 0x0
def ftHeaders : UInt8 := 0x1
def ftGoaway : UInt8 := 0x7
def ftWindowUpdate : UInt8 := 0x8
def flEndStream : UInt8 := 0x1
def flEndHeaders : UInt8 := 0x4
def flAck : UInt8 := 0x1

def maxFrameSize : UInt32 := 16384

/-! ## Headers -/

/-- The loop of `enc_str` behind the prefix. -/
def encRem (rem : Nat) : Bytes :=
  if rem ≥ 0x80 then UInt8.ofNat ((rem &&& 0x7f) ||| 0x80) :: encRem (rem >>> 7)
  else [UInt8.ofNat rem]
termination_by rem
decreasing_by
  rw [Nat.shiftRight_eq_div_pow]
  omega

def encStr (s : Bytes) : Bytes :=
  if s.length < 0x7f then UInt8.ofNat s.length :: s
  else 0x7f :: (encRem (s.length - 0x7f) ++ s)

/-- What `enc_header` appends to a block. -/
def encHeader (name value : Bytes) : Bytes := 0x00 :: (encStr name ++ encStr value)

def statusName : Bytes := ascii ":status"

/-- `str::parse::<u16>`: an optional `+`, then digits, in range. -/
def parseU16 (s : Bytes) : Option UInt16 :=
  let digits := if s.head? = some 43 then s.drop 1 else s
  if digits = [] ∨ ¬ digits.all isDigit ∨ digitsValue digits ≥ 2 ^ 16 then none
  else some (UInt16.ofNat (digitsValue digits))

/-- A string as `decode_status` reads it, from a single length byte; the top
bit of the byte is ignored. -/
def shortStr : Bytes → Option (Bytes × Bytes)
  | [] => none
  | b :: rest =>
      let len := (b &&& 0x7f).toNat
      if len > rest.length then none else some (rest.take len, rest.drop len)

theorem shortStr_lt {b s rest : Bytes} (h : shortStr b = some (s, rest)) :
    rest.length < b.length := by
  cases b with
  | nil => cases h
  | cons x b =>
      rw [shortStr] at h
      split at h
      · cases h
      · cases h
        rw [List.length_drop, List.length_cons]
        omega

/-- `:status` of a HEADERS block. Bytes that are digits are UTF-8, so a value
that is not fails to parse as it fails to decode. -/
def decodeStatus (block : Bytes) : Option UInt16 :=
  match block with
  | [] => none
  | b :: rest =>
      if b &&& 0x80 ≠ 0 then
        -- indexed header field
        if b &&& 0x7f = 8 then some 200 else decodeStatus rest
      else if b &&& 0xf0 = 0x00 then
        -- taken for a literal without indexing with a new name
        match _h : shortStr rest with
        | none => none
        | some (name, rest') =>
            match _h' : shortStr rest' with
            | none => none
            | some (val, rest'') =>
                if name = statusName then parseU16 val else decodeStatus rest''
      else none
termination_by block.length
decreasing_by
  · exact Nat.lt_succ_self _
  · have h1 := shortStr_lt (by assumption : shortStr rest = some (name, rest'))
    have h2 := shortStr_lt (by assumption : shortStr rest' = some (val, rest''))
    rw [List.length_cons]
    omega

/-! ## Frame loops -/

/-- Go on with a state, or stop with a result. -/
inductive Next (σ α : Type) where
  | more (s : σ)
  | stop (r : Except String α)

section Loop

variable (C : Crypto)

/-- One `send` after the other. -/
def sendAll (h : H2) : List Bytes → Except String H2
  | [] => .ok h
  | d :: ds =>
      match h.send C d with
      | .error e => .error e
      | .ok h => sendAll h ds

/-- How much there is to read: the bytes of the connection, then those of the
buffer. -/
def unread (h : H2) : Nat × Nat := (connBytes (h.conn, h.tr), h.rx.length)

def LessUnread (h h' : H2) : Prop := Prod.Lex (· < ·) (· < ·) h.unread h'.unread

theorem readExact_le {h h' : H2} {n : Nat} {out : Bytes} (hr : h.readExact C n = .ok (out, h')) :
    h'.unread = ((h.unread).1, (h.unread).2 - n) ∧ n ≤ (h.unread).2 ∨
      (h'.unread).1 < (h.unread).1 := by
  rw [readExact] at hr
  split at hr
  · cases hr
  · next rx conn tr ht =>
      cases hr
      rcases Source.take_progress ht with ⟨heq, hlen⟩ | hlt
      · refine .inl ⟨?_, by simp only [unread]; omega⟩
        cases heq
        simp only [unread, Prod.mk.injEq, true_and]
        omega
      · exact .inr hlt

/-- A frame takes its header off what there is to read. -/
theorem readFrame_less {h h' : H2} {fr : Frame} (hr : h.readFrame C = .ok (fr, h')) :
    LessUnread h' h := by
  have hless : (h'.unread).1 < (h.unread).1 ∨
      (h'.unread).1 = (h.unread).1 ∧ (h'.unread).2 < (h.unread).2 := by
    rw [readFrame] at hr
    split at hr
    · cases hr
    · next hdr h1 h9 =>
        have hfirst := readExact_le C h9
        simp only [] at hr
        split at hr
        · split at hr
          · cases hr
          · next payload h2 hpay =>
              cases hr
              have hsecond := readExact_le C hpay
              rcases hfirst with ⟨hf, hle⟩ | hf
              · rcases hsecond with ⟨hs, -⟩ | hs
                · rw [hs, hf]
                  exact .inr ⟨rfl, by simp only []; omega⟩
                · rw [hf] at hs
                  exact .inl hs
              · rcases hsecond with ⟨hs, -⟩ | hs
                · rw [hs]
                  exact .inl hf
                · exact .inl (Nat.lt_trans hs hf)
        · cases hr
          rcases hfirst with ⟨hf, hle⟩ | hf
          · rw [hf]
            exact .inr ⟨rfl, by simp only []; omega⟩
          · exact .inl hf
  rw [LessUnread, Prod.lex_def]
  exact hless

/-- Sending leaves what there is to read as it is. -/
theorem send_unread {h h' : H2} {data : Bytes} (hs : h.send C data = .ok h') :
    h'.unread = h.unread := by
  induction hk : data.length using Nat.strongRecOn generalizing h data with
  | ind k ih =>
    rw [send] at hs
    split at hs
    · cases hs
      rfl
    · next hne =>
        have hpos := List.length_pos_iff.mpr hne
        have hlen : (data.drop 2048).length < k := by
          rw [List.length_drop]
          omega
        simp only [] at hs
        split at hs
        · cases hs
        · next conn hw =>
            rw [ih _ hlen hs rfl]
            rw [Conn.writeAll, ByteStream.writeAll] at hw
            split at hw
            · cases hw
            · next stream hw' =>
                cases hw
                split at hw'
                · cases hw'
                · cases hw'
                  rfl

theorem sendAll_unread {h h' : H2} {ds : List Bytes} (hs : h.sendAll C ds = .ok h') :
    h'.unread = h.unread := by
  induction ds generalizing h with
  | nil =>
      cases hs
      rfl
  | cons d ds ih =>
      rw [sendAll] at hs
      split at hs
      · cases hs
      · next h1 h1s => rw [ih hs, send_unread C h1s]

variable {σ α : Type}

/-- Read a frame, send what it calls for, and go on or stop. -/
def frameLoop (step : σ → Frame → List Bytes × Next σ α) (s : σ) (h : H2) :
    Except String (α × H2) :=
  match _hr : h.readFrame C with
  | .error e => .error e
  | .ok (fr, h1) =>
      match _hs : h1.sendAll C (step s fr).1 with
      | .error e => .error e
      | .ok h2 =>
          match (step s fr).2 with
          | .stop (.ok r) => .ok (r, h2)
          | .stop (.error e) => .error e
          | .more s => frameLoop step s h2
termination_by h.unread
decreasing_by
  rw [sendAll_unread C _hs]
  exact readFrame_less C _hr

end Loop

/-! ## What the loops do with a frame -/

/-- The two frames that give credit back, for the stream and for the
connection. -/
def windowUpdate (streamId inc : UInt32) : List Bytes :=
  [frame ftWindowUpdate 0 streamId (be32 inc), frame ftWindowUpdate 0 0 (be32 inc)]

/-- The acknowledgement of a SETTINGS frame that is not one itself. -/
def settingsAck (fr : Frame) : List Bytes :=
  if fr.flags &&& flAck = 0 then [frame ftSettings flAck 0 []] else []

/-- The loop of `start`. -/
def startStep (_ : Unit) (fr : Frame) : List Bytes × Next Unit Unit :=
  if fr.typ = ftSettings then (settingsAck fr, .stop (.ok ()))
  else if fr.typ = ftGoaway then ([], .stop (.error "server GOAWAY during startup"))
  else ([], .more ())

/-- The loop of `read_data`. -/
def dataStep (streamId : UInt32) (_ : Unit) (fr : Frame) : List Bytes × Next Unit Bytes :=
  if fr.typ = ftData ∧ fr.streamId = streamId then
    if fr.payload ≠ [] then
      (windowUpdate streamId (UInt32.ofNat fr.payload.length), .stop (.ok fr.payload))
    else if fr.flags &&& flEndStream ≠ 0 then ([], .stop (.error "map stream closed by server"))
    else ([], .more ())
  else if fr.typ = ftHeaders then
    if fr.flags &&& flEndStream ≠ 0 then
      ([], .stop (.error "map stream closed (HEADERS END_STREAM)"))
    else ([], .more ())
  else if fr.typ = ftSettings then (settingsAck fr, .more ())
  else if fr.typ = ftGoaway then ([], .stop (.error "server GOAWAY on map stream"))
  else ([], .more ())

/-- `if fr.flags & FL_END_STREAM != 0 { break; }` of `read_response`. -/
def responseEnd (fr : Frame) (status : UInt16) (body : Bytes) :
    Next (UInt16 × Bytes) (UInt16 × Bytes) :=
  if fr.flags &&& flEndStream ≠ 0 then .stop (.ok (status, stripWirePrefix body))
  else .more (status, body)

/-- The loop of `read_response`, with the status and the body so far. -/
def responseStep (streamId : UInt32) (acc : UInt16 × Bytes) (fr : Frame) :
    List Bytes × Next (UInt16 × Bytes) (UInt16 × Bytes) :=
  if fr.streamId ≠ streamId ∧ fr.streamId ≠ 0 then ([], .more acc)
  else if fr.typ = ftHeaders then
    ([], responseEnd fr ((decodeStatus fr.payload).getD acc.1) acc.2)
  else if fr.typ = ftData then
    (if fr.payload ≠ [] then windowUpdate streamId (UInt32.ofNat fr.payload.length) else [],
      responseEnd fr acc.1 (acc.2 ++ fr.payload))
  else if fr.typ = ftSettings then (settingsAck fr, .more acc)
  else if fr.typ = ftGoaway then
    ([], .stop (.error s!"server GOAWAY (status so far {acc.1})"))
  else ([], .more acc)

/-! ## The session -/

section Session

variable (C : Crypto)

def readData (h : H2) (streamId : UInt32) : Except String (Bytes × H2) :=
  h.frameLoop C (dataStep streamId) ()

def readResponse (h : H2) (streamId : UInt32) : Except String ((UInt16 × Bytes) × H2) :=
  h.frameLoop C (responseStep streamId) (0, [])

/-- The preface and our SETTINGS: no push, frames of the default size. -/
def hello : Bytes :=
  preface ++ frame ftSettings 0 0 ([0x00, 0x02, 0x00, 0x00, 0x00, 0x00, 0x00, 0x05] ++
    be32 maxFrameSize)

def start (conn : Conn) (tr : Transport) (authority : Bytes) :
    Except String (H2 × Option Bytes) :=
  match (new conn tr authority).send C hello with
  | .error e => .error e
  | .ok h =>
      match h.consumeEarlyPayload C with
      | .error e => .error e
      | .ok (early, h) =>
          match h.frameLoop C startStep () with
          | .error e => .error e
          | .ok ((), h) => .ok (h, early)

/-- The header block of a POST, the same for both kinds of request. -/
def postHeaders (authority path body : Bytes) : Bytes :=
  encHeader (ascii ":method") (ascii "POST") ++ encHeader (ascii ":scheme") (ascii "http")
    ++ encHeader (ascii ":authority") authority ++ encHeader (ascii ":path") path
    ++ encHeader (ascii "content-type") (ascii "application/json")
    ++ encHeader (ascii "content-length") (ascii (toString body.length))
    ++ encHeader (ascii "accept") (ascii "application/json")

/-- POST and leave the response to be read. -/
def postStream (h : H2) (path body : Bytes) : Except String (UInt32 × H2) :=
  let streamId := h.nextStream
  let h := { h with nextStream := h.nextStream + 2 }
  match h.send C (frame ftHeaders flEndHeaders streamId (postHeaders h.authority path body)
      ++ frame ftData flEndStream streamId body) with
  | .error e => .error e
  | .ok h => .ok (streamId, h)

/-- POST and read the whole response; `post_json` sends what `post_stream`
does. -/
def postJson (h : H2) (path body : Bytes) : Except String ((UInt16 × Bytes) × H2) :=
  match h.postStream C path body with
  | .error e => .error e
  | .ok (streamId, h) => h.readResponse C streamId

end Session

end TailscaleRust.Core.H2
