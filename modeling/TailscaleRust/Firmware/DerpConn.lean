import TailscaleRust.Lib.Text
import TailscaleRust.Lib.Transfer

/-!
# The connection to the relay (`src/derp.rs`)

From the HTTP upgrade to frames, over `esp_tls_conn_read` and
`esp_tls_conn_write`. The TLS library is not part of the repository; it is a
`Wire`, which moves a part of the buffer it is given, asks to be tried again
or fails, by a schedule of its own.

A buffer that the source fills is the list of the bytes it has so far, so the
offset is its length. Each loop of the source is a recursion; those that try
again end because a schedule asks for it finitely often in a row.
-/

namespace TailscaleRust.Firmware.DerpConn

open TailscaleRust.Lib

/-- The connection is its TLS handle. -/
abbrev Derp := Wire

def frameSendPacket : UInt8 := 0x04
def maxFrame : Nat := 64 * 1024

/-! ## Raw TLS I/O -/

/-- No bytes means that the connection is closed. -/
def readSome (d : Derp) (cap : Nat) : Except String (Bytes × Derp) :=
  match _h : d.read cap with
  | (.moved b, d') => .ok (b, d')
  | (.zero, d') => .ok ([], d')
  | (.want _, d') => readSome d' cap
  | (.failed code, _) => .error s!"esp_tls_conn_read error {code}"
termination_by d.wants.length
decreasing_by exact Wire.read_want_lt (by assumption)

/-- Fill a buffer of `len` bytes, of which `buf` are there. -/
def readExact (d : Derp) (len : Nat) (buf : Bytes) : Except String (Bytes × Derp) :=
  if buf.length < len then
    match readSome d (len - buf.length) with
    | .error e => .error e
    | .ok ([], _) => .error "DERP connection closed"
    | .ok (x :: b, d') => readExact d' len (buf ++ x :: b)
  else .ok (buf, d)
termination_by len - buf.length
decreasing_by simp only [List.length_append, List.length_cons]; omega

/-- Write the bytes of `buf` from offset `off` on. -/
def writeAll (d : Derp) (buf : Bytes) (off : Nat) : Except String Derp :=
  if off < buf.length then
    match _h : d.write (buf.drop off) with
    | (.moved n, d') => writeAll d' buf (off + n)
    | (.want _, d') => writeAll d' buf off
    | (.zero, _) => .error "esp_tls_conn_write error 0"
    | (.failed code, _) => .error s!"esp_tls_conn_write error {code}"
  else .ok d
termination_by (buf.length - off, d.wants.length)
decreasing_by
  · have hpos := Wire.write_moved_pos _h
    exact Prod.Lex.left _ _ (by omega)
  · exact Prod.Lex.right _ (Wire.write_want_lt _h)

/-! ## Frames -/

/-- A frame as `read_frame` returns it. -/
abbrev Frame := UInt8 × Bytes

def readFrame (d : Derp) : Except String (Frame × Derp) :=
  match readExact d 5 [] with
  | .error e => .error e
  | .ok (hdr, d) =>
      let len := (u32be hdr 1).toNat
      if len > maxFrame then .error s!"DERP frame too large: {len}"
      else if len > 0 then
        match readExact d len [] with
        | .error e => .error e
        | .ok (payload, d) => .ok ((byteAt hdr 0, payload), d)
      else .ok ((byteAt hdr 0, []), d)

def writeFrame (d : Derp) (typ : UInt8) (payload : Bytes) : Except String Derp :=
  let hdr := typ :: be32 (UInt32.ofNat payload.length)
  match writeAll d hdr 0 with
  | .error e => .error e
  | .ok d => if payload ≠ [] then writeAll d payload 0 else .ok d

def sendPacket (d : Derp) (dstNodePub : Arr 32) (pkt : Bytes) : Except String Derp :=
  writeFrame d frameSendPacket (dstNodePub.1 ++ pkt)

/-! ## The upgrade -/

def upgradeRequest (host : Bytes) : Bytes :=
  ascii "GET /derp HTTP/1.1\r\nHost: " ++ host ++
    ascii "\r\nConnection: Upgrade\r\nUpgrade: DERP\r\n\r\n"

def headEnd : Bytes := [13, 10, 13, 10]

/-- The loop that reads the response head, one byte at a time. -/
def readHead (d : Derp) (head : Bytes) : Except String (Bytes × Derp) :=
  match readSome d 1 with
  | .error e => .error e
  | .ok ([], _) => .error "connection closed during upgrade"
  | .ok (x :: _, d') =>
      if headEnd <:+ head ++ [x] then .ok (head ++ [x], d')
      else if (head ++ [x]).length > 4096 then .error "upgrade response too large"
      else readHead d' (head ++ [x])
termination_by 4097 - head.length
decreasing_by simp only [List.length_append, List.length_singleton] at *; omega

/-- The first of `str::lines`: up to a line feed, and without the carriage
return before it. -/
def firstLine (s : List Char) : List Char :=
  let line := s.takeWhile (· ≠ '\n')
  if line.length < s.length ∧ line.getLast? = some '\r' then line.dropLast else line

def switching : List Char := [' ', '1', '0', '1', ' ']

def httpUpgrade (d : Derp) (host : Bytes) : Except String Derp :=
  match writeAll d (upgradeRequest host) 0 with
  | .error e => .error e
  | .ok d =>
      match readHead d [] with
      | .error e => .error e
      | .ok (head, d) =>
          let line := firstLine (lossy head)
          if contains line switching then .ok d
          else .error ("DERP upgrade failed: '" ++ String.ofList (trim line) ++ "'")

end TailscaleRust.Firmware.DerpConn
