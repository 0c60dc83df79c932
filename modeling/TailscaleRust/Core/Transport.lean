import TailscaleRust.Lib.Reader
import TailscaleRust.Lib.Text

/-!
# The control connection (`core/src/transport.rs`)

The cleartext TCP connection that carries the control channel: the HTTP/1.1
upgrade, and after it controlbase frames read through a buffer that starts
with whatever followed the response head.

The platform's `ByteStream` is modelled by what it will do: the chunks in
which the incoming bytes arrive, how it behaves once they are used up, and
the bytes written so far. A read returns at most as many bytes as it asks
for, so a chunk longer than the read buffer is returned in several reads.
-/

namespace TailscaleRust.Core.Transport

open TailscaleRust.Lib

structure ByteStream where
  incoming : List Bytes
  /-- Past the last chunk a read fails, where it otherwise reports the end. -/
  readFails : Bool
  written : Bytes
  writeFails : Bool
  deriving DecidableEq

namespace ByteStream

/-- `read` into a buffer of `cap` bytes; no bytes means end of stream. -/
def read (cap : Nat) (s : ByteStream) : Except Unit (Bytes × ByteStream) :=
  match s.incoming with
  | [] => if s.readFails then .error () else .ok ([], s)
  | c :: rest =>
      if c.length ≤ cap then .ok (c, { s with incoming := rest })
      else .ok (c.take cap, { s with incoming := c.drop cap :: rest })

def writeAll (s : ByteStream) (data : Bytes) : Except Unit ByteStream :=
  if s.writeFails then .error () else .ok { s with written := s.written ++ data }

/-- The number of bytes still to arrive. -/
def unread (s : ByteStream) : Nat := s.incoming.flatten.length

theorem read_unread {cap : Nat} {s s' : ByteStream} {b : Bytes}
    (h : s.read cap = .ok (b, s')) : s.unread = b.length + s'.unread := by
  rw [read] at h
  split at h
  · next hin =>
      split at h <;> cases h
      rw [List.length_nil, Nat.zero_add]
  · next c rest hin =>
      split at h <;> cases h
      · simp [unread, hin]
      · simp only [unread, hin, List.flatten_cons, List.length_append, List.length_take,
          List.length_drop]
        omega

/-- Why a read gave no bytes. -/
inductive Stopped where
  | failed
  | closed
  deriving DecidableEq

/-- The stream as a source of bytes, read `cap` bytes at a time. -/
def source (cap : Nat) : Source ByteStream Stopped where
  pull s :=
    match s.read cap with
    | .error () => .error .failed
    | .ok ([], _) => .error .closed
    | .ok (x :: b, s') => .ok (x :: b, s')
  size := unread
  pull_lt {s b s'} h := by
    split at h
    · cases h
    · cases h
    · next x b hr =>
        cases h
        rw [read_unread hr, List.length_cons]
        omega

theorem source_conserves {cap : Nat} : (source cap).Conserves := by
  intro s b s' h
  rw [source] at h
  simp only [] at h
  split at h
  · cases h
  · cases h
  · next hr =>
      cases h
      exact Nat.le_of_eq (read_unread hr).symm

end ByteStream

/-! ## The upgrade -/

structure Conn where
  stream : ByteStream
  rx : Bytes
  deriving DecidableEq

def upgradeValue : Bytes := ascii "tailscale-control-protocol"

def upgradeRequest (host handshakeB64 : Bytes) : Bytes :=
  ascii "POST /ts2021 HTTP/1.1\r\nHost: " ++ host ++
    ascii "\r\nUpgrade: " ++ upgradeValue ++
    ascii "\r\nConnection: upgrade\r\nX-Tailscale-Handshake: " ++ handshakeB64 ++
    ascii "\r\nContent-Length: 0\r\n\r\n"

def headEnd : Bytes := [13, 10, 13, 10]

/-- The loop that reads the response head. It returns all bytes read and the
offset at which the body starts. -/
def readHead (s : ByteStream) (head : Bytes) : Except String (Bytes × Nat × ByteStream) :=
  match _h : (ByteStream.source 512).pull s with
  | .error .failed => .error "upgrade read"
  | .error .closed => .error "connection closed during upgrade"
  | .ok (b, s') =>
      match position headEnd (head ++ b) with
      | some pos => .ok (head ++ b, pos + 4, s')
      | none =>
          if (head ++ b).length > 8192 then .error "upgrade response headers too large"
          else readHead s' (head ++ b)
termination_by s.unread
decreasing_by exact (ByteStream.source 512).pull_lt (by assumption)

/-- The first line of the head, decoded and trimmed. -/
def statusLine (head : Bytes) : List Char := trim (lossy (head.takeWhile (· ≠ 10)))

def switching : List Char := [' ', '1', '0', '1', ' ']

def connectAndUpgrade (stream : ByteStream) (host handshakeB64 : Bytes) :
    Except String Conn :=
  match stream.writeAll (upgradeRequest host handshakeB64) with
  | .error () => .error "upgrade write"
  | .ok stream =>
      match readHead stream [] with
      | .error e => .error e
      | .ok (head, bodyStart, stream) =>
          let line := statusLine head
          if contains line switching then .ok { stream, rx := head.drop bodyStart }
          else
            let body := trim (lossy (head.drop bodyStart))
            .error ("upgrade failed: '" ++ String.ofList line ++ "' body='" ++
              String.ofList body ++ "'")

/-! ## Controlbase frames -/

namespace Conn

/-- `fill_to` and `take`. -/
def take (c : Conn) (n : Nat) : Except String (Bytes × Conn) :=
  match (ByteStream.source 2048).take n c.rx c.stream with
  | .error (.failed, _) => .error "stream read"
  | .error (.closed, got) => .error s!"connection closed (wanted {n}, have {got})"
  | .ok (out, rx, stream) => .ok (out, { stream, rx })

/-- One controlbase frame: type, big-endian length, payload. -/
def readFrame (c : Conn) : Except String ((UInt8 × Bytes) × Conn) :=
  match c.take 3 with
  | .error e => .error e
  | .ok (hdr, c) =>
      match c.take (u16be hdr 1).toNat with
      | .error e => .error e
      | .ok (payload, c) => .ok ((byteAt hdr 0, payload), c)

def writeAll (c : Conn) (data : Bytes) : Except String Conn :=
  match c.stream.writeAll data with
  | .error () => .error "stream write"
  | .ok stream => .ok { c with stream }

end Conn

/-! ## The handshake header -/

def base64Table : Bytes :=
  ascii "ABCDEFGHIJKLMNOPQRSTUVWXYZabcdefghijklmnopqrstuvwxyz0123456789+/"

/-- The digit of `n` that starts at bit `k`. -/
def base64Digit (n k : UInt32) : UInt8 := byteAt base64Table ((n >>> k) &&& 0x3f).toNat

/-- The four characters of one chunk. Bytes that a short chunk lacks are
zero, and a `=` stands for a digit that has no bit of the chunk. -/
def base64Chunk (chunk : Bytes) : Bytes :=
  let b0 := (byteAt chunk 0).toUInt32
  let b1 := (chunk.getD 1 0).toUInt32
  let b2 := (chunk.getD 2 0).toUInt32
  let n := (b0 <<< 16) ||| (b1 <<< 8) ||| b2
  [base64Digit n 18, base64Digit n 12,
    if chunk.length > 1 then base64Digit n 6 else 61,
    if chunk.length > 2 then base64Digit n 0 else 61]

/-- The chunks are `data.chunks(3)`: of three bytes, but for the last. -/
def base64Std : Bytes → Bytes
  | [] => []
  | a :: b :: c :: rest => base64Chunk [a, b, c] ++ base64Std rest
  | chunk => base64Chunk chunk

end TailscaleRust.Core.Transport
