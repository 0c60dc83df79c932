import TailscaleRust.Core.Noise
import TailscaleRust.Core.Transport

/-!
# HTTP/2 inside the control channel (`core/src/h2.rs`)

The record plumbing: sending cuts the data into records, reading pulls one
record after the other into a plaintext buffer and takes from it what a
frame header announces. The buffer is the one `read_exact` and the early
payload's push-back work on.
-/

namespace TailscaleRust.Core

open TailscaleRust.Lib TailscaleRust.Core.Noise
open TailscaleRust.Core.Transport (Conn ByteStream)

structure H2 where
  conn : Conn
  tr : Transport
  /-- Decrypted plaintext not yet consumed. -/
  rx : Bytes
  nextStream : UInt32
  authority : Bytes
  deriving DecidableEq

namespace H2

def earlyMagic : Bytes := [0xff, 0xff, 0xff, 0x54, 0x53]

def ftSettings : UInt8 := 0x4

structure Frame where
  typ : UInt8
  flags : UInt8
  streamId : UInt32
  payload : Bytes
  deriving DecidableEq

def frame (typ flags : UInt8) (streamId : UInt32) (payload : Bytes) : Bytes :=
  beBytes 3 payload.length ++ [typ, flags] ++ be32 (streamId &&& 0x7fffffff) ++ payload

/-- A session over an upgraded connection, before anything is sent. -/
def new (conn : Conn) (tr : Transport) (authority : Bytes) : H2 :=
  { conn, tr, rx := [], nextStream := 1, authority }

section Records

variable (C : Crypto)

/-- One record off the connection, decrypted. -/
def pullRecord : Conn × Transport → Except String (Bytes × Conn × Transport)
  | (conn, tr) =>
      match conn.readFrame with
      | .error e => .error e
      | .ok ((typ, ct), conn) =>
          if typ = msgRecord then
            match tr.openRecord C ct with
            | (.error e, _) => .error e
            | (.ok pt, tr) => .ok (pt, conn, tr)
          else if typ = msgError then .error ("control error: " ++ String.ofList (lossy ct))
          else .error s!"unexpected control frame type {typ}"

/-- The bytes the connection still has, buffered or to arrive. -/
def connBytes (s : Conn × Transport) : Nat := s.1.rx.length + s.1.stream.unread

theorem take_connBytes (tr : Transport) {c c' : Conn} {n : Nat} {out : Bytes}
    (h : c.take n = .ok (out, c')) : n + connBytes (c', tr) ≤ connBytes (c, tr) := by
  rw [Conn.take] at h
  split at h
  · cases h
  · cases h
  · next out rx stream ht =>
      cases h
      have := Source.take_conserves (S := ByteStream.source 2048)
        ByteStream.source_conserves ht
      simp only [connBytes]
      have hsize : ∀ s, (ByteStream.source 2048).size s = s.unread := fun _ => rfl
      rw [hsize, hsize] at this
      omega

/-- The record layer as a source of plaintext. Every record takes at least
the three bytes of its frame header off the connection. -/
def source : Source (Conn × Transport) String where
  pull := pullRecord C
  size := connBytes
  pull_lt {s b s'} h := by
    obtain ⟨conn, tr⟩ := s
    rw [pullRecord, Conn.readFrame] at h
    split at h
    · cases h
    · next typ ct c hr =>
        split at hr
        · cases hr
        · next hdr c1 h1 =>
            have hhdr := take_connBytes tr h1
            split at hr
            · cases hr
            · next payload c2 h2 =>
                cases hr
                have hpayload := take_connBytes tr h2
                split at h
                · split at h <;> cases h
                  have htr : ∀ c t t', connBytes (c, t) = connBytes (c, t') := fun _ _ _ => rfl
                  rw [htr c _ tr]
                  omega
                · split at h <;> cases h

/-! ## Reading -/

def readExact (h : H2) (n : Nat) : Except String (Bytes × H2) :=
  match (source C).take n h.rx (h.conn, h.tr) with
  | .error (e, _) => .error e
  | .ok (out, rx, conn, tr) => .ok (out, { h with conn, tr, rx })

/-- The nine bytes read to look for the magic are put back if they turn out
to be the first frame's header. -/
def consumeEarlyPayload (h : H2) : Except String (Option Bytes × H2) :=
  match h.readExact C 9 with
  | .error e => .error e
  | .ok (hdr, h) =>
      if slice hdr 0 5 = earlyMagic then
        match h.readExact C (u32be hdr 5).toNat with
        | .error e => .error e
        | .ok (json, h) => .ok (some json, h)
      else .ok (none, { h with rx := hdr ++ h.rx })

def readFrame (h : H2) : Except String (Frame × H2) :=
  match h.readExact C 9 with
  | .error e => .error e
  | .ok (hdr, h) =>
      let len := beNat (slice hdr 0 3)
      let typ := byteAt hdr 3
      let flags := byteAt hdr 4
      let streamId := u32be hdr 5 &&& 0x7fffffff
      if len > 0 then
        match h.readExact C len with
        | .error e => .error e
        | .ok (payload, h) => .ok ({ typ, flags, streamId, payload }, h)
      else .ok ({ typ, flags, streamId, payload := [] }, h)

/-- `n` calls of `read_frame`. -/
def readFrames (h : H2) : Nat → Except String (List Frame × H2)
  | 0 => .ok ([], h)
  | n + 1 =>
      match h.readFrame C with
      | .error e => .error e
      | .ok (fr, h) =>
          match readFrames h n with
          | .error e => .error e
          | .ok (frs, h) => .ok (fr :: frs, h)

/-! ## Sending -/

/-- Each `chunks(2048)` piece is one record, written as it is sealed. -/
def send (h : H2) (data : Bytes) : Except String H2 :=
  if data = [] then .ok h
  else
    let (rec, tr) := h.tr.sealRecord C (data.take 2048)
    match h.conn.writeAll rec with
    | .error e => .error e
    | .ok conn => send { h with conn, tr } (data.drop 2048)
termination_by data.length
decreasing_by
  have := List.length_pos_iff.mpr (by assumption)
  rw [List.length_drop]
  omega

end Records

/-! ## Bodies -/

/-- The byte `{`. -/
def openBrace : UInt8 := 0x7b

/-- Drop the 4-byte length before a body, guessed from two of its bytes. -/
def stripWirePrefix (body : Bytes) : Bytes :=
  if body.length ≥ 5 ∧ byteAt body 0 ≠ openBrace ∧ byteAt body 4 = openBrace then body.drop 4
  else body

end H2

end TailscaleRust.Core
