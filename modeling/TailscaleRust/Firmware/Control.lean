import TailscaleRust.Core.H2Client
import TailscaleRust.Core.Peers
import TailscaleRust.Lib.Text

/-!
# Fetching the netmap (`src/control/mod.rs`)

`fetch_peers` from the body of the `/machine/map` response on, and
`stream_map` from the session on; getting the body and the session are
parameters, as they may fail. `handshake` from the initiation on: what
`snow` does is a parameter. What `context` adds to an error is left out.
-/

namespace TailscaleRust.Firmware.Control

open TailscaleRust.Lib TailscaleRust.Core TailscaleRust.Core.Peers

/-- The bytes `"100.` that the scan looks for. -/
def pat : Bytes := [34, 49, 48, 48, 46]

/-- The bytes up to the next `/` or `"`, or to the end. -/
def addressText (raw : Bytes) : Bytes := raw.takeWhile fun b => b ≠ 47 ∧ b ≠ 34

/-- Find our address in the raw body. A string of digits and dots only is
valid UTF-8, so decoding it cannot fail where the check passes. -/
def scanTailscaleIp (raw : Bytes) : Option Bytes :=
  match position pat raw with
  | none => none
  | some pos =>
      let s := addressText (raw.drop (pos + 1))
      if s.all (fun c => isDigit c ∨ c = 46) ∧ s.length ≥ 7 then some s else none

/-- `resp` is the outcome of the request: the body, or what went wrong. -/
def fetchPeers (S : Serde) (resp : Except String Bytes) :
    Except String (Option Bytes × List PeerInfo × Option (List Cidr)) :=
  match resp with
  | .error e => .error e
  | .ok body =>
      let ip := scanTailscaleIp body
      match parsePeers S body with
      | .error e => .error e
      | .ok list => .ok (ip, list, ip.bind fun our => parseAllowedSrcs S body our)

/-- The loop of `stream_map`: so many payloads are read at most, and each is
scanned by itself. -/
def scanPayloads (C : Crypto) (streamId : UInt32) : Nat → H2 → Except String (Option Bytes × H2)
  | 0, sess => .ok (none, sess)
  | n + 1, sess =>
      match sess.readData C streamId with
      | .error e => .error e
      | .ok (chunk, sess) =>
          match scanTailscaleIp chunk with
          | some ip => .ok (some ip, sess)
          | none => scanPayloads C streamId n sess

/-- `body` is the request of `build_map_json`. -/
def streamMap (C : Crypto) (sess : Except String H2) (body : Bytes) :
    Except String (H2 × UInt32 × Option Bytes) :=
  match sess with
  | .error e => .error e
  | .ok sess =>
      match sess.postStream C (ascii "/machine/map") body with
      | .error e => .error e
      | .ok (streamId, sess) =>
          match scanPayloads C streamId 4 sess with
          | .error e => .error e
          | .ok (ip, sess) => .ok (sess, streamId, ip)

/-! ## The handshake -/

/-- `noise` is what the `snow` crate makes of the keys: the initiation, and
the transport keys once the response is in. `stream` is the outcome of
`tcp_connect`, and `host` is `config::CONTROL_HOST`. -/
def handshake (host : Bytes)
    (noise : Except String (Bytes × (Bytes → Except String Noise.Transport)))
    (stream : Except String Transport.ByteStream) :
    Except String (Transport.Conn × Noise.Transport) :=
  match noise with
  | .error e => .error e
  | .ok (initiation, complete) =>
      let header := Transport.base64Std (Noise.framedInitiation initiation)
      match stream with
      | .error e => .error e
      | .ok stream =>
          match Transport.connectAndUpgrade stream host header with
          | .error e => .error e
          | .ok conn =>
              match conn.readFrame with
              | .error e => .error e
              | .ok ((typ, payload), conn) =>
                  if typ = Noise.msgResponse then
                    match complete payload with
                    | .error e => .error e
                    | .ok tr => .ok (conn, tr)
                  else if typ = Noise.msgError then
                    .error ("control error: " ++ String.ofList (lossy payload))
                  else .error s!"unexpected handshake frame type {typ}"

end TailscaleRust.Firmware.Control
