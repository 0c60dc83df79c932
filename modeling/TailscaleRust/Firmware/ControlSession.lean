import TailscaleRust.Firmware.Control

/-!
# Sessions with the control server (`src/control/mod.rs`)

`connect`, and the requests that are made over the session it returns. The
bodies of the requests are parameters here. The early payload is only
printed, so `connect` drops it.
-/

namespace TailscaleRust.Firmware.Control

open TailscaleRust.Lib TailscaleRust.Core

section Session

variable (C : Crypto)

/-- `noise` and `stream` are as in `handshake`. -/
def connect (host : Bytes)
    (noise : Except String (Bytes × (Bytes → Except String Noise.Transport)))
    (stream : Except String Transport.ByteStream) : Except String H2 :=
  match handshake host noise stream with
  | .error e => .error e
  | .ok (conn, tr) =>
      match H2.start C conn tr host with
      | .error e => .error e
      | .ok (sess, _early) => .ok sess

structure MapResult where
  status : UInt16
  ip : Option Bytes
  bodyLen : Nat

def fetchMap (sess : H2) (body : Bytes) : Except String (MapResult × H2) :=
  match sess.postJson C (ascii "/machine/map") body with
  | .error e => .error e
  | .ok ((status, resp), sess) => .ok (⟨status, scanTailscaleIp resp, resp.length⟩, sess)

/-- `sess` is the outcome of `connect`. -/
def updateEndpoints (sess : Except String H2) (body : Bytes) : Except String UInt16 :=
  match sess with
  | .error e => .error e
  | .ok sess =>
      match sess.postJson C (ascii "/machine/map") body with
      | .error e => .error e
      | .ok ((status, _resp), _sess) => .ok status

end Session

end TailscaleRust.Firmware.Control
