import TailscaleRust.Core.Stun
import TailscaleRust.Core.Tcp

/-!
# Our own endpoints (`src/magicsock.rs`, `src/main.rs`)

The STUN query of the data-plane socket, and the two endpoints that `main`
advertises: the address on the LAN and the one the query reports. What the
resolver returns and what each attempt to send and to receive gives are
arguments. What `context` adds to an error of the operating system is its
text here.
-/

namespace TailscaleRust.Firmware.Magicsock

open TailscaleRust.Lib TailscaleRust.Core TailscaleRust.Core.Stun TailscaleRust.Core.Tcp

/-- What `send_to` and `recv_from` return in one attempt. -/
structure Attempt where
  sent : Except String Unit
  received : Except String Bytes

/-- The loop over the attempts that are left, of which this is number `i`. -/
def stunAttempts (server : String) (txid : Arr 12) (attempts : Nat → Attempt) :
    Nat → Nat → String → Except String SocketAddrV4
  | 0, _, lastErr => .error s!"STUN query to {server} failed: {lastErr}"
  | left + 1, i, _ =>
      match (attempts i).sent with
      | .error _ => .error "send STUN request"
      | .ok () =>
          match (attempts i).received with
          | .error e =>
              stunAttempts server txid attempts left (i + 1) s!"STUN recv attempt {i} failed: {e}"
          | .ok datagram =>
              -- the buffer of the query
              let pkt := datagram.take 512
              if !isStun pkt then
                stunAttempts server txid attempts left (i + 1)
                  s!"non-STUN reply ({pkt.length} bytes)"
              else parseResponse pkt txid

/-- `target` is the first IPv4 address the server's name resolves to. -/
def stunPublicAddr (server : String) (target : Except String SocketAddr) (txid : Arr 12)
    (attempts : Nat → Attempt) : Except String SocketAddrV4 :=
  match target with
  | .error e => .error e
  | .ok _ => stunAttempts server txid attempts 3 0 "no STUN reply"

/-- An address as it is printed. -/
def endpointText (ip : Ipv4Addr) (port : UInt16) : Bytes := dotted ip ++ 58 :: decimal port.toNat

/-- The endpoints `main` advertises for a socket that is bound to this port. -/
def ownEndpoints (lanIp : Ipv4Addr) (localPort : UInt16) (stun : Except String SocketAddrV4) :
    List Bytes :=
  endpointText lanIp localPort ::
    match stun with
    | .ok addr => [endpointText addr.1 addr.2]
    | .error _ => []

end TailscaleRust.Firmware.Magicsock
