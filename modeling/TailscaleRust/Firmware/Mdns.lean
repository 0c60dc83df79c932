import TailscaleRust.Firmware.NodeRun
import TailscaleRust.Lib.Pairing

/-!
# The mDNS reflector (`src/mdns.rs`), and two of them

The loop of `run` alternates between the channel of payloads to multicast
and the socket; one turn of either is a function here. Two reflectors on two
LANs make a bridge: what hosts multicast on one LAN is captured, forwarded
through the tunnel by `mdns_drain`, taken out of it by `handle_decrypted` on
the other side and multicast there. A step of the bridge is one of these
five, at either side. A multicast can be heard any number of times or never,
and so can a datagram on its way to the partner.
-/

namespace TailscaleRust.Firmware.Mdns

open TailscaleRust.Lib TailscaleRust.Lib.Pairing TailscaleRust.Core
open TailscaleRust.Firmware.Dataplane

def dedupMax : Nat := 64

/-- The socket's buffer; `recv_from` drops what does not fit. -/
def bufLen : Nat := 1500

/-- FNV-1a. -/
def hash (data : Bytes) : UInt64 :=
  data.foldl (fun h b => (h ^^^ b.toUInt64) * 0x100000001b3) 0xcbf29ce484222325

def remember (seen : List UInt64) (h : UInt64) : List UInt64 :=
  (if seen.length ≥ dedupMax then seen.tail else seen) ++ [h]

/-- What is remembered of a payload before it is multicast. -/
def reinject (seen : List UInt64) (payload : Bytes) : List UInt64 :=
  remember seen (hash payload)

/-- A multicast that was heard: what is remembered then, and what goes to
the data plane. -/
def capture (lanIp : Ipv4Addr) (seen : List UInt64) (source : Ipv4Addr) (heard : Bytes) :
    List UInt64 × Option Bytes :=
  if source = lanIp then (seen, none)
  else
    let pkt := heard.take bufLen
    let h := hash pkt
    if seen.contains h then (seen, none) else (remember seen h, some pkt)

/-! ## Two reflectors -/

/-- A multicast on a LAN. `ours` says that the reflector sent it. -/
structure Multicast where
  source : Ipv4Addr
  payload : Bytes
  ours : Bool
  deriving DecidableEq

/-- What does not change: the build, who the two nodes are, their addresses
in the tailnet and on their LANs. -/
structure Bridge where
  crypto : Crypto
  features : Features
  ident : Side → Identity
  ip : Side → Ipv4Addr
  lanIp : Side → Ipv4Addr

/-- One side. `fwd` is the channel to the data plane; the one back is in the
node's state. Every multicast on the LAN and every datagram the node sent
are kept, and `handled` lists the payloads that were multicast or forwarded. -/
structure Reflector where
  node : NodeState
  seen : List UInt64
  fwd : List Bytes
  air : List Multicast
  wire : List Bytes
  handled : List Bytes

inductive Event where
  /-- A host multicasts. -/
  | host (x : Side) (source : Ipv4Addr) (payload : Bytes)
  | capture (x : Side) (m : Multicast)
  /-- `mdns_drain` takes the next `n` payloads. -/
  | forward (x : Side) (n : Nat)
  /-- A datagram of the other side arrives, at either entry. -/
  | deliver (x : Side) (dualcore : Bool) (tick : UInt32) (pkt : Bytes) (src : SocketAddr)
      (env : Draws)
  | reinject (x : Side)

namespace Bridge

variable (B : Bridge)

def host (x : Side) : Host where
  crypto := B.crypto
  features := B.features
  identity := B.ident x
  mdnsOurIp := B.ip x
  mdnsPartnerIp := B.ip x.other
  mdnsPartnerNode := (B.ident x.other).nodePub

/-- The data plane takes an input. -/
def nodeStep (x : Side) (r : Reflector) (ev : Input) : Reflector :=
  let (node, out) := (B.host x).step r.node ev
  { r with node := node, wire := r.wire ++ out.map Datagram.bytes }

def arrival (dualcore : Bool) (tick : UInt32) (pkt : Bytes) (src : SocketAddr) (env : Draws) :
    Input :=
  if dualcore then .process tick pkt src env else .packet tick pkt src env

/-- The reflector reads a multicast. -/
def hears (x : Side) (r : Reflector) (m : Multicast) : Reflector :=
  let (seen, pkt) := Mdns.capture (B.lanIp x) r.seen m.source m.payload
  { r with seen := seen, fwd := r.fwd ++ pkt.toList, handled := r.handled ++ pkt.toList }

def step (w : Side → Reflector) : Event → Option (Side → Reflector)
  | .host x source payload =>
      some (Function.update w x
        { w x with air := (w x).air ++ [⟨source, payload, false⟩] })
  | .capture x m =>
      if m ∈ (w x).air then some (Function.update w x (B.hears x (w x) m)) else none
  | .forward x n =>
      some (Function.update w x
        { B.nodeStep x (w x) (.drain ((w x).fwd.take n)) with fwd := (w x).fwd.drop n })
  | .deliver x dualcore tick pkt src env =>
      if pkt ∈ (w x.other).wire then
        some (Function.update w x
          (B.nodeStep x (w x) (arrival dualcore tick pkt src env)))
      else none
  | .reinject x =>
      match (w x).node.st.mdnsReinject with
      | some (payload :: rest) =>
          some (Function.update w x
            { w x with
              node := { (w x).node with
                st := { (w x).node.st with mdnsReinject := some rest } }
              seen := Mdns.reinject (w x).seen payload
              air := (w x).air ++ [⟨B.lanIp x, payload, true⟩]
              handled := (w x).handled ++ [payload] })
      | _ => none

def Steps (w : Side → Reflector) (ev : Event) (w' : Side → Reflector) : Prop :=
  B.step w ev = some w'

/-- What a side seals for its partner can be opened there, under the tunnel
it names, and this is a tunnel of the partner's partner. -/
def Matching (w : Side → Reflector) : Prop :=
  ∀ x i e, (w x).node.st.tunnels.get? i = some e →
    e.peerNode = (B.host x).mdnsPartnerNode →
    ∃ f, (w x.other).node.st.tunnels.get? e.tun.theirIndex = some f ∧
      f.tun.recvKey = e.tun.sendKey ∧ f.peerNode = (w x.other).node.st.mdnsPartner

/-- The tunnels are up and nothing was heard yet. -/
structure Start (w : Side → Reflector) : Prop where
  matching : B.Matching w
  channels : ∀ x, (w x).fwd = [] ∧ ∀ q, (w x).node.st.mdnsReinject = some q → q = []
  silent : ∀ x, (w x).air = [] ∧ (w x).wire = []
  seen : ∀ x, (w x).seen = [] ∧ (w x).handled = []

end Bridge

end TailscaleRust.Firmware.Mdns
