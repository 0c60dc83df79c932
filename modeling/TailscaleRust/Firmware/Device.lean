import TailscaleRust.Firmware.Startup

/-!
# The device (`src/main.rs`)

`main` starts the data plane and the relay client as threads that share
nothing but the upgrade channel: the relay client puts targets on it, and the
periodic step of the data plane takes off it what `try_recv` finds. The
threads take their steps in any order, and the relay client may lose its
connection and start over between any two of them. A step of the periodic
work may find less than was put on the channel, as the other thread may still
be at it.
-/

namespace TailscaleRust.Firmware

open TailscaleRust.Lib TailscaleRust.Core TailscaleRust.Core.Peers TailscaleRust.Core.Tcp
open TailscaleRust.Firmware.Dataplane TailscaleRust.Firmware.Derp TailscaleRust.Firmware.Startup

/-- What is fixed once the threads run. -/
structure Device where
  host : Host
  upgrade : Option Upgrade

/-- The state of the two threads, and what is on the channel between them. -/
structure DeviceState where
  node : NodeState
  relay : ServeState
  channel : List Target

/-- A step of one of the threads. -/
inductive DeviceEvent where
  | node (found : Nat) (ev : Input)
  | frame (f : RelayFrame)
  | reconnect

/-- The input of the data plane with the first targets of the channel, and what
is left there: only the periodic step takes any. -/
def takeTargets (found : Nat) (channel : List Target) : Input → Input × List Target
  | .periodic tick hk stunAddr =>
      (.periodic tick { hk with incoming := channel.take found } stunAddr, channel.drop found)
  | ev => (ev, channel)

namespace Device

variable (D : Device)

/-- One step, with the datagrams it sends and the packets for the relay. -/
def step (s : DeviceState) : DeviceEvent → DeviceState × List Datagram × List Packet
  | .node found ev =>
      let (ev, channel) := takeTargets found s.channel ev
      let (node, out) := D.host.step s.node ev
      ({ s with node := node, channel := channel }, out, [])
  | .frame f =>
      let (relay, sends) :=
        serveFrame D.host.crypto D.host.features f.env D.host.identity D.upgrade s.relay f.typ
          f.payload
      ({ s with relay := relay, channel := s.channel ++ sends.targets }, [], sends.packets)
  | .reconnect => ({ s with relay := ServeState.empty }, [], [])

def after (s : DeviceState) : List DeviceEvent → DeviceState
  | [] => s
  | e :: es => after (D.step s e).1 es

end Device

/-! ## The start -/

/-- What `main` has found out when it starts the threads: the netmap, our own
addresses, and what the configuration says of the two optional links. -/
structure Netmap where
  peers : List PeerInfo
  allowedSrcs : Option (List Cidr)
  ourIp : Option Bytes
  lanIp : Ipv4Addr
  endpoints : List Bytes
  outboundIp : Bytes
  httpPort : UInt16
  httpPath : Bytes
  partnerIp : Bytes

section Start

variable (C : Crypto) (F : Features) (keys : Keys.NodeKeys) (m : Netmap)

def Netmap.outbound : Option OutboundCfg :=
  if F.outbound then buildOutboundCfg m.outboundIp m.httpPort m.httpPath m.peers m.ourIp else none

def Netmap.mdns : Option MdnsLink :=
  if F.mdnsForward then buildMdnsLink m.partnerIp m.peers m.ourIp (dotted m.lanIp) else none

/-- The threads as `main` starts them; the two flags are the features of their
names. -/
def deviceOf (packetFilter derpUpgrade : Bool) : Device where
  host := runHost C F (identityOf keys (if packetFilter then m.allowedSrcs else none)) (m.mdns F)
  upgrade := if derpUpgrade then some (buildUpgrade m.peers m.endpoints) else none

def deviceStart (ident sport : UInt16) (now : Nat) : DeviceState where
  node := runStart (buildLanTargets m.peers (dotted m.lanIp)) (m.outbound F) (m.mdns F) ident sport
    now
  relay := ServeState.empty
  channel := []

end Start

end TailscaleRust.Firmware
