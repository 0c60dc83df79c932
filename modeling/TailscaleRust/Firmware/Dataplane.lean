import TailscaleRust.Core.Disco
import TailscaleRust.Core.Node
import TailscaleRust.Core.Outbound
import TailscaleRust.Core.Wg
import TailscaleRust.Firmware.Proxy
import TailscaleRust.Lib.Table

/-!
# The UDP data plane (`src/dataplane.rs`)

Everything the loop owns is in `State` and `Loop`; a step takes them with
one input and returns them with the datagrams handed to `send_to`, in order.
What the step draws (indices, ephemerals, nonces, sequence numbers), what
the clock shows and how a send ends are arguments, collected in `Draws` for
a received packet and in `Housekeeping` for the periodic work.

The build features are a record of flags. `bench` is not modelled: it
replaces the filter by a measurement harness. Log lines are left out.
-/

namespace TailscaleRust.Firmware.Dataplane

open TailscaleRust.Lib TailscaleRust.Core TailscaleRust.Core.Wg
open TailscaleRust.Core.Icmp (echoReplyAny ihlOf totalOf versionOf)
open TailscaleRust.Core.Outbound TailscaleRust.Core.Tcp

/-- The cargo features that change this file, and the proxy's port. -/
structure Features where
  outbound : Bool
  mdnsForward : Bool
  icmp : Bool
  tcpProxy : Bool
  httpServer : Bool
  birthday : Bool
  proxyListenPort : UInt16

/-- The default build of `Cargo.toml`. -/
def defaultFeatures : Features where
  outbound := true
  mdnsForward := true
  icmp := true
  tcpProxy := false
  httpServer := true
  birthday := true
  proxyListenPort := 0

def pendingTimeoutTicks : UInt32 := 3
def maxStrikes : UInt8 := 3
def maxHsRetries : UInt32 := 4
def maxTunnels : Nat := 8

/-- The inner UDP port of forwarded mDNS, `mdns::FWD_PORT`. -/
def fwdPort : UInt16 := 5354

structure Datagram where
  dst : SocketAddr
  bytes : Bytes
  deriving DecidableEq

/-- A handshake we sent and wait on. -/
structure Pending where
  addr : SocketAddr
  init : Arr initLen
  hs : Handshake
  ourIndex : UInt32
  sentTick : UInt32
  retries : UInt32

/-- An established tunnel, its peer's address and its TCP server. -/
structure TunnelEntry where
  tun : Tunnel
  addr : SocketAddr
  peerNode : Key
  tcp : TcpServer

/-- Device-initiated traffic to one target peer. -/
structure OutboundRun where
  cfg : OutboundCfg
  icmpIdent : UInt16
  icmpSeq : UInt16
  sport : UInt16
  tcp : Option TcpClient
  started : Bool
  httpDone : Bool

/-- `pending` is keyed by the peer's node key, `tunnels` by our receiver
index. `mdnsReinject` holds what was sent on the reinject channel. -/
structure State where
  pending : Table Key Pending
  tunnels : Table UInt32 TunnelEntry
  confirmed : List SocketAddr
  proxy : Proxy.TcpProxy
  outbound : Option OutboundRun
  mdnsReinject : Option (List Bytes)
  mdnsPartner : Key

/-- The state the loop starts from, without outbound target or mDNS link. -/
def State.empty : State where
  pending := Table.empty
  tunnels := Table.empty
  confirmed := []
  proxy := Proxy.TcpProxy.new
  outbound := none
  mdnsReinject := none
  mdnsPartner := Arr.zero 32

/-- What the handling of one packet draws from its surroundings. -/
structure Draws where
  index : UInt32
  ephemeral : Key
  nonce : Arr 24
  unixSecs : UInt64
  unixNanos : UInt32
  serverIss : UInt32
  proxyIss : UInt32
  lanFetch : Bytes → Bytes
  /-- Did the initiation's `send_to` succeed? -/
  sendOk : Bool

/-- Encrypt packets one after the other and address them. -/
def encryptAll (C : Crypto) (tun : Tunnel) (dst : SocketAddr) :
    List Bytes → List Datagram × Tunnel
  | [] => ([], tun)
  | x :: xs =>
      let (pkt, tun) := tun.encrypt C x
      let (out, tun) := encryptAll C tun dst xs
      (⟨dst, pkt⟩ :: out, tun)

/-- Encrypt and send through the tunnel under an index, if it exists. -/
def State.sendInner (C : Crypto) (st : State) (ourIndex : UInt32) (dst : SocketAddr)
    (xs : List Bytes) : State × List Datagram :=
  match st.tunnels.get? ourIndex with
  | none => (st, [])
  | some e =>
      let (out, tun) := encryptAll C e.tun dst xs
      ({ st with tunnels := st.tunnels.modify ourIndex fun e => { e with tun := tun } }, out)

/-- The payload of an IPv4 UDP packet to `port`. -/
def udpPayloadToPort (inner : Bytes) (port : UInt16) : Option Bytes :=
  if inner.length < 20 ∨ versionOf inner ≠ 4 ∨ byteAt inner 9 ≠ protoUdp then none
  else
    let ihl := ihlOf inner
    let total := totalOf inner
    if ihl + 8 > total ∨ total > inner.length then none
    else
      let udp := slice inner ihl total
      if u16be udp 2 ≠ port then none else some (udp.drop 8)

/-! ## Decrypted packets -/

section Decrypted

variable (C : Crypto) (F : Features) (env : Draws)

/-- mDNS from the partner goes to the reinject channel, and nowhere else. -/
def mdnsInput (st : State) (ourIndex : UInt32) (inner : Bytes) : Option State :=
  if F.mdnsForward
      ∧ (st.tunnels.get? ourIndex).map TunnelEntry.peerNode = some st.mdnsPartner then
    match udpPayloadToPort inner fwdPort with
    | none => none
    | some payload =>
        some { st with mdnsReinject := st.mdnsReinject.map fun q => q ++ [payload] }
  else none

/-- Is the tunnel the one our own traffic goes through? -/
def isTarget (st : State) (ourIndex : UInt32) : Bool :=
  match st.tunnels.get? ourIndex, st.outbound with
  | some e, some o => o.cfg.targetNode = e.peerNode
  | _, _ => false

/-- Replies to traffic we initiated: the client's new state, its segments,
and whether the response just became complete. -/
def clientInput (ob : OutboundRun) (inner : Bytes) : OutboundRun × List Bytes × Bool :=
  match ob.tcp with
  | none => (ob, [], false)
  | some tc =>
      if tc.owns inner then
        let (segs, tc) := tc.onInner inner
        let line := tc.done && !ob.httpDone
        ({ ob with tcp := some tc, httpDone := ob.httpDone || line }, segs, line)
      else (ob, [], false)

/-- The outbound branch: the state, the replies, and whether it ended the
packet's handling. -/
def outboundInput (st : State) (ourIndex : UInt32) (inner : Bytes) (src : SocketAddr) :
    State × List Datagram × Bool :=
  if F.outbound ∧ isTarget st ourIndex then
    match st.outbound with
    | none => (st, [], false)
    | some ob =>
        let (ob, segs, line) := clientInput ob inner
        let (st, out) := State.sendInner C { st with outbound := some ob } ourIndex src segs
        (st, out, !segs.isEmpty || line)
  else (st, [], false)

/-- The echo responder. -/
def icmpInput (st : State) (ourIndex : UInt32) (inner : Bytes) (src : SocketAddr) :
    Option (State × List Datagram) :=
  if F.icmp then
    (echoReplyAny inner).map fun reply => st.sendInner C ourIndex src [reply]
  else none

/-- The proxy; a packet it answers goes no further. -/
def proxyInput (st : State) (ourIndex : UInt32) (inner : Bytes) (src : SocketAddr) :
    State × List Datagram × Bool :=
  if F.tcpProxy then
    let (replies, proxy) := st.proxy.handle F.proxyListenPort env.lanFetch inner env.proxyIss
    let st := { st with proxy := proxy }
    if replies = [] then (st, [], false)
    else
      let (st, out) := st.sendInner C ourIndex src replies
      (st, out, true)
  else (st, [], false)

/-- The HTTP server of this tunnel. -/
def httpInput (st : State) (ourIndex : UInt32) (inner : Bytes) (src : SocketAddr) :
    State × List Datagram :=
  if F.httpServer then
    match st.tunnels.get? ourIndex with
    | none => (st, [])
    | some e =>
        let (replies, tcp) := e.tcp.handle inner env.serverIss
        let st := { st with tunnels := st.tunnels.modify ourIndex fun e => { e with tcp := tcp } }
        st.sendInner C ourIndex src replies
  else (st, [])

/-- The handlers behind the filter, in the order of the source. -/
def serviceInput (st : State) (ourIndex : UInt32) (inner : Bytes) (src : SocketAddr) :
    State × List Datagram :=
  match mdnsInput F st ourIndex inner with
  | some st => (st, [])
  | none =>
      let (st, out, handled) := outboundInput C F st ourIndex inner src
      if handled then (st, out)
      else
        match icmpInput C F st ourIndex inner src with
        | some (st, out') => (st, out ++ out')
        | none =>
            let (st, out', handled) := proxyInput C F env st ourIndex inner src
            if handled then (st, out ++ out')
            else
              let (st, out'') := httpInput C F env st ourIndex inner src
              (st, out ++ out' ++ out'')

/-- Handle a decrypted inner packet of the tunnel `ourIndex`. The peer's
address follows the packet before anything is looked at. -/
def handleDecrypted (id : Identity) (st : State) (ourIndex : UInt32) (inner : Bytes)
    (src : SocketAddr) : State × List Datagram :=
  match st.tunnels.get? ourIndex with
  | none => (st, [])
  | some _ =>
      let st := { st with
        tunnels := st.tunnels.modify ourIndex fun e => { e with addr := src } }
      if inner = [] then (st, [])
      else if !srcAllowed id.allowedSrcs inner then (st, [])
      else serviceInput C F env st ourIndex inner src

def handleWgTransport (id : Identity) (st : State) (pkt : Bytes) (src : SocketAddr) :
    State × List Datagram :=
  if pkt.length < 16 then (st, [])
  else
    let ourIndex := u32le pkt 4
    match st.tunnels.get? ourIndex with
    | none => (st, [])
    | some e =>
        match e.tun.decrypt C pkt with
        | .error _ => (st, [])
        | .ok inner => handleDecrypted C F env id st ourIndex inner src

end Decrypted

/-! ## Handshakes -/

/-- Insert a tunnel, dropping any other tunnel to the same address. -/
def insertTunnel (st : State) (ourIndex : UInt32) (tun : Tunnel) (addr : SocketAddr)
    (peerNode : Key) : State :=
  let tunnels := st.tunnels.retain fun _ e => e.addr ≠ addr
  { st with tunnels := tunnels.insert ourIndex ⟨tun, addr, peerNode, TcpServer.new⟩ }

section Handshakes

variable (C : Crypto) (env : Draws)

/-- Start a handshake on a confirmed path, unless one is in flight, a tunnel
to the address exists, or the cap is reached. -/
def maybeStartHandshake (id : Identity) (targets : List Target) (st : State)
    (tick : UInt32) (discoPub : Key) (src : SocketAddr) : State × List Datagram :=
  match targets.find? fun t => t.discoPub = discoPub with
  | none => (st, [])
  | some target =>
      if st.pending.contains target.nodePub
          ∨ st.tunnels.values.any (fun e => e.addr = src)
          ∨ st.tunnels.size + st.pending.size ≥ maxTunnels then (st, [])
      else
        let ts := tai64n env.unixSecs env.unixNanos
        let (msg, hs) := buildInitiation C id.nodePriv id.nodePub target.nodePub ts
          env.index env.ephemeral
        let p : Pending :=
          { addr := src, init := msg, hs := hs, ourIndex := env.index
            sentTick := tick, retries := 0 }
        let st :=
          if env.sendOk then { st with pending := st.pending.insert target.nodePub p }
          else st
        (st, [⟨src, msg.1⟩])

/-- A peer initiated: respond and add the tunnel. -/
def handleWgInit (id : Identity) (st : State) (pkt : Bytes) (src : SocketAddr) :
    State × List Datagram :=
  match consumeInitiation C id.nodePriv id.nodePub pkt env.index env.ephemeral with
  | .error _ => (st, [])
  | .ok (resp, tun, peerStatic) =>
      (insertTunnel st env.index tun src peerStatic, [⟨src, resp.1⟩])

/-- A response: take the pending handshake it names out of the table, and
complete it if the response is good. -/
def handleWgResponse (st : State) (pkt : Bytes) (src : SocketAddr) :
    State × List Datagram :=
  if pkt.length < 12 then (st, [])
  else
    match st.pending.find? fun _ p => p.ourIndex = u32le pkt 8 with
    | none => (st, [])
    | some (key, p) =>
        let st := { st with pending := st.pending.erase key }
        match p.hs.consumeResponse C pkt with
        | .error _ => (st, [])
        | .ok tun =>
            let (ka, tun) := tun.keepalive C
            (insertTunnel st p.ourIndex tun src key, [⟨src, ka⟩])

end Handshakes

/-! ## One received datagram -/

section Packet

variable (C : Crypto) (F : Features) (env : Draws)

def handleDisco (id : Identity) (targets : List Target) (st : State) (tick : UInt32)
    (pkt : Bytes) (src : SocketAddr) : State × List Datagram :=
  match Disco.openPacket C id.discoPriv pkt with
  | .error _ => (st, [])
  | .ok msg =>
      if msg.msgType = Disco.ping then
        match Disco.sealPacket C id.discoPriv id.discoPub msg.senderDiscoPub
            (Disco.pongPlaintext msg.txid src) env.nonce with
        | .error _ => (st, [])
        | .ok reply => (st, [⟨src, reply⟩])
      else if msg.msgType = Disco.pong then
        let st := { st with confirmed := st.confirmed.insert src }
        maybeStartHandshake C env id targets st tick msg.senderDiscoPub src
      else (st, [])

/-- Tell the kinds of datagram apart: disco by its magic, STUN by its
cookie, WireGuard by its type byte. -/
def handlePacket (id : Identity) (targets : List Target) (st : State) (tick : UInt32)
    (pkt : Bytes) (src : SocketAddr) : State × List Datagram :=
  if Disco.isDisco pkt then handleDisco C env id targets st tick pkt src
  else if Stun.isStun pkt then (st, [])
  else if pkt.head? = some msgInitiation then handleWgInit C env id st pkt src
  else if pkt.head? = some msgResponse then handleWgResponse C st pkt src
  else if pkt.head? = some msgTransport then handleWgTransport C F env id st pkt src
  else (st, [])

/-- The dual-core entry run on its own: transport packets first, by a copy
of the tunnel's receive key, everything else as on one core. -/
def processPacket (id : Identity) (targets : List Target) (st : State) (tick : UInt32)
    (pkt : Bytes) (src : SocketAddr) : State × List Datagram :=
  if pkt.head? = some msgTransport ∧ pkt.length ≥ 16 then
    let idx := u32le pkt 4
    match (st.tunnels.get? idx).map fun e => e.tun.recvKey with
    | none => (st, [])
    | some key =>
        match decryptTransport C key pkt with
        | none => (st, [])
        | some inner => handleDecrypted C F env id st idx inner src
  else handlePacket C F env id targets st tick pkt src

end Packet

end TailscaleRust.Firmware.Dataplane
