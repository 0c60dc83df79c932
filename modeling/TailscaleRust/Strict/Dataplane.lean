import TailscaleRust.Firmware.Derp
import TailscaleRust.Firmware.Periodic
import TailscaleRust.Strict.Handshake
import TailscaleRust.Strict.Packets

/-!
# The two data planes with their checks

What a received datagram and a frame of the relay go through, on top of the
packet and handshake code with checks. The log lines stay out, but not what
is read for them. `lock().unwrap()` fails only after a panic of the other
thread, so it has no check of its own. The port arithmetic of the spray is
here too, on `i32`.
-/

namespace TailscaleRust.Strict

open TailscaleRust.Lib TailscaleRust.Lib.Checked TailscaleRust.Core TailscaleRust.Core.Wg
open TailscaleRust.Core.Outbound (TcpClient)
open TailscaleRust.Firmware TailscaleRust.Firmware.Dataplane

/-! ## Decrypted packets -/

section Decrypted

variable (C : Crypto) (F : Features) (env : Draws)

def encryptAll (tun : Tunnel) (dst : SocketAddr) : List Bytes → Checked (List Datagram × Tunnel)
  | [] => return ([], tun)
  | x :: xs => do
      let (pkt, tun) ← Tunnel.encrypt C tun x
      let (out, tun) ← encryptAll tun dst xs
      return (⟨dst, pkt⟩ :: out, tun)

def sendInner (st : State) (ourIndex : UInt32) (dst : SocketAddr) (xs : List Bytes) :
    Checked (State × List Datagram) := do
  match st.tunnels.get? ourIndex with
  | none => return (st, [])
  | some e =>
      let (out, tun) ← encryptAll C e.tun dst xs
      return ({ st with
        tunnels := st.tunnels.modify ourIndex fun e => { e with tun := tun } }, out)

def mdnsInput (st : State) (ourIndex : UInt32) (inner : Bytes) : Checked (Option State) := do
  if F.mdnsForward
      ∧ (st.tunnels.get? ourIndex).map TunnelEntry.peerNode = some st.mdnsPartner then
    match ← udpPayloadToPort inner fwdPort with
    | none => return none
    | some payload =>
        return some { st with mdnsReinject := st.mdnsReinject.map fun q => q ++ [payload] }
  else return none

/-- What is read to log an echo reply. The type byte is read with `get`. -/
def echoReplyLog (inner : Bytes) : Checked Unit := do
  if inner.length ≥ 28 then
    if (← index inner 9) = 1 then
      let _ ← ihlOf inner

def clientInput (ob : OutboundRun) (inner : Bytes) :
    Checked (OutboundRun × List Bytes × Bool) := do
  match ob.tcp with
  | none => return (ob, [], false)
  | some tc =>
      if ← TcpClient.owns tc inner then
        let (segs, tc) ← TcpClient.onInner tc inner
        let line := tc.done && !ob.httpDone
        return ({ ob with tcp := some tc, httpDone := ob.httpDone || line }, segs, line)
      else return (ob, [], false)

def outboundInput (st : State) (ourIndex : UInt32) (inner : Bytes) (src : SocketAddr) :
    Checked (State × List Datagram × Bool) := do
  if F.outbound ∧ isTarget st ourIndex then
    echoReplyLog inner
    match st.outbound with
    | none => return (st, [], false)
    | some ob =>
        let (ob, segs, line) ← clientInput ob inner
        let (st, out) ← sendInner C { st with outbound := some ob } ourIndex src segs
        return (st, out, !segs.isEmpty || line)
  else return (st, [], false)

def icmpInput (st : State) (ourIndex : UInt32) (inner : Bytes) (src : SocketAddr) :
    Checked (Option (State × List Datagram)) := do
  if F.icmp then
    match ← echoReplyAny inner with
    | none => return none
    | some reply => return some (← sendInner C st ourIndex src [reply])
  else return none

def proxyInput (st : State) (ourIndex : UInt32) (inner : Bytes) (src : SocketAddr) :
    Checked (State × List Datagram × Bool) := do
  if F.tcpProxy then
    let (replies, proxy) ←
      TcpProxy.handle F.proxyListenPort env.lanFetch st.proxy inner env.proxyIss
    let st := { st with proxy := proxy }
    if replies = [] then return (st, [], false)
    let (st, out) ← sendInner C st ourIndex src replies
    return (st, out, true)
  else return (st, [], false)

def httpInput (st : State) (ourIndex : UInt32) (inner : Bytes) (src : SocketAddr) :
    Checked (State × List Datagram) := do
  if F.httpServer then
    match st.tunnels.get? ourIndex with
    | none => return (st, [])
    | some e =>
        let (replies, tcp) ← TcpServer.handle e.tcp inner env.serverIss
        let st := { st with tunnels := st.tunnels.modify ourIndex fun e => { e with tcp := tcp } }
        sendInner C st ourIndex src replies
  else return (st, [])

def serviceInput (st : State) (ourIndex : UInt32) (inner : Bytes) (src : SocketAddr) :
    Checked (State × List Datagram) := do
  match ← mdnsInput F st ourIndex inner with
  | some st => return (st, [])
  | none =>
      let (st, out, handled) ← outboundInput C F st ourIndex inner src
      if handled then return (st, out)
      match ← icmpInput C F st ourIndex inner src with
      | some (st, out') => return (st, out ++ out')
      | none =>
          let (st, out', handled) ← proxyInput C F env st ourIndex inner src
          if handled then return (st, out ++ out')
          let (st, out'') ← httpInput C F env st ourIndex inner src
          return (st, out ++ out' ++ out'')

def handleDecrypted (id : Identity) (st : State) (ourIndex : UInt32) (inner : Bytes)
    (src : SocketAddr) : Checked (State × List Datagram) := do
  match st.tunnels.get? ourIndex with
  | none => return (st, [])
  | some _ =>
      let st := { st with
        tunnels := st.tunnels.modify ourIndex fun e => { e with addr := src } }
      if inner = [] then return (st, [])
      if !(← srcAllowed id.allowedSrcs inner) then return (st, [])
      serviceInput C F env st ourIndex inner src

def handleWgTransport (id : Identity) (st : State) (pkt : Bytes) (src : SocketAddr) :
    Checked (State × List Datagram) := do
  if pkt.length < 16 then return (st, [])
  let ourIndex ← u32leOf pkt 4
  match st.tunnels.get? ourIndex with
  | none => return (st, [])
  | some e =>
      match ← Tunnel.decrypt C e.tun pkt with
      | .error _ => return (st, [])
      | .ok inner => handleDecrypted C F env id st ourIndex inner src

end Decrypted

/-! ## Handshakes -/

section Handshakes

variable (C : Crypto) (env : Draws)

def maybeStartHandshake (id : Identity) (targets : List Target) (st : State) (tick : UInt32)
    (discoPub : Key) (src : SocketAddr) : Checked (State × List Datagram) := do
  match targets.find? fun t => t.discoPub = discoPub with
  | none => return (st, [])
  | some target =>
      if st.pending.contains target.nodePub
          ∨ st.tunnels.values.any (fun e => e.addr = src) then
        return (st, [])
      if (← addUsize st.tunnels.size st.pending.size) ≥ maxTunnels then return (st, [])
      let ts ← tai64n env.unixSecs env.unixNanos
      let (msg, hs) ← buildInitiation C id.nodePriv id.nodePub target.nodePub ts env.index
        env.ephemeral
      let p : Pending :=
        { addr := src, init := msg, hs := hs, ourIndex := env.index
          sentTick := tick, retries := 0 }
      let st :=
        if env.sendOk then { st with pending := st.pending.insert target.nodePub p }
        else st
      return (st, [⟨src, msg.1⟩])

def handleWgInit (id : Identity) (st : State) (pkt : Bytes) (src : SocketAddr) :
    Checked (State × List Datagram) := do
  match ← consumeInitiation C id.nodePriv id.nodePub pkt env.index env.ephemeral with
  | .error _ => return (st, [])
  | .ok (resp, tun, peerStatic) =>
      return (insertTunnel st env.index tun src peerStatic, [⟨src, resp.1⟩])

def handleWgResponse (st : State) (pkt : Bytes) (src : SocketAddr) :
    Checked (State × List Datagram) := do
  if pkt.length < 12 then return (st, [])
  let recv ← u32leOf pkt 8
  match (st.pending.find? fun _ p => p.ourIndex = recv).map Prod.fst with
  | none => return (st, [])
  | some key =>
      let p ← unwrap (st.pending.get? key)
      let st := { st with pending := st.pending.erase key }
      match ← Handshake.consumeResponse C p.hs pkt with
      | .error _ => return (st, [])
      | .ok tun =>
          let (ka, tun) ← Tunnel.encrypt C tun []
          return (insertTunnel st p.ourIndex tun src key, [⟨src, ka⟩])

end Handshakes

/-! ## One received datagram -/

section Packet

variable (C : Crypto) (F : Features) (env : Draws)

def handleDisco (id : Identity) (targets : List Target) (st : State) (tick : UInt32)
    (pkt : Bytes) (src : SocketAddr) : Checked (State × List Datagram) := do
  match ← openPacket C id.discoPriv pkt with
  | .error _ => return (st, [])
  | .ok msg =>
      if msg.msgType = Disco.ping then
        let pt ← pongPlaintext msg.txid src
        match ← sealPacket C id.discoPriv id.discoPub msg.senderDiscoPub pt env.nonce with
        | .error _ => return (st, [])
        | .ok reply => return (st, [⟨src, reply⟩])
      else if msg.msgType = Disco.pong then
        let st := { st with confirmed := st.confirmed.insert src }
        maybeStartHandshake C env id targets st tick msg.senderDiscoPub src
      else return (st, [])

/-- Is the source outside the LAN? -/
def isRemote : SocketAddr → Bool
  | .v4 ip _ => !(byteAt ip.1 0 = 192 ∧ byteAt ip.1 1 = 168)
  | .v6 .. => true

/-- What is read to log a datagram from there. -/
def remoteLog (pkt : Bytes) (src : SocketAddr) : Checked Unit := do
  if isRemote src then
    if !(← isStun pkt) then
      let _ ← isDisco pkt

def handlePacket (id : Identity) (targets : List Target) (st : State) (tick : UInt32)
    (pkt : Bytes) (src : SocketAddr) : Checked (State × List Datagram) := do
  remoteLog pkt src
  if ← isDisco pkt then handleDisco C env id targets st tick pkt src
  else if ← isStun pkt then return (st, [])
  else if pkt.head? = some msgInitiation then handleWgInit C env id st pkt src
  else if pkt.head? = some msgResponse then handleWgResponse C st pkt src
  else if pkt.head? = some msgTransport then handleWgTransport C F env id st pkt src
  else return (st, [])

def processPacket (id : Identity) (targets : List Target) (st : State) (tick : UInt32)
    (pkt : Bytes) (src : SocketAddr) : Checked (State × List Datagram) := do
  if pkt.head? = some msgTransport ∧ pkt.length ≥ 16 then
    let idx ← u32leOf pkt 4
    match (st.tunnels.get? idx).map fun e => e.tun.recvKey with
    | none => return (st, [])
    | some key =>
        match ← decryptTransport C key pkt with
        | none => return (st, [])
        | some inner => handleDecrypted C F env id st idx inner src
  else handlePacket C F env id targets st tick pkt src

end Packet

/-! ## One frame of the relay -/

section Relay

open TailscaleRust.Firmware.Derp

variable (C : Crypto) (F : Features) (env : FrameDraws)

/-- `send_packet` puts the destination in front. -/
def sendPacket (dst : Key) (pkt : Bytes) : Checked Packet := do
  let _ ← addUsize 32 pkt.length
  return ⟨dst, pkt⟩

def tryUpgrade (id : Identity) (up : Upgrade) (src : Key) : Checked Sends := do
  match up.peers.find? fun p => p.nodePub = src with
  | none => return Sends.none
  | some peer =>
      if peer.endpoints = [] ∧ up.ourEndpoints = [] then return Sends.none
      let cmm ← callMeMaybePlaintext up.ourEndpoints
      let target : Target :=
        { name := "derp:" ++ hex8 src.1, discoPub := peer.discoPub
          nodePub := src, endpoints := peer.endpoints, spray := true }
      match ← sealPacket C id.discoPriv id.discoPub peer.discoPub cmm env.upgradeNonce with
      | .ok wire => return ⟨[← sendPacket src wire], [target]⟩
      | .error _ => return ⟨[], [target]⟩

def serveDisco (id : Identity) (upgrade : Option Upgrade) (src : Key) (pkt : Bytes) :
    Checked Sends := do
  match ← openPacket C id.discoPriv pkt with
  | .error _ => return Sends.none
  | .ok msg =>
      if msg.msgType = Disco.ping then
        let pong ← pongPlaintext msg.txid (.v4 (Arr.zero 4) 0)
        match ← sealPacket C id.discoPriv id.discoPub msg.senderDiscoPub pong env.nonce with
        | .error _ => return Sends.none
        | .ok wire => return ⟨[← sendPacket src wire], []⟩
      else if msg.msgType = Disco.callMeMaybe ∧ msg.endpoints ≠ [] ∧ upgrade.isSome then
        return ⟨[], [{ name := "derp:" ++ hex8 src.1, discoPub := msg.senderDiscoPub
                       nodePub := src, endpoints := msg.endpoints, spray := true }]⟩
      else return Sends.none

def relayAll (tun : Tunnel) (dst : Key) : List Bytes → Checked (List Packet × Tunnel)
  | [] => return ([], tun)
  | x :: xs => do
      let (pkt, tun) ← Tunnel.encrypt C tun x
      let sent ← sendPacket dst pkt
      let (out, tun) ← relayAll tun dst xs
      return (sent :: out, tun)

/-- The HTTP server behind the filter. -/
def relayHttp (p : DerpPeer) (src : Key) (inner : Bytes) : Checked (DerpPeer × List Packet) := do
  if F.httpServer then
    let (replies, tcp) ← TcpServer.handle p.tcp inner env.serverIss
    let (out, tun) ← relayAll C p.tun src replies
    return ({ tun := tun, tcp := tcp }, out)
  else return (p, [])

def handleInner (p : DerpPeer) (src : Key) (inner : Bytes) : Checked (DerpPeer × List Packet) := do
  if F.icmp then
    match ← echoReplyAny inner with
    | some reply =>
        let (out, tun) ← relayAll C p.tun src [reply]
        return ({ p with tun := tun }, out)
    | none => relayHttp C F env p src inner
  else relayHttp C F env p src inner

def serveTransport (id : Identity) (st : ServeState) (src : Key) (pkt : Bytes) :
    Checked (ServeState × List Packet) := do
  match st.peers.get? src with
  | none => return (st, [])
  | some p =>
      match ← Tunnel.decrypt C p.tun pkt with
      | .error _ => return (st, [])
      | .ok inner =>
          if inner = [] then return (st, [])
          if ← srcAllowed id.allowedSrcs inner then
            let (p, out) ← handleInner C F env p src inner
            return ({ st with peers := st.peers.modify src fun _ => p }, out)
          else return (st, [])

def serveInit (id : Identity) (st : ServeState) (src : Key) (pkt : Bytes) :
    Checked (ServeState × List Packet) := do
  match ← consumeInitiation C id.nodePriv id.nodePub pkt env.index env.ephemeral with
  | .error _ => return (st, [])
  | .ok (resp, tun, _) =>
      let sent ← sendPacket src resp.1
      return ({ st with peers := st.peers.insert src ⟨tun, Tcp.TcpServer.new⟩ }, [sent])

/-- `upgraded.insert(src)` and what it leads to. -/
def firstContact (id : Identity) (upgrade : Option Upgrade) (st : ServeState) (src : Key) :
    Checked (ServeState × Sends) := do
  match upgrade with
  | none => return (st, Sends.none)
  | some up =>
      if st.upgraded.contains src then return (st, Sends.none)
      let sends ← tryUpgrade C env id up src
      return ({ st with upgraded := src :: st.upgraded }, sends)

/-- The branches on the type of a WireGuard message. -/
def serveWg (id : Identity) (st : ServeState) (src : Key) (pkt : Bytes) :
    Checked (ServeState × List Packet) :=
  if byteAt pkt 0 = msgInitiation then serveInit C env id st src pkt
  else if byteAt pkt 0 = msgTransport then serveTransport C F env id st src pkt
  else return (st, [])

def serveFrame (id : Identity) (upgrade : Option Upgrade) (st : ServeState) (typ : UInt8)
    (payload : Bytes) : Checked (ServeState × Sends) := do
  if typ ≠ frameRecvPacket ∨ payload.length < 32 then return (st, Sends.none)
  let src ← toArray 32 (← range payload 0 32)
  let pkt ← rangeFrom payload 32
  if pkt = [] then return (st, Sends.none)
  let (st, first) ← firstContact C env id upgrade st src
  if ← isDisco pkt then
    let s ← serveDisco C env id upgrade src pkt
    return (st, ⟨first.packets ++ s.packets, first.targets ++ s.targets⟩)
  else
    let (st, out) ← serveWg C F env id st src pkt
    return (st, ⟨first.packets ++ out, first.targets⟩)

end Relay

/-! ## The spray -/

/-- `tick / 2` is below 2^31, so the cast to `i32` keeps it. -/
def birthdayPorts (base : UInt16) (tick : UInt32) (tail : List UInt16) :
    Checked (List UInt16) := do
  let round : Int := (tick / 2).toNat
  let step := (← toI32 (round + 1)).tdiv 2
  let dir : Int := if round % 2 = 0 then 1 else -1
  let center ← toI32 (base.toNat + (← toI32 ((← toI32 (dir * step)) * sweepWin)))
  let window ← (List.range sweepWin.toNat).mapM fun (d : Nat) => do
    let p ← toI32 ((← toI32 (center - sweepWin / 2)) + d)
    return if 1024 ≤ p ∧ p ≤ 65535 then some (UInt16.ofNat p.toNat) else none
  return window.filterMap id ++ tail.filter fun p => p ≥ 1024

end TailscaleRust.Strict
