import TailscaleRust.Firmware.Dataplane

/-!
# The periodic work of the data plane (`src/dataplane.rs`)

`run_periodic` and `mdns_drain`. The loops of the source over its hash maps
become folds over tables, and the loops over targets and endpoints become
recursions that thread the strike counters and the datagrams sent so far;
the number of the latter says which result of `send_to` comes next.
-/

namespace TailscaleRust.Firmware.Dataplane

open TailscaleRust.Lib TailscaleRust.Core TailscaleRust.Core.Wg
open TailscaleRust.Core.Outbound TailscaleRust.Core.Tcp

/-- The variables of the loop beside `State`; times are in milliseconds. -/
structure Loop where
  targets : List Target
  strikes : Table SocketAddr UInt8
  lastProbe : Nat
  lastStun : Nat
  probeRound : UInt32

/-- What one periodic step finds and draws. Draws are numbered by target
and, for the spray, by endpoint; send results by the order of the sends. -/
structure Housekeeping where
  now : Nat
  incoming : List Target
  txid : Nat → Arr 12
  nonce : Nat → Arr 24
  sprayTail : Nat → Nat → List UInt16
  sendOk : Nat → Bool
  clientRand : UInt32
  stunTxid : Arr 12

/-! ## Targets added at runtime -/

/-- Append the endpoints that are not there yet. -/
def addEndpoints (existing new : List SocketAddr) : List SocketAddr :=
  new.foldl (fun eps ep => if eps.contains ep then eps else eps ++ [ep]) existing

def mergeTarget : List Target → Target → List Target
  | [], t => [t]
  | e :: rest, t =>
      if e.nodePub = t.nodePub then
        { e with endpoints := addEndpoints e.endpoints t.endpoints
                 spray := e.spray || t.spray } :: rest
      else e :: mergeTarget rest t

/-! ## Handshake retry -/

/-- One pending handshake: dropped when its address has a tunnel or its
retries are used up, resent verbatim when it timed out. -/
def retryPending (tunnels : Table UInt32 TunnelEntry) (tick : UInt32) (p : Pending) :
    Option Pending × List Datagram :=
  if tunnels.values.any fun e => e.addr = p.addr then (none, [])
  else if tick - p.sentTick > pendingTimeoutTicks then
    if p.retries ≥ maxHsRetries then (none, [])
    else (some { p with sentTick := tick, retries := p.retries + 1 }, [⟨p.addr, p.init.1⟩])
  else (some p, [])

def retryAll (st : State) (tick : UInt32) : State × List Datagram :=
  ({ st with pending := st.pending.filterMap fun _ p => (retryPending st.tunnels tick p).1 },
    st.pending.values.flatMap fun p => (retryPending st.tunnels tick p).2)

/-! ## Probing -/

section Spray

def sweepWin : Int := 1024

/-- Wrapping `i32` arithmetic. -/
def i32 (x : Int) : Int := Int.bmod x (2 ^ 32)

/-- The ports of one spray round: a window that walks outward from `base`,
then the drawn tail. -/
def birthdayPorts (base : UInt16) (tick : UInt32) (tail : List UInt16) : List UInt16 :=
  let round : Int := (tick / 2).toNat
  let step := (i32 (round + 1)).tdiv 2
  let dir : Int := if round % 2 = 0 then 1 else -1
  let center := i32 (base.toNat + i32 (i32 (dir * step) * sweepWin))
  let window := (List.range sweepWin.toNat).filterMap fun d =>
    let p := i32 (i32 (center - sweepWin / 2) + d)
    if 1024 ≤ p ∧ p ≤ 65535 then some (UInt16.ofNat p.toNat) else none
  window ++ tail.filter fun p => p ≥ 1024

/-- Globally routable IPv4. -/
def isPublicV4 (ip : Ipv4Addr) : Bool :=
  let a := byteAt ip.1 0
  let b := byteAt ip.1 1
  !(a = 10 ∨ (a = 172 ∧ 16 ≤ b ∧ b ≤ 31) ∨ (a = 192 ∧ b = 168) ∨ (a = 169 ∧ b = 254)
    ∨ a = 127 ∨ (a = 100 ∧ 64 ≤ b ∧ b ≤ 127) ∨ a = 0)

def sprayEndpoint (pkt : Bytes) (round : UInt32) (tail : List UInt16) :
    SocketAddr → List Datagram
  | .v4 ip port =>
      if isPublicV4 ip then (birthdayPorts port round tail).map fun p => ⟨.v4 ip p, pkt⟩
      else []
  | .v6 .. => []

end Spray

section Probe

variable (C : Crypto) (F : Features) (hk : Housekeeping)

/-- Probe the endpoints of one target; an endpoint that keeps failing is
given up. -/
def probeEndpoints (pkt : Bytes) : List SocketAddr → Table SocketAddr UInt8 →
    List Datagram → Table SocketAddr UInt8 × List Datagram
  | [], strikes, out => (strikes, out)
  | ep :: eps, strikes, out =>
      let s := (strikes.get? ep).getD 0
      if s ≥ maxStrikes then probeEndpoints pkt eps (strikes.insert ep s) out
      else
        let s := if hk.sendOk out.length then 0 else s + 1
        probeEndpoints pkt eps (strikes.insert ep s) (out ++ [⟨ep, pkt⟩])

/-- Endpoints sprayed with the ping already sealed. -/
def sprayTarget (tunnels : Table UInt32 TunnelEntry) (t : Target) (n : Nat) (pkt : Bytes)
    (round : UInt32) : List Datagram :=
  if F.birthday ∧ t.spray
      ∧ ¬ tunnels.values.any (fun e => t.endpoints.any fun ep => ep.ip = e.addr.ip) then
    (t.endpoints.mapIdx fun i ep => sprayEndpoint pkt round (hk.sprayTail n i) ep).flatten
  else []

def probeTargets (id : Identity) (tunnels : Table UInt32 TunnelEntry) (round : UInt32) :
    Nat → List Target → Table SocketAddr UInt8 → List Datagram →
    Table SocketAddr UInt8 × List Datagram
  | _, [], strikes, out => (strikes, out)
  | n, t :: ts, strikes, out =>
      if t.endpoints.any fun ep => tunnels.values.any fun e => e.addr = ep then
        probeTargets id tunnels round (n + 1) ts strikes out
      else
        match Disco.sealPacket C id.discoPriv id.discoPub t.discoPub
            (Disco.pingPlaintext (hk.txid n) id.nodePub) (hk.nonce n) with
        | .error _ => probeTargets id tunnels round (n + 1) ts strikes out
        | .ok pkt =>
            let (strikes, out) := probeEndpoints hk pkt t.endpoints strikes out
            let out := out ++ sprayTarget F hk tunnels t n pkt round
            probeTargets id tunnels round (n + 1) ts strikes out

/-- A keepalive through every tunnel. -/
def keepaliveAll (st : State) : State × List Datagram :=
  ({ st with tunnels := st.tunnels.mapValues fun e => { e with tun := (e.tun.keepalive C).2 } },
    st.tunnels.values.map fun e => ⟨e.addr, (e.tun.keepalive C).1⟩)

/-- The request of the outbound client. -/
def httpGet (cfg : OutboundCfg) : Bytes :=
  ascii "GET " ++ cfg.httpPath ++ ascii " HTTP/1.1\r\nHost: " ++ dotted cfg.targetIp
    ++ ascii "\r\nUser-Agent: tdongle\r\nConnection: close\r\n\r\n"

/-- Ping the outbound target and, once, open the HTTP connection. -/
def outboundKick (ob : OutboundRun) : OutboundRun × List Bytes :=
  let ob := { ob with icmpSeq := ob.icmpSeq + 1 }
  let req := icmpEchoRequest ob.cfg.ourIp ob.cfg.targetIp ob.icmpIdent ob.icmpSeq
    (ascii "tdongle-s3")
  if ob.started then (ob, [req])
  else
    let c := TcpClient.new ob.cfg.ourIp ob.cfg.targetIp ob.sport ob.cfg.httpPort
      (httpGet ob.cfg) hk.clientRand
    let (synPkt, c) := c.openSyn
    ({ ob with started := true, tcp := some c }, [req, synPkt])

def outboundPeriodic (st : State) : State × List Datagram :=
  match st.outbound with
  | none => (st, [])
  | some ob =>
      match st.tunnels.find? fun _ e => e.peerNode = ob.cfg.targetNode with
      | none => (st, [])
      | some (idx, e) =>
          let (ob, pkts) := outboundKick hk ob
          State.sendInner C { st with outbound := some ob } idx e.addr pkts

end Probe

/-- The whole periodic step. -/
def runPeriodic (C : Crypto) (F : Features) (hk : Housekeeping) (id : Identity)
    (st : State) (lp : Loop) (tick : UInt32) (stunAddr : Option SocketAddr) :
    State × Loop × List Datagram :=
  let targets := hk.incoming.foldl mergeTarget lp.targets
  let lp := { lp with targets := targets }
  let (st, retries) := retryAll st tick
  let (st, lp, probed) :=
    if hk.now - lp.lastProbe ≥ 2000 then
      let round := lp.probeRound + 1
      let (strikes, out) :=
        probeTargets C F hk id st.tunnels round 0 targets lp.strikes retries
      let (st, kas) := keepaliveAll C st
      let (st, obs) := if F.outbound then outboundPeriodic C hk st else (st, [])
      let lp := { lp with lastProbe := hk.now, probeRound := round, strikes := strikes }
      (st, lp, out ++ kas ++ obs)
    else (st, lp, retries)
  if hk.now - lp.lastStun ≥ 15000 then
    let stun := stunAddr.toList.map fun a => ⟨a, Stun.bindingRequest hk.stunTxid⟩
    (st, { lp with lastStun := hk.now }, probed ++ stun)
  else (st, lp, probed)

/-- Forward the captured mDNS payloads to the partner over its tunnel. -/
def mdnsDrain (C : Crypto) (ourIp partnerIp : Ipv4Addr) (partnerNode : Key) :
    List Bytes → State → State × List Datagram
  | [], st => (st, [])
  | payload :: rest, st =>
      match st.tunnels.find? fun _ e => e.peerNode = partnerNode with
      | none => mdnsDrain C ourIp partnerIp partnerNode rest st
      | some (idx, e) =>
          let inner := udpDatagram ourIp partnerIp fwdPort fwdPort payload
          let (st, out) := st.sendInner C idx e.addr [inner]
          let (st, out') := mdnsDrain C ourIp partnerIp partnerNode rest st
          (st, out ++ out')

end TailscaleRust.Firmware.Dataplane
