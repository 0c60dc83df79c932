import TailscaleRust.Core.AddrText
import TailscaleRust.Firmware.Derp
import TailscaleRust.Firmware.Keys
import TailscaleRust.Firmware.NodeRun
import TailscaleRust.Lib.Text

/-!
# From the netmap to the data plane (`src/main.rs`, `src/dataplane.rs`)

What `main` makes of the peer list before it starts the threads, and the
state `dataplane::run` sets up from it before its loop. Text is its UTF-8
bytes. The configuration is not part of the repository; the constants used
here are arguments. Channels and threads are left out: a link is what is
resolved for it.
-/

namespace TailscaleRust.Firmware.Startup

open TailscaleRust.Lib TailscaleRust.Core TailscaleRust.Core.AddrText TailscaleRust.Core.Peers
open TailscaleRust.Firmware.Dataplane

/-- `str::rsplit_once`. -/
def rsplitOnce (sep : UInt8) (s : Bytes) : Option (Bytes × Bytes) :=
  (splitOnce sep s.reverse).map fun p => (p.2.reverse, p.1.reverse)

/-- The peers with endpoints on our /24, told by the text of the endpoint. -/
def buildLanTargets (peers : List PeerInfo) (ourIp : Bytes) : List Target :=
  match rsplitOnce 46 ourIp with
  | none => []
  | some (net, _) =>
      peers.filterMap fun p =>
        let eps := (p.endpoints.filter fun e => (net ++ ascii ".").isPrefixOf e).filterMap
          parseSocketAddr
        if eps = [] then none
        else some
          { name := String.ofList (lossy p.hostname), discoPub := p.discoKey
            nodePub := p.nodeKey, endpoints := eps, spray := false }

/-- The configured address of a peer, with the peer that has it. -/
def resolvePeer (peers : List PeerInfo) (ourIp : Option Bytes) (wanted : Bytes) :
    Option (Ipv4Addr × Ipv4Addr × PeerInfo) :=
  if wanted = [] then none
  else do
    let our ← ourIp.bind parseIpv4
    let ip ← parseIpv4 wanted
    let peer ← peers.find? fun p => p.tailscaleIp = some wanted
    return (our, ip, peer)

def buildOutboundCfg (targetIp : Bytes) (httpPort : UInt16) (httpPath : Bytes)
    (peers : List PeerInfo) (ourIp : Option Bytes) : Option OutboundCfg :=
  (resolvePeer peers ourIp targetIp).map fun r =>
    { ourIp := r.1, targetIp := r.2.1, targetNode := r.2.2.nodeKey, httpPort := httpPort
      httpPath := httpPath }

/-- `node::MdnsLink`, without its channels. -/
structure MdnsLink where
  ourIp : Ipv4Addr
  partnerIp : Ipv4Addr
  partnerNode : Key

def buildMdnsLink (partnerIp : Bytes) (peers : List PeerInfo) (ourIp : Option Bytes)
    (lanIp : Bytes) : Option MdnsLink :=
  if (parseIpv4 lanIp).isNone then none
  else
    (resolvePeer peers ourIp partnerIp).map fun r =>
      { ourIp := r.1, partnerIp := r.2.1, partnerNode := r.2.2.nodeKey }

/-- What the relay client gets to start direct paths with. -/
def buildUpgrade (peers : List PeerInfo) (endpoints : List Bytes) : Derp.Upgrade where
  ourEndpoints := endpoints.filterMap parseSocketAddr
  peers := peers.map fun p =>
    { nodePub := p.nodeKey, discoPub := p.discoKey
      endpoints := p.endpoints.filterMap parseSocketAddr }

def identityOf (keys : Keys.NodeKeys) (allowedSrcs : Option (List Cidr)) : Identity where
  discoPriv := keys.disco.privateKey
  discoPub := keys.disco.publicKey
  nodePriv := keys.node.privateKey
  nodePub := keys.node.publicKey
  allowedSrcs := allowedSrcs

section Run

variable (C : Crypto) (F : Features) (id : Identity) (targets : List Target)
  (outbound : Option OutboundCfg) (mdns : Option MdnsLink)

/-- What `run` fixes before its loop. -/
def runHost : Host where
  crypto := C
  features := F
  identity := id
  mdnsOurIp := (mdns.map MdnsLink.ourIp).getD (Arr.zero 4)
  mdnsPartnerIp := (mdns.map MdnsLink.partnerIp).getD (Arr.zero 4)
  mdnsPartnerNode := (mdns.map MdnsLink.partnerNode).getD (Arr.zero 32)

/-- What it owns when the loop starts; `ident` and `sport` are drawn, and the
clock shows `now`. -/
def runStart (ident sport : UInt16) (now : Nat) : NodeState where
  st :=
    { State.empty with
      outbound := outbound.map fun cfg =>
        { cfg := cfg, icmpIdent := ident, icmpSeq := 0, sport := 1024 + sport % 60000
          tcp := none, started := false, httpDone := false }
      mdnsReinject := mdns.map fun _ => []
      mdnsPartner := (mdns.map MdnsLink.partnerNode).getD (Arr.zero 32) }
  lp :=
    { targets := targets, strikes := Table.empty
      -- `checked_sub` of two seconds
      lastProbe := if 2000 ≤ now then now - 2000 else now
      lastStun := now, probeRound := 0 }

end Run

end TailscaleRust.Firmware.Startup
