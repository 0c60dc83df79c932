import TailscaleRust.Core.Peers

/-!
# Identity, targets and the inbound filter (`core/src/node.rs`)
-/

namespace TailscaleRust.Core

open TailscaleRust.Lib TailscaleRust.Core.Peers

/-- A peer to reach directly, with its identities and candidate paths. -/
structure Target where
  name : String
  discoPub : Key
  nodePub : Key
  endpoints : List SocketAddr
  /-- Spray this peer's public endpoints. -/
  spray : Bool

/-- Netmap row with which a relayed peer is found for a direct attempt. -/
structure PeerDir where
  nodePub : Key
  discoPub : Key
  endpoints : List SocketAddr

/-- Ping and HTTP GET out to one target peer. -/
structure OutboundCfg where
  ourIp : Ipv4Addr
  targetIp : Ipv4Addr
  targetNode : Key
  httpPort : UInt16
  httpPath : Bytes
  deriving DecidableEq

structure Identity where
  discoPriv : Key
  discoPub : Key
  nodePriv : Key
  nodePub : Key
  /-- The sources the netmap admits; `none` turns the filter off. -/
  allowedSrcs : Option (List Cidr)

/-- May the inner packet's source reach us? -/
def srcAllowed (allowed : Option (List Cidr)) (inner : Bytes) : Bool :=
  match allowed with
  | none => true
  | some cidrs =>
      if inner.length < 16 ∨ byteAt inner 0 >>> 4 ≠ 4 then true
      else cidrMatch cidrs (u32be inner 12)

end TailscaleRust.Core
