import TailscaleRust.Firmware.Dataplane

/-!
# The relay data plane (`src/derp.rs`)

The body of `serve`'s loop on one frame of the relay. A step returns the
packets handed to `send_packet`, addressed by node key, and the targets put
on the upgrade channel.
-/

namespace TailscaleRust.Firmware.Derp

open TailscaleRust.Lib TailscaleRust.Core TailscaleRust.Core.Wg
open TailscaleRust.Core.Icmp (echoReplyAny)
open TailscaleRust.Core.Tcp TailscaleRust.Firmware.Dataplane

def frameRecvPacket : UInt8 := 0x05

structure DerpPeer where
  tun : Tunnel
  tcp : TcpServer

/-- What `serve` keeps between frames. -/
structure ServeState where
  peers : Table Key DerpPeer
  upgraded : List Key

/-- What `try_upgrade` knows of us and of the other nodes. -/
structure Upgrade where
  ourEndpoints : List SocketAddr
  peers : List PeerDir

structure Packet where
  dst : Key
  bytes : Bytes
  deriving DecidableEq

/-- Everything one frame can send. -/
structure Sends where
  packets : List Packet
  targets : List Target

def Sends.none : Sends := ⟨[], []⟩

/-- Draws of one frame; the upgrade message has a nonce of its own. -/
structure FrameDraws where
  index : UInt32
  ephemeral : Key
  nonce : Arr 24
  upgradeNonce : Arr 24
  serverIss : UInt32

def hexDigit (n : Nat) : Char := "0123456789abcdef".toList.getD n '0'

def hex8 (b : Bytes) : String :=
  String.ofList ((b.take 8).flatMap fun x => [hexDigit (x.toNat / 16), hexDigit (x.toNat % 16)])

section Serve

variable (C : Crypto) (F : Features) (env : FrameDraws)

/-- Announce our endpoints to a relayed peer and ask for a direct probe. -/
def tryUpgrade (id : Identity) (up : Upgrade) (src : Key) : Sends :=
  match up.peers.find? fun p => p.nodePub = src with
  | none => Sends.none
  | some peer =>
      if peer.endpoints = [] ∧ up.ourEndpoints = [] then Sends.none
      else
        let wire := Disco.sealPacket C id.discoPriv id.discoPub peer.discoPub
          (Disco.callMeMaybePlaintext up.ourEndpoints) env.upgradeNonce
        { packets := match wire with
            | .ok w => [⟨src, w⟩]
            | .error _ => []
          targets := [{ name := "derp:" ++ hex8 src.1, discoPub := peer.discoPub
                        nodePub := src, endpoints := peer.endpoints, spray := true }] }

/-- Disco over the relay: answer pings, pass fresh endpoints on. -/
def serveDisco (id : Identity) (upgrade : Option Upgrade) (src : Key) (pkt : Bytes) : Sends :=
  match Disco.openPacket C id.discoPriv pkt with
  | .error _ => Sends.none
  | .ok msg =>
      if msg.msgType = Disco.ping then
        let any : SocketAddr := .v4 (Arr.zero 4) 0
        match Disco.sealPacket C id.discoPriv id.discoPub msg.senderDiscoPub
            (Disco.pongPlaintext msg.txid any) env.nonce with
        | .error _ => Sends.none
        | .ok wire => ⟨[⟨src, wire⟩], []⟩
      else if msg.msgType = Disco.callMeMaybe ∧ msg.endpoints ≠ [] ∧ upgrade.isSome then
        ⟨[], [{ name := "derp:" ++ hex8 src.1, discoPub := msg.senderDiscoPub
                nodePub := src, endpoints := msg.endpoints, spray := true }]⟩
      else Sends.none

/-- Encrypt packets one after the other for a relayed peer. -/
def relayAll (tun : Tunnel) (dst : Key) : List Bytes → List Packet × Tunnel
  | [] => ([], tun)
  | x :: xs =>
      let (pkt, tun) := tun.encrypt C x
      let (out, tun) := relayAll tun dst xs
      (⟨dst, pkt⟩ :: out, tun)

/-- The echo responder and the HTTP server behind the filter. -/
def handleInner (p : DerpPeer) (src : Key) (inner : Bytes) : DerpPeer × List Packet :=
  match if F.icmp then echoReplyAny inner else none with
  | some reply =>
      let (out, tun) := relayAll C p.tun src [reply]
      ({ p with tun := tun }, out)
  | none =>
      if F.httpServer then
        let (replies, tcp) := p.tcp.handle inner env.serverIss
        let (out, tun) := relayAll C p.tun src replies
        ({ tun := tun, tcp := tcp }, out)
      else (p, [])

/-- The transport branch. -/
def serveTransport (id : Identity) (st : ServeState) (src : Key) (pkt : Bytes) :
    ServeState × List Packet :=
  match st.peers.get? src with
  | none => (st, [])
  | some p =>
      match p.tun.decrypt C pkt with
      | .error _ => (st, [])
      | .ok inner =>
          if inner ≠ [] ∧ srcAllowed id.allowedSrcs inner then
            let (p, out) := handleInner C F env p src inner
            ({ st with peers := st.peers.modify src fun _ => p }, out)
          else (st, [])

def serveInit (id : Identity) (st : ServeState) (src : Key) (pkt : Bytes) :
    ServeState × List Packet :=
  match consumeInitiation C id.nodePriv id.nodePub pkt env.index env.ephemeral with
  | .error _ => (st, [])
  | .ok (resp, tun, _) =>
      ({ st with peers := st.peers.insert src ⟨tun, TcpServer.new⟩ }, [⟨src, resp.1⟩])

/-- One pass of the loop, on the frame `(typ, payload)`. -/
def serveFrame (id : Identity) (upgrade : Option Upgrade) (st : ServeState) (typ : UInt8)
    (payload : Bytes) : ServeState × Sends :=
  if typ ≠ frameRecvPacket ∨ payload.length < 32 then (st, Sends.none)
  else
    let src : Key := arrAt payload 0 32
    let pkt := payload.drop 32
    if pkt = [] then (st, Sends.none)
    else
      let (st, first) :=
        match upgrade with
        | none => (st, Sends.none)
        | some up =>
            if src ∈ st.upgraded then (st, Sends.none)
            else ({ st with upgraded := src :: st.upgraded }, tryUpgrade C env id up src)
      if Disco.isDisco pkt then
        let s := serveDisco C env id upgrade src pkt
        (st, ⟨first.packets ++ s.packets, first.targets ++ s.targets⟩)
      else
        let (st, out) :=
          if byteAt pkt 0 = msgInitiation then serveInit C env id st src pkt
          else if byteAt pkt 0 = msgTransport then serveTransport C F env id st src pkt
          else (st, [])
        (st, ⟨first.packets ++ out, first.targets⟩)

end Serve

/-! ## The loop -/

/-- A frame as `read_frame` returns it, with what its handling draws. -/
structure RelayFrame where
  typ : UInt8
  payload : Bytes
  env : FrameDraws

/-- What `serve` starts from, after every reconnect. -/
def ServeState.empty : ServeState := ⟨Table.empty, []⟩

/-- One pass of `serve` as a step; it runs until a read fails. -/
def Serves (C : Crypto) (F : Features) (id : Identity) (upgrade : Option Upgrade)
    (st : ServeState) (f : RelayFrame) (st' : ServeState) : Prop :=
  (serveFrame C F f.env id upgrade st f.typ f.payload).1 = st'

end TailscaleRust.Firmware.Derp
