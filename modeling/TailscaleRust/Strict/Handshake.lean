import TailscaleRust.Core.Disco
import TailscaleRust.Core.Wg
import TailscaleRust.Lib.Checked

/-!
# Disco, STUN and WireGuard with their checks

As in the packet code, what the source indexes, slices, copies over a slice
or converts with `unwrap` can fail here. The crates' functions cannot.
`tx_counter` counts the packets of a tunnel; it is not an offset or a length
and stays the 64-bit number it was.
-/

namespace TailscaleRust.Strict

open TailscaleRust.Lib TailscaleRust.Lib.Checked TailscaleRust.Core

/-! ## Disco and STUN -/

section Disco

open TailscaleRust.Core.Disco

def isDisco (buf : Bytes) : Checked Bool := do
  if buf.length ≥ 6 then return (← range buf 0 6) = magic
  else return false

def isStun (buf : Bytes) : Checked Bool := do
  if buf.length ≥ 8 then return (← u32beOf buf 4) = Stun.magicCookie
  else return false

def addrToBytes : SocketAddr → Checked (Arr 18)
  | .v4 ip port => do
      let out ← copyArr (Arr.zero 18) 10 11 [0xff]
      let out ← copyArr out 11 12 [0xff]
      let out ← copyArr out 12 16 ip.1
      copyArr out 16 18 (be16 port)
  | .v6 ip port _ _ => do
      let out ← copyArr (Arr.zero 18) 0 16 ip.1
      copyArr out 16 18 (be16 port)

def bytesToAddr (b : Bytes) : Checked (Option SocketAddr) := do
  if b.length < 18 then return none
  let port ← u16Of b 16 17
  if (← range b 0 10) ≠ zeros 10 then return none
  if (← index b 10) ≠ 0xff then return none
  if (← index b 11) ≠ 0xff then return none
  let ip ← toArray 4 (← bytes4 b 12)
  return some (.v4 ip port)

def pongPlaintext (txid : Arr 12) (src : SocketAddr) : Checked Bytes := do
  return [pong, version] ++ txid.1 ++ (← addrToBytes src).1

def callMeMaybePlaintext (eps : List SocketAddr) : Checked Bytes := do
  let _ ← addUsize 2 (← mulUsize eps.length 18)
  let addrs ← eps.mapM addrToBytes
  return [callMeMaybe, version] ++ addrs.flatMap fun a => a.1

def sealPacket (C : Crypto) (myDiscoPriv myDiscoPub peerDiscoPub : Key) (plaintext : Bytes)
    (nonce : Arr 24) : Checked (Except String Bytes) := do
  match C.boxSeal myDiscoPriv peerDiscoPub nonce plaintext with
  | none => return .error "disco seal failed"
  | some ct =>
      let _ ← addUsize hdr ct.length
      return .ok (magic ++ myDiscoPub.1 ++ nonce.1 ++ ct)

/-- The endpoints of CALL_ME_MAYBE and REVERSE_CONNECT. -/
def endpointsIn (pt : Bytes) : Checked (List SocketAddr) := do
  let msgType ← index pt 0
  if msgType = callMeMaybe ∨ msgType = reverseConnect then
    let addrs ← (chunks18 pt.length (← rangeFrom pt 2)).mapM bytesToAddr
    return addrs.filterMap id
  else return []

/-- The address that a PONG reports. -/
def observedIn (pt : Bytes) : Checked (Option SocketAddr) := do
  if (← index pt 0) = pong ∧ pt.length ≥ 32 then bytesToAddr (← range pt 14 32)
  else return none

def openPacket (C : Crypto) (myDiscoPriv : Key) (wire : Bytes) :
    Checked (Except String Incoming) := do
  if wire.length < hdr + 16 then return .error "not a disco packet"
  if (← range wire 0 6) ≠ magic then return .error "not a disco packet"
  let sender ← toArray 32 (← range wire 6 38)
  let nonce ← toArray 24 (← range wire 38 62)
  match C.boxOpen myDiscoPriv sender nonce (← rangeFrom wire 62) with
  | none => return .error "disco open failed (MAC)"
  | some pt =>
      if pt.length < 14 then return .error "disco plaintext too short"
      let txid ← toArray 12 (← range pt 2 14)
      let endpoints ← endpointsIn pt
      let observedSrc ← observedIn pt
      return .ok { senderDiscoPub := sender, msgType := (← index pt 0), txid := txid
                   endpoints := endpoints, observedSrc := observedSrc }

end Disco

/-! ## WireGuard -/

section Wg

open TailscaleRust.Core.Wg

variable (C : Crypto)

def hmac (key data : Bytes) : Checked Key := do
  let k ←
    if key.length > 64 then copyInto (zeros 64) 0 32 (hash C [key]).1
    else copyInto (zeros 64) 0 key.length key
  let ipad ← (List.range 64).mapM fun i => do return 0x36 ^^^ (← index k i)
  let opad ← (List.range 64).mapM fun i => do return 0x5c ^^^ (← index k i)
  let inner := hash C [ipad, data]
  return hash C [opad, inner.1]

def kdf1 (key : Key) (input : Bytes) : Checked Key := do
  let t0 ← hmac C key.1 input
  hmac C t0.1 [0x01]

def kdf2 (key : Key) (input : Bytes) : Checked (Key × Key) := do
  let t0 ← hmac C key.1 input
  let t1 ← hmac C t0.1 [0x01]
  let t2 ← hmac C t0.1 (t1.1 ++ [0x02])
  return (t1, t2)

def kdf3 (key : Key) (input : Bytes) : Checked (Key × Key × Key) := do
  let t0 ← hmac C key.1 input
  let t1 ← hmac C t0.1 [0x01]
  let t2 ← hmac C t0.1 (t1.1 ++ [0x02])
  let t3 ← hmac C t0.1 (t2.1 ++ [0x03])
  return (t1, t2, t3)

def leNonce (counter : UInt64) : Checked (Arr 12) :=
  copyArr (Arr.zero 12) 4 12 (le64 counter)

def wgSeal (key : Key) (counter : UInt64) (pt aad : Bytes) : Checked Bytes := do
  return C.chachaSeal key (← leNonce counter) pt aad

def wgOpen (key : Key) (counter : UInt64) (ct aad : Bytes) : Checked (Option Bytes) := do
  return C.chachaOpen key (← leNonce counter) ct aad

def buildInitiation (ourStaticPriv ourStaticPub peerStaticPub : Key) (timestamp : Arr 12)
    (ourIndex : UInt32) (ephPriv : Key) : Checked (Arr initLen × Handshake) := do
  let msg ← copyArr (Arr.zero initLen) 0 1 [msgInitiation]
  let msg ← copyArr msg 4 8 (le32 ourIndex)
  let c := hash C [construction]
  let h := hash C [c.1, identifier]
  let h := hash C [h.1, peerStaticPub.1]
  let ephPub := pubkey C ephPriv
  let c ← kdf1 C c ephPub.1
  let msg ← copyArr msg 8 40 ephPub.1
  let h := hash C [h.1, ephPub.1]
  let (c, k) ← kdf2 C c (dh C ephPriv peerStaticPub).1
  let encStatic ← wgSeal C k 0 ourStaticPub.1 h.1
  let msg ← copyArr msg 40 88 encStatic
  let h := hash C [h.1, encStatic]
  let (c, k2) ← kdf2 C c (dh C ourStaticPriv peerStaticPub).1
  let encTs ← wgSeal C k2 0 timestamp.1 h.1
  let msg ← copyArr msg 88 116 encTs
  let h := hash C [h.1, encTs]
  let mac1Key := hash C [labelMac1, peerStaticPub.1]
  let mac1 := mac16 C mac1Key.1 (← range msg.1 0 116)
  let msg ← copyArr msg 116 132 mac1.1
  return (msg, { chaining := c, hash := h, ephPriv := ephPriv
                 ourStaticPriv := ourStaticPriv, ourIndex := ourIndex })

def consumeInitiation (ourStaticPriv ourStaticPub : Key) (init : Bytes) (ourIndex : UInt32)
    (erPriv : Key) : Checked (Except String (Arr respLen × Tunnel × Key)) := do
  if init.length < initLen then return .error s!"WG init too short ({init.length})"
  let first ← index init 0
  if first ≠ msgInitiation then return .error s!"not a WG initiation (type {first})"
  let theirIndex ← u32leOf init 4
  let eI ← toArray 32 (← range init 8 40)
  let encStatic ← range init 40 88
  let encTs ← range init 88 116
  let c := hash C [construction]
  let h := hash C [c.1, identifier]
  let h := hash C [h.1, ourStaticPub.1]
  let c ← kdf1 C c eI.1
  let h := hash C [h.1, eI.1]
  let (c, k) ← kdf2 C c (dh C ourStaticPriv eI).1
  match ← wgOpen C k 0 encStatic h.1 with
  | none => return .error "WG init static decrypt"
  | some sIVec =>
      match tryInto 32 sIVec with
      | none => return .error "WG init static size"
      | some sI =>
          let h := hash C [h.1, encStatic]
          let (c, k2) ← kdf2 C c (dh C ourStaticPriv sI).1
          match ← wgOpen C k2 0 encTs h.1 with
          | none => return .error "WG init timestamp decrypt"
          | some _ =>
              let h := hash C [h.1, encTs]
              let resp ← copyArr (Arr.zero respLen) 0 1 [msgResponse]
              let resp ← copyArr resp 4 8 (le32 ourIndex)
              let resp ← copyArr resp 8 12 (le32 theirIndex)
              let erPub := pubkey C erPriv
              let c ← kdf1 C c erPub.1
              let resp ← copyArr resp 12 44 erPub.1
              let h := hash C [h.1, erPub.1]
              let c ← kdf1 C c (dh C erPriv eI).1
              let c ← kdf1 C c (dh C erPriv sI).1
              let (c, tau, k3) ← kdf3 C c zeroPsk.1
              let h := hash C [h.1, tau.1]
              let encEmpty ← wgSeal C k3 0 [] h.1
              let resp ← copyArr resp 44 60 encEmpty
              let mac1Key := hash C [labelMac1, sI.1]
              let mac1 := mac16 C mac1Key.1 (← range resp.1 0 60)
              let resp ← copyArr resp 60 76 mac1.1
              let (recvKey, sendKey) ← kdf2 C c []
              return .ok (resp,
                { sendKey := sendKey, recvKey := recvKey, theirIndex := theirIndex
                  ourIndex := ourIndex, txCounter := 0 }, sI)

def Handshake.consumeResponse (self : Handshake) (resp : Bytes) :
    Checked (Except String Tunnel) := do
  if resp.length < respLen then return .error s!"WG response too short ({resp.length})"
  let first ← index resp 0
  if first ≠ msgResponse then return .error s!"not a WG response (type {first})"
  let theirIndex ← u32leOf resp 4
  let recvIndex ← u32leOf resp 8
  if recvIndex ≠ self.ourIndex then
    return .error
      s!"WG response receiver index {hexIndex recvIndex} != ours {hexIndex self.ourIndex}"
  let ephPubR ← toArray 32 (← range resp 12 44)
  let encEmpty ← range resp 44 60
  let c ← kdf1 C self.chaining ephPubR.1
  let h := Wg.hash C [self.hash.1, ephPubR.1]
  let c ← kdf1 C c (dh C self.ephPriv ephPubR).1
  let c ← kdf1 C c (dh C self.ourStaticPriv ephPubR).1
  let (c, tau, k) ← kdf3 C c zeroPsk.1
  let h := Wg.hash C [h.1, tau.1]
  match ← wgOpen C k 0 encEmpty h.1 with
  | none => return .error "WG response auth failed"
  | some pt =>
      if pt ≠ [] then return .error "WG response payload not empty"
      let (sendKey, recvKey) ← kdf2 C c []
      return .ok { sendKey := sendKey, recvKey := recvKey, theirIndex := theirIndex
                   ourIndex := self.ourIndex, txCounter := 0 }

def decryptTransport (recvKey : Key) (pkt : Bytes) : Checked (Option Bytes) := do
  if pkt.length < 32 then return none
  if (← index pkt 0) ≠ msgTransport then return none
  let counter ← range pkt 8 16
  wgOpen C recvKey (UInt64.ofNat (leNat counter)) (← rangeFrom pkt 16) []

def Tunnel.encrypt (self : Tunnel) (inner : Bytes) : Checked (Bytes × Tunnel) := do
  let pt := pad16 16 inner
  let ct ← wgSeal C self.sendKey self.txCounter pt []
  let _ ← addUsize 16 ct.length
  let out := [msgTransport] ++ [0, 0, 0] ++ le32 self.theirIndex ++ le64 self.txCounter ++ ct
  return (out, { self with txCounter := self.txCounter + 1 })

def Tunnel.decrypt (self : Tunnel) (pkt : Bytes) : Checked (Except String Bytes) := do
  if pkt.length < 32 then return .error s!"WG transport too short ({pkt.length})"
  if (← index pkt 0) ≠ msgTransport then return .error "not a WG transport packet"
  let counter ← toArray 8 (← range pkt 8 16)
  match ← wgOpen C self.recvKey (UInt64.ofNat (leNat counter.1)) (← rangeFrom pkt 16) [] with
  | none => return .error "WG transport auth failed"
  | some pt => return .ok pt

def tai64n (unixSecs : UInt64) (nanos : UInt32) : Checked (Arr 12) := do
  let secs ← addU64 0x400000000000000a unixSecs
  let out ← copyArr (Arr.zero 12) 0 8 (be64 secs)
  copyArr out 8 12 (be32 nanos)

end Wg

end TailscaleRust.Strict
