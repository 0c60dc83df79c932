import TailscaleRust.Core.Crypto
import TailscaleRust.Core.Net

/-!
# Path discovery and STUN packets (`core/src/disco.rs`, `core/src/stun.rs`)

Disco shares the UDP socket with WireGuard and STUN, and the three are told
apart by fixed bytes: a disco packet starts with six magic bytes, a STUN
message has its cookie in bytes 4 to 8.
-/

namespace TailscaleRust.Core.Disco

open TailscaleRust.Lib TailscaleRust.Core

def magic : Bytes := [0x54, 0x53, 0xf0, 0x9f, 0x92, 0xac]

def ping : UInt8 := 0x01
def pong : UInt8 := 0x02
def callMeMaybe : UInt8 := 0x03
def reverseConnect : UInt8 := 0x04

def version : UInt8 := 0x00
def hdr : Nat := 6 + 32 + 24

def isDisco (buf : Bytes) : Bool := buf.length ≥ 6 ∧ slice buf 0 6 = magic

/-- A decoded incoming disco packet. -/
structure Incoming where
  senderDiscoPub : Key
  msgType : UInt8
  txid : Arr 12
  endpoints : List SocketAddr
  observedSrc : Option SocketAddr

/-- A socket address as 16 address bytes, IPv4 in mapped form, and the port. -/
def addrToBytes : SocketAddr → Arr 18
  | .v4 ip port => ⟨zeros 10 ++ [0xff, 0xff] ++ ip.1 ++ be16 port, by simp [ip.2]⟩
  | .v6 ip port _ _ => ⟨ip.1 ++ be16 port, by simp [ip.2]⟩

/-- The IPv4 address of an 18-byte record; native IPv6 is skipped. -/
def bytesToAddr (b : Bytes) : Option SocketAddr :=
  if b.length < 18 then none
  else if slice b 0 10 = zeros 10 ∧ byteAt b 10 = 0xff ∧ byteAt b 11 = 0xff then
    some (.v4 (arrAt b 12 4) (u16be b 16))
  else none

def pingPlaintext (txid : Arr 12) (nodePub : Key) : Bytes :=
  [ping, version] ++ txid.1 ++ nodePub.1

def pongPlaintext (txid : Arr 12) (src : SocketAddr) : Bytes :=
  [pong, version] ++ txid.1 ++ (addrToBytes src).1

/-- CALL_ME_MAYBE and REVERSE_CONNECT differ in their type byte only. -/
def endpointsPlaintext (msgType : UInt8) (eps : List SocketAddr) : Bytes :=
  [msgType, version] ++ eps.flatMap fun e => (addrToBytes e).1

def callMeMaybePlaintext (eps : List SocketAddr) : Bytes :=
  endpointsPlaintext callMeMaybe eps

def reverseConnectPlaintext (eps : List SocketAddr) : Bytes :=
  endpointsPlaintext reverseConnect eps

/-- `seal` in the source; `nonce` is the draw. -/
def sealPacket (C : Crypto) (myDiscoPriv myDiscoPub peerDiscoPub : Key)
    (plaintext : Bytes) (nonce : Arr 24) : Except String Bytes :=
  match C.boxSeal myDiscoPriv peerDiscoPub nonce plaintext with
  | none => .error "disco seal failed"
  | some ct => .ok (magic ++ myDiscoPub.1 ++ nonce.1 ++ ct)

/-- The consecutive pieces of 18 bytes, the last one possibly shorter. -/
def chunks18 : Nat → Bytes → List Bytes
  | 0, _ => []
  | fuel + 1, b => if b = [] then [] else b.take 18 :: chunks18 fuel (b.drop 18)

/-- `open` in the source. -/
def openPacket (C : Crypto) (myDiscoPriv : Key) (wire : Bytes) : Except String Incoming :=
  if wire.length < hdr + 16 ∨ slice wire 0 6 ≠ magic then .error "not a disco packet"
  else
    let sender : Key := arrAt wire 6 32
    match C.boxOpen myDiscoPriv sender (arrAt wire 38 24) (wire.drop 62) with
    | none => .error "disco open failed (MAC)"
    | some pt =>
        if pt.length < 14 then .error "disco plaintext too short"
        else
          let msgType := byteAt pt 0
          let endpoints :=
            if msgType = callMeMaybe ∨ msgType = reverseConnect then
              (chunks18 pt.length (pt.drop 2)).filterMap bytesToAddr
            else []
          let observedSrc :=
            if msgType = pong ∧ pt.length ≥ 32 then bytesToAddr (slice pt 14 32) else none
          .ok { senderDiscoPub := sender, msgType := msgType, txid := arrAt pt 2 12
                endpoints := endpoints, observedSrc := observedSrc }

end TailscaleRust.Core.Disco

namespace TailscaleRust.Core.Stun

open TailscaleRust.Lib TailscaleRust.Core

def magicCookie : UInt32 := 0x2112A442
def bindingRequestType : UInt16 := 0x0001

/-- A 20-byte Binding Request; `txid` is the draw. -/
def bindingRequest (txid : Arr 12) : Bytes :=
  be16 bindingRequestType ++ be16 0 ++ be32 magicCookie ++ txid.1

def isStun (buf : Bytes) : Bool := buf.length ≥ 8 ∧ u32be buf 4 = magicCookie

end TailscaleRust.Core.Stun
