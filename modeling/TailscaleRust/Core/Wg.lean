import TailscaleRust.Core.Crypto

/-!
# WireGuard: the handshake and the transport records (`core/src/wg.rs`)

The three handshake functions are kept as the source writes them: one
straight line of hash, KDF, Diffie-Hellman and AEAD steps over a chaining
key `c` and a transcript hash `h`, with the message assembled by in-place
writes at fixed offsets. The randomness a function draws (`random32`,
`random_index`) is an argument of its model, drawn by the caller.

`anyhow` errors are carried as their text.
-/

namespace TailscaleRust.Core.Wg

open TailscaleRust.Lib TailscaleRust.Core

def construction : Bytes := ascii "Noise_IKpsk2_25519_ChaChaPoly_BLAKE2s"
def identifier : Bytes := ascii "WireGuard v1 zx2c4 Jason@zx2c4.com"
def labelMac1 : Bytes := ascii "mac1----"
def zeroPsk : Key := Arr.zero 32

def msgInitiation : UInt8 := 1
def msgResponse : UInt8 := 2
def msgTransport : UInt8 := 4

def initLen : Nat := 148
def respLen : Nat := 92

/-- Handshake state kept between the initiation and the response. -/
structure Handshake where
  chaining : Key
  hash : Key
  ephPriv : Key
  ourStaticPriv : Key
  ourIndex : UInt32
  deriving DecidableEq

/-- An established tunnel: transport keys, indices, send counter. -/
structure Tunnel where
  sendKey : Key
  recvKey : Key
  theirIndex : UInt32
  ourIndex : UInt32
  txCounter : UInt64
  deriving DecidableEq

section Primitives

variable (C : Crypto)

def hash (parts : List Bytes) : Key := C.blake2s parts.flatten

def mac16 (key data : Bytes) : Arr 16 := C.blake2sMac key data

/-- HMAC with block size 64 over `hash`. -/
def hmac (key data : Bytes) : Key :=
  let k :=
    if key.length > 64 then copyAt (zeros 64) 0 (hash C [key]).1
    else copyAt (zeros 64) 0 key
  let ipad := k.map fun b => 0x36 ^^^ b
  let opad := k.map fun b => 0x5c ^^^ b
  let inner := hash C [ipad, data]
  hash C [opad, inner.1]

def kdf1 (key : Key) (input : Bytes) : Key :=
  let t0 := hmac C key.1 input
  hmac C t0.1 [0x01]

def kdf2 (key : Key) (input : Bytes) : Key × Key :=
  let t0 := hmac C key.1 input
  let t1 := hmac C t0.1 [0x01]
  let t2 := hmac C t0.1 (t1.1 ++ [0x02])
  (t1, t2)

def kdf3 (key : Key) (input : Bytes) : Key × Key × Key :=
  let t0 := hmac C key.1 input
  let t1 := hmac C t0.1 [0x01]
  let t2 := hmac C t0.1 (t1.1 ++ [0x02])
  let t3 := hmac C t0.1 (t2.1 ++ [0x03])
  (t1, t2, t3)

def dh (priv pub : Key) : Key := C.x25519 priv pub

def pubkey (priv : Key) : Key := C.x25519Public priv

/-- 12-byte nonce: 4 zero bytes then the little-endian 64-bit counter. -/
def leNonce (counter : UInt64) : Arr 12 :=
  ⟨copyAt (zeros 12) 4 (le64 counter), by simp⟩

/-- ChaCha20-Poly1305 under a little-endian counter nonce. `seal` and
`open` in the source, both Lean keywords; the argument order is key, counter,
plaintext, associated data. -/
def wgSeal (key : Key) (counter : UInt64) (pt aad : Bytes) : Bytes :=
  C.chachaSeal key (leNonce counter) pt aad

def wgOpen (key : Key) (counter : UInt64) (ct aad : Bytes) : Option Bytes :=
  C.chachaOpen key (leNonce counter) ct aad

end Primitives

section Handshake

variable (C : Crypto)

/-- Build a handshake initiation to `peerStaticPub`. -/
def buildInitiation (ourStaticPriv ourStaticPub peerStaticPub : Key)
    (timestamp : Arr 12) (ourIndex : UInt32) (ephPriv : Key) :
    Arr initLen × Handshake :=
  let msg := (Arr.zero initLen).copyAt 0 [msgInitiation]
  let msg := msg.copyAt 4 (le32 ourIndex)
  let c := hash C [construction]
  let h := hash C [c.1, identifier]
  let h := hash C [h.1, peerStaticPub.1]
  -- ephemeral
  let ephPub := pubkey C ephPriv
  let c := kdf1 C c ephPub.1
  let msg := msg.copyAt 8 ephPub.1
  let h := hash C [h.1, ephPub.1]
  -- encrypted static
  let ck := kdf2 C c (dh C ephPriv peerStaticPub).1
  let c := ck.1
  let k := ck.2
  let encStatic := wgSeal C k 0 ourStaticPub.1 h.1
  let msg := msg.copyAt 40 encStatic
  let h := hash C [h.1, encStatic]
  -- encrypted timestamp
  let ck2 := kdf2 C c (dh C ourStaticPriv peerStaticPub).1
  let c := ck2.1
  let k2 := ck2.2
  let encTs := wgSeal C k2 0 timestamp.1 h.1
  let msg := msg.copyAt 88 encTs
  let h := hash C [h.1, encTs]
  -- mac1 over msg[0..116]; mac2 stays zero
  let mac1Key := hash C [labelMac1, peerStaticPub.1]
  let mac1 := mac16 C mac1Key.1 (slice msg.1 0 116)
  let msg := msg.copyAt 116 mac1.1
  (msg, { chaining := c, hash := h, ephPriv := ephPriv,
          ourStaticPriv := ourStaticPriv, ourIndex := ourIndex })

/-- Responder: consume an initiation, produce the response, the tunnel and
the initiator's static key. Neither mac is checked and the timestamp is
opened and dropped. -/
def consumeInitiation (ourStaticPriv ourStaticPub : Key) (init : Bytes)
    (ourIndex : UInt32) (erPriv : Key) :
    Except String (Arr respLen × Tunnel × Key) :=
  if init.length < initLen then
    .error s!"WG init too short ({init.length})"
  else if byteAt init 0 ≠ msgInitiation then
    .error s!"not a WG initiation (type {byteAt init 0})"
  else
    let theirIndex := u32le init 4
    let eI : Key := arrAt init 8 32
    let encStatic := slice init 40 88
    let encTs := slice init 88 116
    let c := hash C [construction]
    let h := hash C [c.1, identifier]
    let h := hash C [h.1, ourStaticPub.1]
    let c := kdf1 C c eI.1
    let h := hash C [h.1, eI.1]
    let ck := kdf2 C c (dh C ourStaticPriv eI).1
    let c := ck.1
    let k := ck.2
    match wgOpen C k 0 encStatic h.1 with
    | none => .error "WG init static decrypt"
    | some sIVec =>
        match tryInto 32 sIVec with
        | none => .error "WG init static size"
        | some sI =>
            let h := hash C [h.1, encStatic]
            let ck2 := kdf2 C c (dh C ourStaticPriv sI).1
            let c := ck2.1
            let k2 := ck2.2
            match wgOpen C k2 0 encTs h.1 with
            | none => .error "WG init timestamp decrypt"
            | some _ =>
                let h := hash C [h.1, encTs]
                let resp := (Arr.zero respLen).copyAt 0 [msgResponse]
                let resp := resp.copyAt 4 (le32 ourIndex)
                let resp := resp.copyAt 8 (le32 theirIndex)
                let erPub := pubkey C erPriv
                let c := kdf1 C c erPub.1
                let resp := resp.copyAt 12 erPub.1
                let h := hash C [h.1, erPub.1]
                let c := kdf1 C c (dh C erPriv eI).1
                let c := kdf1 C c (dh C erPriv sI).1
                let ctk := kdf3 C c zeroPsk.1
                let c := ctk.1
                let tau := ctk.2.1
                let k3 := ctk.2.2
                let h := hash C [h.1, tau.1]
                let encEmpty := wgSeal C k3 0 [] h.1
                let resp := resp.copyAt 44 encEmpty
                -- mac1 over resp[0..60], keyed with the initiator's static
                let mac1Key := hash C [labelMac1, sI.1]
                let mac1 := mac16 C mac1Key.1 (slice resp.1 0 60)
                let resp := resp.copyAt 60 mac1.1
                -- responder: the first transport key receives
                let keys := kdf2 C c []
                .ok (resp,
                  { sendKey := keys.2, recvKey := keys.1,
                    theirIndex := theirIndex, ourIndex := ourIndex,
                    txCounter := 0 }, sI)

/-- An index as `{:#x}` prints it. -/
def hexIndex (i : UInt32) : String := "0x" ++ String.ofList (Nat.toDigits 16 i.toNat)

example : hexIndex 0x2112a442 = "0x2112a442" := by decide

/-- Initiator: consume the response and derive the tunnel. -/
def Handshake.consumeResponse (self : Handshake) (resp : Bytes) :
    Except String Tunnel :=
  if resp.length < respLen then
    .error s!"WG response too short ({resp.length})"
  else if byteAt resp 0 ≠ msgResponse then
    .error s!"not a WG response (type {byteAt resp 0})"
  else
    let theirIndex := u32le resp 4
    let recvIndex := u32le resp 8
    if recvIndex ≠ self.ourIndex then
      .error s!"WG response receiver index {hexIndex recvIndex} != ours {hexIndex self.ourIndex}"
    else
      let ephPubR : Key := arrAt resp 12 32
      let encEmpty := slice resp 44 60
      let c := self.chaining
      let h := self.hash
      let c := kdf1 C c ephPubR.1
      let h := Wg.hash C [h.1, ephPubR.1]
      let c := kdf1 C c (dh C self.ephPriv ephPubR).1
      let c := kdf1 C c (dh C self.ourStaticPriv ephPubR).1
      let ctk := kdf3 C c zeroPsk.1
      let c := ctk.1
      let tau := ctk.2.1
      let k := ctk.2.2
      let h := Wg.hash C [h.1, tau.1]
      match wgOpen C k 0 encEmpty h.1 with
      | none => .error "WG response auth failed"
      | some pt =>
          if pt ≠ [] then .error "WG response payload not empty"
          else
            -- initiator: the first transport key sends
            let keys := kdf2 C c []
            .ok { sendKey := keys.1, recvKey := keys.2,
                  theirIndex := theirIndex, ourIndex := self.ourIndex,
                  txCounter := 0 }

end Handshake

section Transport

variable (C : Crypto)

/-- Stateless decrypt of a type-4 packet under a receive key. -/
def decryptTransport (recvKey : Key) (pkt : Bytes) : Option Bytes :=
  if pkt.length < 32 ∨ byteAt pkt 0 ≠ msgTransport then none
  else
    let counter := u64le pkt 8
    wgOpen C recvKey counter (pkt.drop 16) []

/-- The padding loop of `encrypt`: zero bytes up to a multiple of 16. The
fuel is the most the loop can need. -/
def pad16 : Nat → Bytes → Bytes
  | 0, pt => pt
  | fuel + 1, pt => if pt.length % 16 ≠ 0 then pad16 fuel (pt ++ [0]) else pt

/-- Wrap an inner IP packet in a type-4 transport message. -/
def Tunnel.encrypt (self : Tunnel) (inner : Bytes) : Bytes × Tunnel :=
  let pt := pad16 16 inner
  let ct := wgSeal C self.sendKey self.txCounter pt []
  let out := [msgTransport] ++ [0, 0, 0] ++ le32 self.theirIndex
    ++ le64 self.txCounter ++ ct
  (out, { self with txCounter := self.txCounter + 1 })

/-- A keepalive is an empty transport packet. -/
def Tunnel.keepalive (self : Tunnel) : Bytes × Tunnel := self.encrypt C []

def Tunnel.decrypt (self : Tunnel) (pkt : Bytes) : Except String Bytes :=
  if pkt.length < 32 then
    .error s!"WG transport too short ({pkt.length})"
  else if byteAt pkt 0 ≠ msgTransport then
    .error "not a WG transport packet"
  else
    let counter := u64le pkt 8
    match wgOpen C self.recvKey counter (pkt.drop 16) [] with
    | none => .error "WG transport auth failed"
    | some pt => .ok pt

end Transport

/-- A TAI64N timestamp from a Unix time. -/
def tai64n (unixSecs : UInt64) (nanos : UInt32) : Arr 12 :=
  let secs : UInt64 := 0x400000000000000a + unixSecs
  ⟨copyAt (copyAt (zeros 12) 0 (be64 secs)) 8 (be32 nanos), by simp⟩

end TailscaleRust.Core.Wg
