import TailscaleRust.Core.Crypto

/-!
# Controlbase records (`core/src/noise.rs`)

The transport phase of the control channel. The handshake itself is driven
by the `snow` crate; what the repository does is to frame its first message,
and to take the two keys it splits into and seal and open records under them,
with a big-endian counter for a nonce.
-/

namespace TailscaleRust.Core.Noise

open TailscaleRust.Lib

def protocolVersion : UInt16 := 1
def msgInitiation : UInt8 := 1
def msgResponse : UInt8 := 2
def msgError : UInt8 := 3
def msgRecord : UInt8 := 4

structure Transport where
  send : Key
  recv : Key
  txNonce : UInt64
  rxNonce : UInt64
  deriving DecidableEq

def Transport.new (send recv : Key) : Transport := { send, recv, txNonce := 0, rxNonce := 0 }

/-- Four zero bytes, then the big-endian counter. -/
def beNonce (counter : UInt64) : Arr 12 := ⟨zeros 4 ++ be64 counter, by simp⟩

/-- A frame of the control connection: type, big-endian length, payload. -/
def controlFrame (typ : UInt8) (payload : Bytes) : Bytes :=
  typ :: be16 (UInt16.ofNat payload.length) ++ payload

/-- What `start` puts in front of the initiation that `snow` wrote. -/
def framedInitiation (noise : Bytes) : Bytes :=
  be16 protocolVersion ++ [msgInitiation] ++ be16 (UInt16.ofNat noise.length) ++ noise

def Transport.sealRecord (C : Crypto) (t : Transport) (plaintext : Bytes) : Bytes × Transport :=
  let ct := C.chachaSeal t.send (beNonce t.txNonce) plaintext []
  (controlFrame msgRecord ct, { t with txNonce := t.txNonce + 1 })

/-- The counter moves on whether or not the record opens. -/
def Transport.openRecord (C : Crypto) (t : Transport) (ciphertext : Bytes) :
    Except String Bytes × Transport :=
  let t' := { t with rxNonce := t.rxNonce + 1 }
  match C.chachaOpen t.recv (beNonce t.rxNonce) ciphertext [] with
  | some pt => (.ok pt, t')
  | none => (.error s!"open failed (MAC) at rx_nonce={t.rxNonce}", t')

end TailscaleRust.Core.Noise
