import TailscaleRust.Core.Disco

/-!
# Reading a STUN response (`core/src/stun.rs`)

`parse_response` with the two attribute parsers. The loop over the attributes
ends because each of them moves the offset forward.
-/

namespace TailscaleRust.Core.Stun

open TailscaleRust.Lib TailscaleRust.Core

def bindingResponseType : UInt16 := 0x0101
def attrMappedAddress : UInt16 := 0x0001
def attrXorMappedAddress : UInt16 := 0x0020

/-- `core::net::SocketAddrV4`. -/
abbrev SocketAddrV4 := Ipv4Addr × UInt16

/-- `Ipv4Addr::from(u32)`. -/
def ipv4OfU32 (x : UInt32) : Ipv4Addr := ⟨be32 x, by simp [be32, beBytes]⟩

/-- Hexadecimal, padded with zeros to a width. -/
def hexPadded (width n : Nat) : String :=
  String.ofList ((Nat.toDigits 16 n).leftpad width '0')

/-- XOR-MAPPED-ADDRESS: port and address are masked with the cookie. -/
def parseXorMapped (val : Bytes) : Option SocketAddrV4 :=
  if val.length < 8 ∨ byteAt val 1 ≠ 0x01 then none
  else
    let xPort := u16be val 2
    let port := xPort ^^^ (magicCookie >>> 16).toUInt16
    let xAddr := u32be val 4
    let addr := xAddr ^^^ magicCookie
    some (ipv4OfU32 addr, port)

/-- The legacy MAPPED-ADDRESS. -/
def parseMapped (val : Bytes) : Option SocketAddrV4 :=
  if val.length < 8 ∨ byteAt val 1 ≠ 0x01 then none
  else
    let port := u16be val 2
    let addr := u32be val 4
    some (ipv4OfU32 addr, port)

/-- The address of an attribute, by its type. -/
def attrAddress (atype : UInt16) (val : Bytes) : Option SocketAddrV4 :=
  if atype = attrXorMappedAddress then parseXorMapped val
  else if atype = attrMappedAddress then parseMapped val
  else none

def noAddress : String := "no MAPPED-ADDRESS attribute in STUN response"

/-- The loop of `parse_response` at offset `i`; `stop` is `end` in the
source. -/
def attrLoop (buf : Bytes) (stop i : Nat) : Except String SocketAddrV4 :=
  if i + 4 ≤ stop then
    let atype := u16be buf i
    let alen := (u16be buf (i + 2)).toNat
    let valStart := i + 4
    let valEnd := valStart + alen
    if valEnd > stop then .error noAddress
    else
      match attrAddress atype (slice buf valStart valEnd) with
      | some addr => .ok addr
      | none => attrLoop buf stop (valEnd + ((4 - (alen &&& 3)) &&& 3))
  else .error noAddress
termination_by stop - i

def parseResponse (buf : Bytes) (txid : Arr 12) : Except String SocketAddrV4 :=
  if buf.length < 20 then .error s!"STUN response too short ({buf.length} bytes)"
  else if u16be buf 0 ≠ bindingResponseType then
    .error ("not a STUN Binding Response (type 0x" ++ hexPadded 4 (u16be buf 0).toNat ++ ")")
  else if u32be buf 4 ≠ magicCookie then
    .error ("bad STUN magic cookie 0x" ++ hexPadded 8 (u32be buf 4).toNat)
  else if slice buf 8 20 ≠ txid.1 then .error "STUN transaction id mismatch"
  else
    let msgLen := (u16be buf 2).toNat
    attrLoop buf (min (20 + msgLen) buf.length) 20

end TailscaleRust.Core.Stun
