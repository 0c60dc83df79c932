import TailscaleRust.Core.Stun
import TailscaleRust.Lib.Checked

/-!
# The STUN parser with its checks

`parse_response` once more, with every index, range and sum of offsets
checked.
-/

namespace TailscaleRust.Strict

open TailscaleRust.Lib TailscaleRust.Lib.Checked TailscaleRust.Core TailscaleRust.Core.Stun

/-- The guard of both attribute parsers. -/
def isIpv4Value (val : Bytes) : Checked Bool := do
  if val.length < 8 then return false
  else return (← index val 1) = 0x01

def parseXorMapped (val : Bytes) : Checked (Option SocketAddrV4) := do
  if !(← isIpv4Value val) then return none
  let xPort ← u16Of val 2 3
  let xAddr ← u32beOf val 4
  return some (ipv4OfU32 (xAddr ^^^ magicCookie), xPort ^^^ (magicCookie >>> 16).toUInt16)

def parseMapped (val : Bytes) : Checked (Option SocketAddrV4) := do
  if !(← isIpv4Value val) then return none
  let port ← u16Of val 2 3
  let addr ← u32beOf val 4
  return some (ipv4OfU32 addr, port)

def attrAddress (atype : UInt16) (val : Bytes) : Checked (Option SocketAddrV4) :=
  if atype = attrXorMappedAddress then parseXorMapped val
  else if atype = attrMappedAddress then parseMapped val
  else return none

/-- The loop at offset `i`. It fails when the fuel is used up, so that a run
which does not fail has ended by itself. -/
def attrLoop (buf : Bytes) (stop : Nat) : Nat → Nat → Checked (Except String SocketAddrV4)
  | 0, _ => .error .overflow
  | fuel + 1, i => do
      if (← addUsize i 4) ≤ stop then
        let atype ← u16Of buf i (← addUsize i 1)
        let alen := (← u16Of buf (← addUsize i 2) (← addUsize i 3)).toNat
        let valStart ← addUsize i 4
        let valEnd ← addUsize valStart alen
        if valEnd > stop then return .error noAddress
        match ← attrAddress atype (← range buf valStart valEnd) with
        | some addr => return .ok addr
        | none =>
            let pad := (← subUsize 4 (alen &&& 3)) &&& 3
            attrLoop buf stop fuel (← addUsize valEnd pad)
      else return .error noAddress

def parseResponse (buf : Bytes) (txid : Arr 12) : Checked (Except String SocketAddrV4) := do
  if buf.length < 20 then
    return .error s!"STUN response too short ({buf.length} bytes)"
  let msgType ← u16Of buf 0 1
  if msgType ≠ bindingResponseType then
    return .error ("not a STUN Binding Response (type 0x" ++ hexPadded 4 msgType.toNat ++ ")")
  let cookie ← u32beOf buf 4
  if cookie ≠ magicCookie then
    return .error ("bad STUN magic cookie 0x" ++ hexPadded 8 cookie.toNat)
  if (← range buf 8 20) ≠ txid.1 then return .error "STUN transaction id mismatch"
  let msgLen := (← u16Of buf 2 3).toNat
  attrLoop buf (min (← addUsize 20 msgLen) buf.length) buf.length 20

end TailscaleRust.Strict
