import TailscaleRust.Core.Net

/-!
# Echo replies (`core/src/icmp.rs`)

The reply is the request with the addresses swapped, the type byte changed
and the checksums computed again, cut to the length the header declares.
-/

namespace TailscaleRust.Core.Icmp

open TailscaleRust.Lib TailscaleRust.Core

def protoIcmp : UInt8 := 1
def icmpEchoRequest : UInt8 := 8
def icmpEchoReply : UInt8 := 0
def nextHdrIcmpv6 : UInt8 := 58
def icmpv6EchoRequest : UInt8 := 128
def icmpv6EchoReply : UInt8 := 129

def checksum (data : Bytes) : UInt16 := finish (sum16 data 0)

/-- The header length an IPv4 packet declares, `(inner[0] & 0x0f) * 4`. -/
def ihlOf (inner : Bytes) : Nat := (byteAt inner 0 &&& 0x0f).toNat * 4

/-- The total length an IPv4 packet declares. -/
def totalOf (inner : Bytes) : Nat := (u16be inner 2).toNat

/-- The IP version nibble. -/
def versionOf (inner : Bytes) : UInt8 := byteAt inner 0 >>> 4

def echoReply (inner : Bytes) : Option Bytes :=
  if inner.length < 20 ∨ versionOf inner ≠ 4 then none
  else
    let ihl := ihlOf inner
    let totalLen := totalOf inner
    if ihl < 20 ∨ totalLen < ihl ∨ totalLen > inner.length then none
    else if byteAt inner 9 ≠ protoIcmp then none
    else
      let icmp := slice inner ihl totalLen
      if icmp.length < 8 ∨ byteAt icmp 0 ≠ icmpEchoRequest then none
      else
        let pkt := slice inner 0 totalLen
        let src := slice pkt 12 16
        let dst := slice pkt 16 20
        let pkt := copyAt pkt 12 dst
        let pkt := copyAt pkt 16 src
        let pkt := copyAt pkt ihl [icmpEchoReply]
        let pkt := copyAt pkt (ihl + 2) [0, 0]
        let csum := checksum (slice pkt ihl totalLen)
        let pkt := copyAt pkt (ihl + 2) (be16 csum)
        let pkt := copyAt pkt 10 [0, 0]
        let ipsum := checksum (slice pkt 0 ihl)
        some (copyAt pkt 10 (be16 ipsum))

/-- The checksum over the IPv6 pseudo-header (addresses, upper-layer length,
next header) and the message. -/
def icmpv6Checksum (src dst msg : Bytes) : UInt16 :=
  let sum := sum16 dst (sum16 src 0)
  let len := UInt32.ofNat msg.length
  let sum := sum + ((len >>> 16) &&& 0xffff)
  let sum := sum + (len &&& 0xffff)
  let sum := sum + nextHdrIcmpv6.toUInt32
  finish (sum16 msg sum)

def echoReplyV6 (inner : Bytes) : Option Bytes :=
  if inner.length < 40 ∨ versionOf inner ≠ 6 ∨ byteAt inner 6 ≠ nextHdrIcmpv6 then none
  else
    let payloadLen := (u16be inner 4).toNat
    let total := 40 + payloadLen
    if payloadLen < 8 ∨ total > inner.length then none
    else if byteAt inner 40 ≠ icmpv6EchoRequest then none
    else
      let pkt := slice inner 0 total
      let src := slice pkt 8 24
      let dst := slice pkt 24 40
      let pkt := copyAt pkt 8 dst
      let pkt := copyAt pkt 24 src
      let pkt := copyAt pkt 40 [icmpv6EchoReply]
      let pkt := copyAt pkt 42 [0, 0]
      let csum := icmpv6Checksum (slice pkt 8 24) (slice pkt 24 40) (slice pkt 40 total)
      some (copyAt pkt 42 (be16 csum))

/-- Answer `ping` and `ping6` over the same tunnel. -/
def echoReplyAny (inner : Bytes) : Option Bytes :=
  match inner.head? with
  | none => none
  | some b =>
      if b >>> 4 = 4 then echoReply inner
      else if b >>> 4 = 6 then echoReplyV6 inner
      else none

end TailscaleRust.Core.Icmp
