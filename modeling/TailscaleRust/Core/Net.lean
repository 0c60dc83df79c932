import TailscaleRust.Lib.Bytes

/-!
# Addresses and the internet checksum

The address types of `core::net` and the 16-bit one's-complement sum. The
source writes the sum out four times (`icmp.rs`, `tcp.rs`, `outbound.rs`,
`proxy.rs`); the four copies run the same loop, so the loop is here once and
each module applies it under its own names.
-/

namespace TailscaleRust.Core

open TailscaleRust.Lib

abbrev Ipv4Addr := Arr 4
abbrev Ipv6Addr := Arr 16

/-- `core::net::SocketAddr`; equality compares every field. -/
inductive SocketAddr where
  | v4 (ip : Ipv4Addr) (port : UInt16)
  | v6 (ip : Ipv6Addr) (port : UInt16) (flowinfo scopeId : UInt32)
  deriving DecidableEq

def SocketAddr.port : SocketAddr → UInt16
  | .v4 _ port => port
  | .v6 _ port _ _ => port

inductive IpAddr where
  | v4 (ip : Ipv4Addr)
  | v6 (ip : Ipv6Addr)
  deriving DecidableEq

def SocketAddr.ip : SocketAddr → IpAddr
  | .v4 ip _ => .v4 ip
  | .v6 ip _ _ _ => .v6 ip

/-- The big-endian 16-bit words of `data` added to `sum`, an odd last byte
counting as the high half of a word. -/
def sum16 : Bytes → UInt32 → UInt32
  | a :: b :: rest, sum => sum16 rest (sum + (a.toUInt32 <<< 8) + b.toUInt32)
  | [a], sum => sum + (a.toUInt32 <<< 8)
  | [], sum => sum

/-- One pass of the carry loop. -/
def foldCarry (sum : UInt32) : UInt32 := (sum &&& (0xffff : UInt32)) + (sum >>> 16)

/-- The carry loop. A 32-bit sum has no carry left after three passes. -/
def foldCarries : Nat → UInt32 → UInt32
  | 0, sum => sum
  | fuel + 1, sum => if sum >>> 16 ≠ 0 then foldCarries fuel (foldCarry sum) else sum

/-- Fold the carries and complement. -/
def finish (sum : UInt32) : UInt16 := ~~~ (foldCarries 3 sum).toUInt16

/-- The pseudo-header of TCP and UDP over IPv4. -/
def pseudoHeader (src dst : Ipv4Addr) (proto : UInt8) (len : Nat) : Bytes :=
  src.1 ++ dst.1 ++ [0, proto] ++ be16 (UInt16.ofNat len)

/-- The fixed 20-byte IPv4 header every segment builder writes: DF set, TTL
64, the header checksum over the header itself. -/
def ipv4Header (src dst : Ipv4Addr) (proto : UInt8) (total : Nat) : Bytes :=
  let head (sum : Bytes) : Bytes :=
    [0x45, 0] ++ be16 (UInt16.ofNat total) ++ [0, 0, 0x40, 0, 64, proto] ++ sum
      ++ src.1 ++ dst.1
  head (be16 (finish (sum16 (head [0, 0]) 0)))

/-- A TCP segment of the same builders: 20-byte header, window 64240, the
checksum over pseudo-header and segment. -/
def tcpSegment (src dst : Ipv4Addr) (sport dport : UInt16) (seq ack : UInt32)
    (flags : UInt8) (payload : Bytes) : Bytes :=
  let seg (sum : Bytes) : Bytes :=
    be16 sport ++ be16 dport ++ be32 seq ++ be32 ack ++ [0x50, flags]
      ++ be16 64240 ++ sum ++ [0, 0] ++ payload
  let bare := seg [0, 0]
  let csum := finish (sum16 bare (sum16 (pseudoHeader src dst 6 bare.length) 0))
  seg (be16 csum)

end TailscaleRust.Core
