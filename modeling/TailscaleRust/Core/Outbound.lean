import TailscaleRust.Core.Tcp

/-!
# Device-initiated traffic (`core/src/outbound.rs`)

Builders for the packets the device sends on its own, and a TCP client for
one request. As everywhere, a random draw is an argument.
-/

namespace TailscaleRust.Core.Outbound

open TailscaleRust.Lib TailscaleRust.Core TailscaleRust.Core.Icmp
open TailscaleRust.Core.Tcp (protoTcp fin syn psh)

def protoUdp : UInt8 := 17

def checksum (data : Bytes) : UInt16 := finish (sum16 data 0)

/-- TCP/UDP checksum over the IPv4 pseudo-header and the segment. -/
def l4Checksum (src dst : Ipv4Addr) (proto : UInt8) (l4 : Bytes) : UInt16 :=
  finish (sum16 l4 (sum16 (pseudoHeader src dst proto l4.length) 0))

/-- Wrap an L4 payload in an IPv4 header. -/
def ipv4Packet (src dst : Ipv4Addr) (proto : UInt8) (l4 : Bytes) : Bytes :=
  ipv4Header src dst proto (20 + l4.length) ++ l4

/-- An IPv4 ICMP echo request. -/
def icmpEchoRequest (src dst : Ipv4Addr) (ident seq : UInt16) (payload : Bytes) : Bytes :=
  let icmp := [8, 0, 0, 0] ++ be16 ident ++ be16 seq ++ payload
  ipv4Packet src dst protoIcmp (copyAt icmp 2 (be16 (checksum icmp)))

/-- An IPv4 UDP datagram. -/
def udpDatagram (src dst : Ipv4Addr) (sport dport : UInt16) (payload : Bytes) : Bytes :=
  let udp := be16 sport ++ be16 dport ++ be16 (UInt16.ofNat (8 + payload.length))
    ++ [0, 0] ++ payload
  ipv4Packet src dst protoUdp (copyAt udp 6 (be16 (l4Checksum src dst protoUdp udp)))

/-- A single-connection TCP client, enough for one HTTP request. -/
structure TcpClient where
  src : Ipv4Addr
  dst : Ipv4Addr
  sport : UInt16
  dport : UInt16
  sndNxt : UInt32
  rcvNxt : UInt32
  request : Bytes
  response : Bytes
  done : Bool
  established : Bool
  deriving DecidableEq

/-- `rand` is the draw of `rand32`. -/
def TcpClient.new (src dst : Ipv4Addr) (sport dport : UInt16) (request : Bytes)
    (rand : UInt32) : TcpClient where
  src := src
  dst := dst
  sport := sport
  dport := dport
  sndNxt := max (rand &&& 0x7fffffff) 1
  rcvNxt := 0
  request := request
  response := []
  done := false
  established := false

def TcpClient.segment (self : TcpClient) (flags : UInt8) (payload : Bytes) : Bytes :=
  ipv4Packet self.src self.dst protoTcp
    (tcpSegment self.src self.dst self.sport self.dport self.sndNxt self.rcvNxt flags payload)

/-- The SYN, `open` in the source. -/
def TcpClient.openSyn (self : TcpClient) : Bytes × TcpClient :=
  (self.segment syn [], { self with sndNxt := self.sndNxt + 1 })

/-- Does the segment belong to this connection? -/
def TcpClient.owns (self : TcpClient) (inner : Bytes) : Bool :=
  if inner.length < 20 ∨ versionOf inner ≠ 4 ∨ byteAt inner 9 ≠ protoTcp then false
  else if inner.length < ihlOf inner + 4 then false
  else u16be inner (ihlOf inner + 2) = self.sport

/-- In-order data is kept and everything with data is acknowledged. -/
def TcpClient.onData (self : TcpClient) (seq : UInt32) (payload : Bytes) :
    List Bytes × TcpClient :=
  if payload = [] then ([], self)
  else
    let self :=
      if seq = self.rcvNxt then
        { self with response := self.response ++ payload
                    rcvNxt := self.rcvNxt + UInt32.ofNat payload.length }
      else self
    ([self.segment Tcp.ack []], self)

def TcpClient.onFin (self : TcpClient) (flags : UInt8) : List Bytes × TcpClient :=
  if flags &&& fin ≠ 0 then
    let self := { self with rcvNxt := self.rcvNxt + 1 }
    ([self.segment Tcp.ack [], self.segment (fin ||| Tcp.ack) []], { self with done := true })
  else ([], self)

/-- Feed a segment from the server; returns the segments to send back. -/
def TcpClient.onInner (self : TcpClient) (inner : Bytes) : List Bytes × TcpClient :=
  if !self.owns inner ∨ self.done then ([], self)
  else
    let ihl := ihlOf inner
    let total := totalOf inner
    if total < ihl + 20 ∨ total > inner.length then ([], self)
    else
      let tcp := slice inner ihl total
      let seq := u32be tcp 4
      let dataOff := (byteAt tcp 12 >>> 4).toNat * 4
      let flags := byteAt tcp 13
      if dataOff < 20 ∨ dataOff > tcp.length then ([], self)
      else
        let payload := tcp.drop dataOff
        if flags &&& syn ≠ 0 ∧ flags &&& Tcp.ack ≠ 0 ∧ !self.established then
          let self := { self with rcvNxt := seq + 1, established := true }
          ([self.segment Tcp.ack [], self.segment (psh ||| Tcp.ack) self.request],
            { self with sndNxt := self.sndNxt + UInt32.ofNat self.request.length })
        else
          let (out, self) := self.onData seq payload
          let (out', self) := self.onFin flags
          (out ++ out', self)

end TailscaleRust.Core.Outbound
