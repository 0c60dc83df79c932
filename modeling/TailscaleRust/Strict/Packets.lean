import TailscaleRust.Firmware.Dataplane
import TailscaleRust.Lib.Checked

/-!
# The packet code with its checks

The parsers and builders of inner packets once more, statement by statement,
in the monad in which an index, a range or an addition can fail. What the
source reads with `[..]` is read with `index` and `range` here, and the
sums and offsets it adds are added with a check. A guard that the source
evaluates from left to right is a sequence of guards, since a later part may
read what an earlier part made safe.

Where the total model shares a definition among the copies of a loop or of a
builder in the source, so does this one. `wrapping_add` is `+` on the
machine type, as before.
-/

namespace TailscaleRust.Strict

open TailscaleRust.Lib TailscaleRust.Lib.Checked TailscaleRust.Core
open TailscaleRust.Core.Icmp (protoIcmp icmpEchoRequest icmpEchoReply nextHdrIcmpv6
  icmpv6EchoRequest icmpv6EchoReply)
open TailscaleRust.Core.Tcp
open TailscaleRust.Core.Outbound (TcpClient protoUdp)

/-! ## Checksums -/

/-- The loop of `sum16` at offset `i`. -/
def sum16Loop (data : Bytes) : Nat → Nat → UInt32 → Checked UInt32
  | 0, _, sum => return sum
  | fuel + 1, i, sum => do
      if (← addUsize i 1) < data.length then
        let word ← u16Of data i (← addUsize i 1)
        let sum ← addU32 sum word.toUInt32
        sum16Loop data fuel (← addUsize i 2) sum
      else if i < data.length then
        addU32 sum ((← index data i).toUInt32 <<< 8)
      else return sum

def sum16 (data : Bytes) (sum : UInt32) : Checked UInt32 :=
  sum16Loop data (data.length + 1) 0 sum

/-- The carry loop, with the passes a 32-bit sum needs. -/
def foldCarries : Nat → UInt32 → Checked UInt32
  | 0, sum => return sum
  | fuel + 1, sum => do
      if sum >>> 16 ≠ 0 then foldCarries fuel (← addU32 (sum &&& 0xffff) (sum >>> 16))
      else return sum

def finish (sum : UInt32) : Checked UInt16 := do
  return ~~~ (← foldCarries 3 sum).toUInt16

def checksum (data : Bytes) : Checked UInt16 := do
  finish (← sum16 data 0)

/-- `l4_checksum`, and `tcp_checksum` with the protocol TCP. -/
def l4Checksum (src dst : Ipv4Addr) (proto : UInt8) (l4 : Bytes) : Checked UInt16 := do
  let ph ← copyInto (zeros 12) 0 4 src.1
  let ph ← copyInto ph 4 8 dst.1
  let ph ← setAt ph 9 proto
  let ph ← copyInto ph 10 12 (be16 (UInt16.ofNat l4.length))
  finish (← sum16 l4 (← sum16 ph 0))

/-- The `tcp_checksum` of the proxy. -/
def proxyTcpChecksum (src dst : Ipv4Addr) (tcp : Bytes) : Checked UInt16 := do
  let ph ← copyInto (zeros 12) 0 4 src.1
  let ph ← copyInto ph 4 8 dst.1
  let ph ← setAt ph 9 protoTcp
  let ph ← copyInto ph 10 12 (be16 (UInt16.ofNat tcp.length))
  finish (← [ph, tcp].foldlM (fun sum b => sum16 b sum) 0)

def icmpv6Checksum (src dst : Arr 16) (msg : Bytes) : Checked UInt16 := do
  let sum ← sum16 dst.1 (← sum16 src.1 0)
  let len := UInt32.ofNat msg.length
  let sum ← addU32 sum ((len >>> 16) &&& 0xffff)
  let sum ← addU32 sum (len &&& 0xffff)
  let sum ← addU32 sum nextHdrIcmpv6.toUInt32
  finish (← sum16 msg sum)

/-! ## Headers -/

/-- `(inner[0] & 0x0f) as usize * 4`. -/
def ihlOf (inner : Bytes) : Checked Nat := do
  mulUsize ((← index inner 0) &&& 0x0f).toNat 4

/-- `u16::from_be_bytes([inner[2], inner[3]]) as usize`. -/
def totalOf (inner : Bytes) : Checked Nat := do
  return (← u16Of inner 2 3).toNat

/-- The lines that fill an IPv4 header, the same in all builders. -/
def fillIpv4 (pkt : Bytes) (src dst : Ipv4Addr) (proto : UInt8) (total : Nat) :
    Checked Bytes := do
  let pkt ← setAt pkt 0 0x45
  let pkt ← copyInto pkt 2 4 (be16 (UInt16.ofNat total))
  let pkt ← setAt pkt 6 0x40
  let pkt ← setAt pkt 8 64
  let pkt ← setAt pkt 9 proto
  let pkt ← copyInto pkt 12 16 src.1
  let pkt ← copyInto pkt 16 20 dst.1
  let sum ← checksum (← range pkt 0 20)
  copyInto pkt 10 12 (be16 sum)

/-- The lines that fill a TCP segment but for its checksum. -/
def fillTcp (t : Bytes) (sport dport : UInt16) (seq ack : UInt32) (flags : UInt8)
    (payload : Bytes) : Checked Bytes := do
  let t ← copyInto t 0 2 (be16 sport)
  let t ← copyInto t 2 4 (be16 dport)
  let t ← copyInto t 4 8 (be32 seq)
  let t ← copyInto t 8 12 (be32 ack)
  let t ← setAt t 12 0x50
  let t ← setAt t 13 flags
  let t ← copyInto t 14 16 (be16 64240)
  copyInto t 20 t.length payload

/-! ## Echo -/

def echoReply (inner : Bytes) : Checked (Option Bytes) := do
  if inner.length < 20 then return none
  if (← index inner 0) >>> 4 ≠ 4 then return none
  let ihl ← ihlOf inner
  let totalLen ← totalOf inner
  if ihl < 20 ∨ totalLen < ihl ∨ totalLen > inner.length then return none
  if (← index inner 9) ≠ protoIcmp then return none
  let icmp ← range inner ihl totalLen
  if icmp.length < 8 then return none
  if (← index icmp 0) ≠ icmpEchoRequest then return none
  let pkt ← range inner 0 totalLen
  let src ← toArray 4 (← range pkt 12 16)
  let dst ← toArray 4 (← range pkt 16 20)
  let pkt ← copyInto pkt 12 16 dst.1
  let pkt ← copyInto pkt 16 20 src.1
  let pkt ← setAt pkt ihl icmpEchoReply
  let pkt ← setAt pkt (← addUsize ihl 2) 0
  let pkt ← setAt pkt (← addUsize ihl 3) 0
  let csum ← checksum (← range pkt ihl totalLen)
  let pkt ← copyInto pkt (← addUsize ihl 2) (← addUsize ihl 4) (be16 csum)
  let pkt ← setAt pkt 10 0
  let pkt ← setAt pkt 11 0
  let ipsum ← checksum (← range pkt 0 ihl)
  return some (← copyInto pkt 10 12 (be16 ipsum))

def echoReplyV6 (inner : Bytes) : Checked (Option Bytes) := do
  if inner.length < 40 then return none
  if (← index inner 0) >>> 4 ≠ 6 then return none
  if (← index inner 6) ≠ nextHdrIcmpv6 then return none
  let payloadLen := (← u16Of inner 4 5).toNat
  let total ← addUsize 40 payloadLen
  if payloadLen < 8 ∨ total > inner.length then return none
  if (← index inner 40) ≠ icmpv6EchoRequest then return none
  let pkt ← range inner 0 total
  let src ← toArray 16 (← range pkt 8 24)
  let dst ← toArray 16 (← range pkt 24 40)
  let pkt ← copyInto pkt 8 24 dst.1
  let pkt ← copyInto pkt 24 40 src.1
  let pkt ← setAt pkt 40 icmpv6EchoReply
  let pkt ← setAt pkt 42 0
  let pkt ← setAt pkt 43 0
  let nsrc ← toArray 16 (← range pkt 8 24)
  let ndst ← toArray 16 (← range pkt 24 40)
  let csum ← icmpv6Checksum nsrc ndst (← range pkt 40 total)
  return some (← copyInto pkt 42 44 (be16 csum))

def echoReplyAny (inner : Bytes) : Checked (Option Bytes) :=
  match inner.head? with
  | none => return none
  | some b =>
      if b >>> 4 = 4 then echoReply inner
      else if b >>> 4 = 6 then echoReplyV6 inner
      else return none

/-! ## TCP -/

/-- The head of `TcpServer::handle` and `TcpProxy::handle`. -/
def parseSegment (inner : Bytes) : Checked (Option Segment) := do
  if inner.length < 20 then return none
  if (← index inner 0) >>> 4 ≠ 4 then return none
  if (← index inner 9) ≠ protoTcp then return none
  let ihl ← ihlOf inner
  let total ← totalOf inner
  if ihl < 20 then return none
  if total < (← addUsize ihl 20) then return none
  if total > inner.length then return none
  let srcIp ← toArray 4 (← range inner 12 16)
  let dstIp ← toArray 4 (← range inner 16 20)
  let tcp ← range inner ihl total
  let sport ← u16Of tcp 0 1
  let dport ← u16Of tcp 2 3
  let seq ← u32beOf tcp 4
  let dataOff ← mulUsize ((← index tcp 12) >>> 4).toNat 4
  let flags ← index tcp 13
  if dataOff < 20 ∨ dataOff > tcp.length then return none
  let payload ← rangeFrom tcp dataOff
  return some { srcIp, dstIp, sport, dport, seq, flags, payload }

/-- `TcpServer::segment` and `TcpProxy::segment`, which differ in the port. -/
def connSegment (ourIp clientIp : Ipv4Addr) (port clientPort : UInt16) (sndNxt rcvNxt : UInt32)
    (flags : UInt8) (payload : Bytes) : Checked Bytes := do
  let tcpLen ← addUsize 20 payload.length
  let total ← addUsize 20 tcpLen
  let pkt ← fillIpv4 (zeros total) ourIp clientIp protoTcp total
  -- `t` is the rest of `pkt`, written in place
  let t ← rangeFrom pkt 20
  let t ← fillTcp t port clientPort sndNxt rcvNxt flags payload
  let pkt := slice pkt 0 20 ++ t
  let tsum ← l4Checksum ourIp clientIp protoTcp (← rangeFrom pkt 20)
  copyInto pkt 36 38 (be16 tsum)

def TcpServer.segment (self : TcpServer) (flags : UInt8) (payload : Bytes) : Checked Bytes :=
  let c := self.conn
  connSegment c.ourIp c.clientIp httpPort c.clientPort c.sndNxt c.rcvNxt flags payload

def TcpServer.handle (self : TcpServer) (inner : Bytes) (iss : UInt32) :
    Checked (List Bytes × TcpServer) := do
  match ← parseSegment inner with
  | none => return ([], self)
  | some s =>
      if s.dport ≠ httpPort then return ([], self)
      if s.flags &&& syn ≠ 0 then
        let conn : Tcp.Conn :=
          { active := true, clientIp := s.srcIp, ourIp := s.dstIp, clientPort := s.sport
            rcvNxt := s.seq + 1, sndNxt := iss }
        let seg ← TcpServer.segment ⟨conn⟩ (syn ||| Tcp.ack) []
        return ([seg], ⟨{ conn with sndNxt := conn.sndNxt + 1 }⟩)
      if !self.conn.active ∨ s.srcIp ≠ self.conn.clientIp
          ∨ s.sport ≠ self.conn.clientPort then
        return ([], self)
      if s.flags &&& rst ≠ 0 then return ([], ⟨Tcp.Conn.default⟩)
      if s.payload ≠ [] then
        let conn := { self.conn with rcvNxt := s.seq + UInt32.ofNat s.payload.length }
        let resp := httpResponse (page conn.ourIp)
        let seg ← TcpServer.segment ⟨conn⟩ (psh ||| Tcp.ack ||| fin) resp
        return ([seg], ⟨{ conn with sndNxt := conn.sndNxt + UInt32.ofNat resp.length + 1 }⟩)
      if s.flags &&& fin ≠ 0 then
        let conn := { self.conn with rcvNxt := s.seq + 1 }
        let seg ← TcpServer.segment ⟨conn⟩ Tcp.ack []
        return ([seg], ⟨Tcp.Conn.default⟩)
      return ([], self)

/-! ## The client -/

def ipv4Packet (src dst : Ipv4Addr) (proto : UInt8) (l4 : Bytes) : Checked Bytes := do
  let total ← addUsize 20 l4.length
  let pkt ← fillIpv4 (zeros total) src dst proto total
  copyInto pkt 20 pkt.length l4

def TcpClient.segment (self : TcpClient) (flags : UInt8) (payload : Bytes) : Checked Bytes := do
  let tcp := zeros (← addUsize 20 payload.length)
  let tcp ← fillTcp tcp self.sport self.dport self.sndNxt self.rcvNxt flags payload
  let c ← l4Checksum self.src self.dst protoTcp tcp
  let tcp ← copyInto tcp 16 18 (be16 c)
  ipv4Packet self.src self.dst protoTcp tcp

def TcpClient.owns (self : TcpClient) (inner : Bytes) : Checked Bool := do
  if inner.length < 20 then return false
  if (← index inner 0) >>> 4 ≠ 4 then return false
  if (← index inner 9) ≠ protoTcp then return false
  let ihl ← ihlOf inner
  if inner.length < (← addUsize ihl 4) then return false
  let dport ← u16Of inner (← addUsize ihl 2) (← addUsize ihl 3)
  return dport = self.sport

def TcpClient.onData (self : TcpClient) (seq : UInt32) (payload : Bytes) :
    Checked (List Bytes × TcpClient) := do
  if payload = [] then return ([], self)
  let self :=
    if seq = self.rcvNxt then
      { self with response := self.response ++ payload
                  rcvNxt := self.rcvNxt + UInt32.ofNat payload.length }
    else self
  let seg ← TcpClient.segment self Tcp.ack []
  return ([seg], self)

def TcpClient.onFin (self : TcpClient) (flags : UInt8) : Checked (List Bytes × TcpClient) := do
  if flags &&& fin ≠ 0 then
    let self := { self with rcvNxt := self.rcvNxt + 1 }
    let seg ← TcpClient.segment self Tcp.ack []
    let last ← TcpClient.segment self (fin ||| Tcp.ack) []
    return ([seg, last], { self with done := true })
  else return ([], self)

def TcpClient.onInner (self : TcpClient) (inner : Bytes) :
    Checked (List Bytes × TcpClient) := do
  if !(← TcpClient.owns self inner) ∨ self.done then return ([], self)
  let ihl ← ihlOf inner
  let total ← totalOf inner
  if total < (← addUsize ihl 20) then return ([], self)
  if total > inner.length then return ([], self)
  let tcp ← range inner ihl total
  let seq ← u32beOf tcp 4
  let dataOff ← mulUsize ((← index tcp 12) >>> 4).toNat 4
  let flags ← index tcp 13
  if dataOff < 20 ∨ dataOff > tcp.length then return ([], self)
  let payload ← rangeFrom tcp dataOff
  if flags &&& syn ≠ 0 ∧ flags &&& Tcp.ack ≠ 0 ∧ !self.established then
    let self := { self with rcvNxt := seq + 1, established := true }
    let seg ← TcpClient.segment self Tcp.ack []
    let req ← TcpClient.segment self (psh ||| Tcp.ack) self.request
    return ([seg, req], { self with sndNxt := self.sndNxt + UInt32.ofNat self.request.length })
  let (out, self) ← TcpClient.onData self seq payload
  let (out', self) ← TcpClient.onFin self flags
  return (out ++ out', self)

/-! ## The proxy -/

section Proxy

open TailscaleRust.Firmware.Proxy

variable (listenPort : UInt16) (lanFetch : Bytes → Bytes)

def TcpProxy.segment (c : Firmware.Proxy.Conn) (flags : UInt8) (payload : Bytes) :
    Checked Bytes :=
  connSegment c.ourIp c.clientIp listenPort c.clientPort c.sndNxt c.rcvNxt flags payload

/-- The read loop of `lan_fetch` over what the socket returns: an empty read
or an error ends it, and so does a response of more than 64 KiB. -/
def fetchLoop : List Bytes → Bytes → Bytes
  | [], buf => buf
  | chunk :: chunks, buf =>
      if chunk = [] then buf
      else if (buf ++ chunk).length > 64 * 1024 then buf ++ chunk
      else fetchLoop chunks (buf ++ chunk)

/-- What `lan_fetch` can return. A read fills at most the buffer of 1460
bytes. -/
def Fetched (resp : Bytes) : Prop :=
  ∃ chunks : List Bytes, (∀ chunk ∈ chunks, chunk.length ≤ 1460) ∧ resp = fetchLoop chunks []

/-- The loop over the response, at offset `i`. -/
def TcpProxy.stream (resp : Bytes) : Nat → Nat → Firmware.Proxy.Conn →
    Checked (List Bytes × Firmware.Proxy.Conn)
  | 0, _, c => return ([], c)
  | fuel + 1, i, c => do
      if i < resp.length then
        let stop := min (← addUsize i mss) resp.length
        let flags := if stop = resp.length then psh ||| Tcp.ack ||| fin else psh ||| Tcp.ack
        let seg ← TcpProxy.segment listenPort c flags (← range resp i stop)
        let sndNxt := c.sndNxt + UInt32.ofNat (← subUsize stop i)
        let c := { c with sndNxt := if stop = resp.length then sndNxt + 1 else sndNxt }
        let (segs, c) ← TcpProxy.stream resp fuel stop c
        return (seg :: segs, c)
      else return ([], c)

def TcpProxy.handle (self : TcpProxy) (inner : Bytes) (iss : UInt32) :
    Checked (List Bytes × TcpProxy) := do
  match ← parseSegment inner with
  | none => return ([], self)
  | some s =>
      if s.dport ≠ listenPort then return ([], self)
      if s.flags &&& syn ≠ 0 then
        let c : Firmware.Proxy.Conn :=
          { active := true, clientIp := s.srcIp, ourIp := s.dstIp, clientPort := s.sport
            rcvNxt := s.seq + 1, sndNxt := iss, fetched := false }
        let seg ← TcpProxy.segment listenPort c (syn ||| Tcp.ack) []
        return ([seg], ⟨{ c with sndNxt := c.sndNxt + 1 }⟩)
      if !self.conn.active ∨ s.srcIp ≠ self.conn.clientIp
          ∨ s.sport ≠ self.conn.clientPort then
        return ([], self)
      if s.flags &&& rst ≠ 0 then return ([], ⟨Firmware.Proxy.Conn.default⟩)
      if s.payload ≠ [] ∧ !self.conn.fetched then
        let c := { self.conn with
          rcvNxt := s.seq + UInt32.ofNat s.payload.length, fetched := true }
        let ackSeg ← TcpProxy.segment listenPort c Tcp.ack []
        let resp := lanFetch s.payload
        if resp = [] then
          let seg ← TcpProxy.segment listenPort c (fin ||| Tcp.ack) []
          return ([ackSeg, seg], ⟨{ c with sndNxt := c.sndNxt + 1 }⟩)
        let (segs, c) ← TcpProxy.stream listenPort resp resp.length 0 c
        return (ackSeg :: segs, ⟨c⟩)
      if s.flags &&& fin ≠ 0 then
        let c := { self.conn with rcvNxt := s.seq + 1 }
        let seg ← TcpProxy.segment listenPort c Tcp.ack []
        return ([seg], ⟨Firmware.Proxy.Conn.default⟩)
      return ([], self)

end Proxy

/-! ## The filter and the UDP parser -/

def srcAllowed (allowed : Option (List Peers.Cidr)) (inner : Bytes) : Checked Bool := do
  match allowed with
  | none => return true
  | some cidrs =>
      if inner.length < 16 then return true
      if (← index inner 0) >>> 4 ≠ 4 then return true
      return Peers.cidrMatch cidrs (← u32beOf inner 12)

def udpPayloadToPort (inner : Bytes) (port : UInt16) : Checked (Option Bytes) := do
  if inner.length < 20 then return none
  if (← index inner 0) >>> 4 ≠ 4 then return none
  if (← index inner 9) ≠ protoUdp then return none
  let ihl ← ihlOf inner
  let total ← totalOf inner
  if (← addUsize ihl 8) > total then return none
  if total > inner.length then return none
  let udp ← range inner ihl total
  if (← u16Of udp 2 3) ≠ port then return none
  return some (← rangeFrom udp 8)

end TailscaleRust.Strict
