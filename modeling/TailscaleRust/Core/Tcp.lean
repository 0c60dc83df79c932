import TailscaleRust.Core.Icmp

/-!
# The in-tunnel HTTP server (`core/src/tcp.rs`)

One connection at a time. `handle` takes the initial sequence number it
would draw as an argument and returns the segments to send with the new
state. The parsing at its head is shared, word for word, with the proxy, so
it is a function of its own.
-/

namespace TailscaleRust.Core.Tcp

open TailscaleRust.Lib TailscaleRust.Core TailscaleRust.Core.Icmp

def protoTcp : UInt8 := 6
def httpPort : UInt16 := 80

def fin : UInt8 := 0x01
def syn : UInt8 := 0x02
def rst : UInt8 := 0x04
def psh : UInt8 := 0x08
def ack : UInt8 := 0x10

def checksum (data : Bytes) : UInt16 := finish (sum16 data 0)

/-- The checksum over the pseudo-header and the segment. -/
def tcpChecksum (src dst : Ipv4Addr) (tcp : Bytes) : UInt16 :=
  let s := sum16 (pseudoHeader src dst protoTcp tcp.length) 0
  let s := sum16 tcp s
  finish s

/-- What `handle` reads of a packet before it looks at its own state. -/
structure Segment where
  srcIp : Ipv4Addr
  dstIp : Ipv4Addr
  sport : UInt16
  dport : UInt16
  seq : UInt32
  flags : UInt8
  payload : Bytes

/-- The checks and reads `TcpServer::handle` and `TcpProxy::handle` begin
with. -/
def parseSegment (inner : Bytes) : Option Segment :=
  if inner.length < 20 ∨ versionOf inner ≠ 4 ∨ byteAt inner 9 ≠ protoTcp then none
  else
    let ihl := ihlOf inner
    let total := totalOf inner
    if ihl < 20 ∨ total < ihl + 20 ∨ total > inner.length then none
    else
      let tcp := slice inner ihl total
      let dataOff := (byteAt tcp 12 >>> 4).toNat * 4
      if dataOff < 20 ∨ dataOff > tcp.length then none
      else some
        { srcIp := arrAt inner 12 4, dstIp := arrAt inner 16 4
          sport := u16be tcp 0, dport := u16be tcp 2, seq := u32be tcp 4
          flags := byteAt tcp 13, payload := tcp.drop dataOff }

structure Conn where
  active : Bool
  clientIp : Ipv4Addr
  ourIp : Ipv4Addr
  clientPort : UInt16
  rcvNxt : UInt32
  sndNxt : UInt32
  deriving DecidableEq

def Conn.default : Conn := ⟨false, Arr.zero 4, Arr.zero 4, 0, 0, 0⟩

structure TcpServer where
  conn : Conn
  deriving DecidableEq

def TcpServer.new : TcpServer := ⟨Conn.default⟩

/-- The decimal digits of a number, as `format!` prints it. -/
def decimal (n : Nat) : Bytes := ascii (toString n)

def httpResponse (body : Bytes) : Bytes :=
  ascii "HTTP/1.1 200 OK\r\nContent-Type: text/html; charset=utf-8\r\nContent-Length: "
    ++ decimal body.length ++ ascii "\r\nConnection: close\r\n\r\n" ++ body

/-- `a.b.c.d`. -/
def dotted (ip : Ipv4Addr) : Bytes :=
  decimal (byteAt ip.1 0).toNat ++ ascii "." ++ decimal (byteAt ip.1 1).toNat ++ ascii "."
    ++ decimal (byteAt ip.1 2).toNat ++ ascii "." ++ decimal (byteAt ip.1 3).toNat

def page (ourIp : Ipv4Addr) : Bytes :=
  ascii "<!doctype html><html><head><meta charset=utf-8><title>Tailscale-Rust</title></head>"
    ++ ascii "<body style=\"font-family:sans-serif\"><h1>Tailscale-Rust on T-Dongle S3</h1>"
    ++ ascii "<p>Pure-Rust WireGuard tunnel, no DERP.</p>"
    ++ ascii "<p>Tailscale IP: " ++ dotted ourIp ++ ascii "</p></body></html>"

/-- An inner packet from us to the client. -/
def TcpServer.segment (self : TcpServer) (flags : UInt8) (payload : Bytes) : Bytes :=
  let c := self.conn
  ipv4Header c.ourIp c.clientIp protoTcp (40 + payload.length)
    ++ tcpSegment c.ourIp c.clientIp httpPort c.clientPort c.sndNxt c.rcvNxt flags payload

/-- Feed one inner packet; `iss` is the draw of `rand_u32`. -/
def TcpServer.handle (self : TcpServer) (inner : Bytes) (iss : UInt32) :
    List Bytes × TcpServer :=
  match parseSegment inner with
  | none => ([], self)
  | some s =>
      if s.dport ≠ httpPort then ([], self)
      else if s.flags &&& syn ≠ 0 then
        let conn : Conn :=
          { active := true, clientIp := s.srcIp, ourIp := s.dstIp, clientPort := s.sport
            rcvNxt := s.seq + 1, sndNxt := iss }
        let self : TcpServer := ⟨conn⟩
        ([self.segment (syn ||| ack) []], ⟨{ conn with sndNxt := conn.sndNxt + 1 }⟩)
      else if !self.conn.active ∨ s.srcIp ≠ self.conn.clientIp
          ∨ s.sport ≠ self.conn.clientPort then ([], self)
      else if s.flags &&& rst ≠ 0 then ([], ⟨Conn.default⟩)
      else if s.payload ≠ [] then
        let conn := { self.conn with rcvNxt := s.seq + UInt32.ofNat s.payload.length }
        let resp := httpResponse (page conn.ourIp)
        ([TcpServer.segment ⟨conn⟩ (psh ||| ack ||| fin) resp],
          ⟨{ conn with sndNxt := conn.sndNxt + UInt32.ofNat resp.length + 1 }⟩)
      else if s.flags &&& fin ≠ 0 then
        let conn := { self.conn with rcvNxt := s.seq + 1 }
        ([TcpServer.segment ⟨conn⟩ ack []], ⟨Conn.default⟩)
      else ([], self)

end TailscaleRust.Core.Tcp
