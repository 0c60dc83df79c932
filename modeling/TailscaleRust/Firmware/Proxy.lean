import TailscaleRust.Core.Tcp

/-!
# The per-service TCP proxy (`src/proxy.rs`)

`lan_fetch` talks to a host on the local network; it enters as a function
from the request to the response, empty on any failure. The listen port is
part of the build's configuration.
-/

namespace TailscaleRust.Firmware.Proxy

open TailscaleRust.Lib TailscaleRust.Core TailscaleRust.Core.Tcp

/-- In-tunnel payload per segment. -/
def mss : Nat := 1024

structure Conn where
  active : Bool
  clientIp : Ipv4Addr
  ourIp : Ipv4Addr
  clientPort : UInt16
  rcvNxt : UInt32
  sndNxt : UInt32
  fetched : Bool
  deriving DecidableEq

def Conn.default : Conn := ⟨false, Arr.zero 4, Arr.zero 4, 0, 0, 0, false⟩

structure TcpProxy where
  conn : Conn
  deriving DecidableEq

def TcpProxy.new : TcpProxy := ⟨Conn.default⟩

/-- One loop adds up the pseudo-header and the segment. -/
def tcpChecksum (src dst : Ipv4Addr) (tcp : Bytes) : UInt16 :=
  let ph := pseudoHeader src dst protoTcp tcp.length
  finish ([ph, tcp].foldl (fun sum b => sum16 b sum) 0)

section Handle

variable (listenPort : UInt16) (lanFetch : Bytes → Bytes)

def Conn.segment (c : Conn) (flags : UInt8) (payload : Bytes) : Bytes :=
  ipv4Header c.ourIp c.clientIp protoTcp (40 + payload.length)
    ++ tcpSegment c.ourIp c.clientIp listenPort c.clientPort c.sndNxt c.rcvNxt flags payload

/-- Stream a non-empty response back in pieces of `mss`, FIN on the last. -/
def Conn.stream : Nat → Conn → Bytes → List Bytes × Conn
  | 0, c, _ => ([], c)
  | fuel + 1, c, resp =>
      if resp = [] then ([], c)
      else
        let piece := resp.take mss
        let rest := resp.drop mss
        let flags := if rest = [] then psh ||| Tcp.ack ||| fin else psh ||| Tcp.ack
        let seg := c.segment listenPort flags piece
        let sndNxt := c.sndNxt + UInt32.ofNat piece.length
        let c := { c with sndNxt := if rest = [] then sndNxt + 1 else sndNxt }
        let (segs, c) := Conn.stream fuel c rest
        (seg :: segs, c)

/-- Feed one inner packet; `iss` is the draw of `rand_u32`. -/
def TcpProxy.handle (self : TcpProxy) (inner : Bytes) (iss : UInt32) :
    List Bytes × TcpProxy :=
  match parseSegment inner with
  | none => ([], self)
  | some s =>
      if s.dport ≠ listenPort then ([], self)
      else if s.flags &&& syn ≠ 0 then
        let c : Conn :=
          { active := true, clientIp := s.srcIp, ourIp := s.dstIp, clientPort := s.sport
            rcvNxt := s.seq + 1, sndNxt := iss, fetched := false }
        ([c.segment listenPort (syn ||| Tcp.ack) []], ⟨{ c with sndNxt := c.sndNxt + 1 }⟩)
      else if !self.conn.active ∨ s.srcIp ≠ self.conn.clientIp
          ∨ s.sport ≠ self.conn.clientPort then ([], self)
      else if s.flags &&& rst ≠ 0 then ([], ⟨Conn.default⟩)
      else if s.payload ≠ [] ∧ !self.conn.fetched then
        let c := { self.conn with
          rcvNxt := s.seq + UInt32.ofNat s.payload.length, fetched := true }
        let ackSeg := c.segment listenPort Tcp.ack []
        let resp := lanFetch s.payload
        if resp = [] then
          ([ackSeg, c.segment listenPort (fin ||| Tcp.ack) []],
            ⟨{ c with sndNxt := c.sndNxt + 1 }⟩)
        else
          let (segs, c) := c.stream listenPort resp.length resp
          (ackSeg :: segs, ⟨c⟩)
      else if s.flags &&& fin ≠ 0 then
        let c := { self.conn with rcvNxt := s.seq + 1 }
        ([c.segment listenPort Tcp.ack []], ⟨Conn.default⟩)
      else ([], self)

/-- What `handle` passes to `lan_fetch` on a packet, if it calls it. -/
def TcpProxy.lanRequest (self : TcpProxy) (inner : Bytes) : Option Bytes :=
  match parseSegment inner with
  | none => none
  | some s =>
      if s.dport ≠ listenPort ∨ s.flags &&& syn ≠ 0 then none
      else if !self.conn.active ∨ s.srcIp ≠ self.conn.clientIp
          ∨ s.sport ≠ self.conn.clientPort then none
      else if s.flags &&& rst ≠ 0 then none
      else if s.payload ≠ [] ∧ !self.conn.fetched then some s.payload
      else none

/-- `lan_fetch` matters to `handle` only at the bytes it is given. -/
theorem handle_lanRequest {self : TcpProxy} {inner : Bytes} {f g : Bytes → Bytes} (iss : UInt32)
    (h : ∀ q, self.lanRequest listenPort inner = some q → f q = g q) :
    self.handle listenPort f inner iss = self.handle listenPort g inner iss := by
  rw [TcpProxy.handle, TcpProxy.handle]
  rw [TcpProxy.lanRequest] at h
  cases hparse : parseSegment inner with
  | none => rfl
  | some s =>
      simp only [hparse] at h ⊢
      split
      · rfl
      · next hport =>
          split
          · rfl
          · next hsyn =>
              rw [if_neg (not_or.mpr ⟨hport, hsyn⟩)] at h
              split
              · rfl
              · next hours =>
                  rw [if_neg hours] at h
                  split
                  · rfl
                  · next hrst =>
                      rw [if_neg hrst] at h
                      split
                      · next hask =>
                          rw [if_pos hask] at h
                          rw [h s.payload rfl]
                      · rfl

/-- The proxy with a record of what it has sent and what it has passed to
`lan_fetch`. -/
structure ProxyLog where
  proxy : TcpProxy
  sent : List Bytes
  asked : List Bytes

def ProxyLog.handle (self : ProxyLog) (inner : Bytes) (iss : UInt32) : List Bytes × ProxyLog :=
  let (out, proxy) := self.proxy.handle listenPort lanFetch inner iss
  (out, ⟨proxy, self.sent ++ out,
    self.asked ++ (self.proxy.lanRequest listenPort inner).toList⟩)

end Handle

end TailscaleRust.Firmware.Proxy
