import TailscaleRust.Firmware.NodeRun

/-!
# The two loops (`src/dataplane.rs`, `run` and `run_dualcore`)

Both loops make one pass after the other: the periodic work and the mDNS
drain, then a datagram if one comes before the read times out. `tick` counts
the passes. The single-core loop handles a datagram with the count of its
pass. The dual-core loop leaves the count in the shared state, where the other
thread finds it for the datagrams it handles beside; these may come at any
time, also before the first pass.

An event carries the time at which it happens, in milliseconds. A pass has it
in its housekeeping, as the clock that `run_periodic` reads.
-/

namespace TailscaleRust.Firmware.Dataplane

open TailscaleRust.Lib TailscaleRust.Core

inductive LoopEvent where
  | pass (hk : Housekeeping) (stunAddr : Option SocketAddr) (payloads : List Bytes)
  /-- A datagram, through `process_packet` in the dual-core loop. -/
  | datagram (time : Nat) (dualcore : Bool) (pkt : Bytes) (src : SocketAddr) (env : Draws)

namespace LoopEvent

def time : LoopEvent → Nat
  | pass hk _ _ => hk.now
  | datagram time .. => time

def isPass : LoopEvent → Bool
  | pass .. => true
  | datagram .. => false

end LoopEvent

/-- The node with the count of the next pass and the one that datagrams are
handled with. -/
structure LoopState where
  node : NodeState
  tick : UInt32
  shtick : UInt32

def LoopState.start (node : NodeState) : LoopState := ⟨node, 0, 0⟩

/-- What an event is to the node, apart from the drain. -/
def LoopState.input (s : LoopState) : LoopEvent → Input
  | .pass hk stunAddr _ => .periodic s.tick hk stunAddr
  | .datagram _ dualcore pkt src env =>
      if dualcore then .process s.shtick pkt src env else .packet s.shtick pkt src env

namespace Host

variable (H : Host)

def loopStep (s : LoopState) (e : LoopEvent) : LoopState × List Datagram :=
  let (node, out) := H.step s.node (s.input e)
  match e with
  | .pass _ _ payloads =>
      let (node, drained) := H.step node (.drain payloads)
      (⟨node, s.tick + 1, s.tick⟩, out ++ drained)
  | .datagram .. => ({ s with node := node }, out)

def loopAfter (s : LoopState) : List LoopEvent → LoopState
  | [] => s
  | e :: es => loopAfter (H.loopStep s e).1 es

theorem loopAfter_append (s : LoopState) (a b : List LoopEvent) :
    H.loopAfter s (a ++ b) = H.loopAfter (H.loopAfter s a) b := by
  induction a generalizing s with
  | nil => rfl
  | cons e a ih => exact ih _

end Host

end TailscaleRust.Firmware.Dataplane
