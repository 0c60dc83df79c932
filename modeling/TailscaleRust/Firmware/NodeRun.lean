import TailscaleRust.Firmware.Periodic
import TailscaleRust.Lib.Run

/-!
# One node, run (`src/dataplane.rs`)

The loop of `run` and the two loops of `run_dualcore` take the same steps in
some order: a received datagram through `handle_packet` or `process_packet`,
the periodic work, the mDNS drain. Here any of them may come next, with any
datagram from any address, any tick and any draws, so that what is shown of
every run holds of every schedule of the loops.
-/

namespace TailscaleRust.Firmware.Dataplane

open TailscaleRust.Lib TailscaleRust.Core TailscaleRust.Core.Wg

/-- What is fixed while the node runs. -/
structure Host where
  crypto : Crypto
  features : Features
  identity : Identity
  mdnsOurIp : Ipv4Addr
  mdnsPartnerIp : Ipv4Addr
  mdnsPartnerNode : Key

/-- What the loop owns. -/
structure NodeState where
  st : State
  lp : Loop

inductive Input where
  | packet (tick : UInt32) (pkt : Bytes) (src : SocketAddr) (env : Draws)
  | process (tick : UInt32) (pkt : Bytes) (src : SocketAddr) (env : Draws)
  | periodic (tick : UInt32) (hk : Housekeeping) (stunAddr : Option SocketAddr)
  | drain (payloads : List Bytes)

/-- The datagram an input brings, with its source and the step's draws. -/
def Input.received? : Input → Option (UInt32 × Bytes × SocketAddr × Draws)
  | .packet tick pkt src env => some (tick, pkt, src, env)
  | .process tick pkt src env => some (tick, pkt, src, env)
  | .periodic .. => none
  | .drain _ => none

namespace Host

variable (H : Host)

def step (s : NodeState) : Input → NodeState × List Datagram
  | .packet tick pkt src env =>
      let (st, out) :=
        handlePacket H.crypto H.features env H.identity s.lp.targets s.st tick pkt src
      ({ s with st := st }, out)
  | .process tick pkt src env =>
      let (st, out) :=
        processPacket H.crypto H.features env H.identity s.lp.targets s.st tick pkt src
      ({ s with st := st }, out)
  | .periodic tick hk stunAddr =>
      let (st, lp, out) :=
        runPeriodic H.crypto H.features hk H.identity s.st s.lp tick stunAddr
      (⟨st, lp⟩, out)
  | .drain payloads =>
      let (st, out) :=
        mdnsDrain H.crypto H.mdnsOurIp H.mdnsPartnerIp H.mdnsPartnerNode payloads s.st
      ({ s with st := st }, out)

/-- The step as a relation, for runs. -/
def Steps (s : NodeState) (ev : Input) (t : NodeState) : Prop := (H.step s ev).1 = t

/-- Does every step of a list of inputs meet a condition? -/
def checks (ok : NodeState → Input → Bool) : NodeState → List Input → Bool
  | _, [] => true
  | s, ev :: evs => ok s ev && checks ok (H.step s ev).1 evs

/-- The state a list of inputs leads to. -/
def after (s : NodeState) : List Input → NodeState
  | [] => s
  | ev :: evs => after (H.step s ev).1 evs

theorem run_after (s : NodeState) (evs : List Input) : Run H.Steps s evs (H.after s evs) := by
  induction evs generalizing s with
  | nil => exact .nil
  | cons ev evs ih => exact .cons rfl (ih _)

theorem guarded_run_after (ok : NodeState → Input → Bool) (s : NodeState) (evs : List Input)
    (h : H.checks ok s evs = true) :
    Run (Guarded (fun s ev => ok s ev = true) H.Steps) s evs (H.after s evs) := by
  induction evs generalizing s with
  | nil => exact .nil
  | cons ev evs ih =>
      rw [checks, Bool.and_eq_true] at h
      exact .cons ⟨h.1, rfl⟩ (ih _ h.2)

end Host

/-- No handshake, no tunnel and no path yet. -/
structure Fresh (s : NodeState) : Prop where
  pending : s.st.pending = Table.empty
  tunnels : s.st.tunnels = Table.empty
  confirmed : s.st.confirmed = []

end TailscaleRust.Firmware.Dataplane
