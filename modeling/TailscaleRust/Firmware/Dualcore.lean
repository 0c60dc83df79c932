import TailscaleRust.Firmware.Periodic

/-!
# The dual-core data plane (`src/dataplane.rs`, `run_dualcore`)

Workers share one state behind a mutex. A worker takes the next datagram
from the socket, then locks: a transport packet only copies a receive key
and releases the lock, any other packet is handled there and then. After
decrypting without the lock, the worker locks a second time to hand the
plaintext over. The main worker's housekeeping is a locked step as well.

The machine below makes each locked section one step, in any order the
workers reach it. Behind it stands the sequential plane it is compared with:
it takes the same events, but handles a datagram all at once, by the functions
of the single core, and looks into the state before that only to see whether
the datagram will be handled at all.
-/

namespace TailscaleRust.Firmware.Dataplane

open TailscaleRust.Lib TailscaleRust.Core TailscaleRust.Core.Wg

/-- What is fixed for a run. Datagrams are numbered in the order the socket
returns them. -/
structure Plane where
  crypto : Crypto
  features : Features
  identity : Identity
  stunAddr : Option SocketAddr
  mdnsOurIp : Ipv4Addr
  mdnsPartnerIp : Ipv4Addr
  mdnsPartnerNode : Key
  datagram : Nat → Bytes × SocketAddr

/-- The contents of the mutex. -/
structure Shared where
  st : State
  lp : Loop
  tick : UInt32

/-- A worker between two locked sections. -/
inductive Work where
  | idle
  | got (n : Nat)
  | holding (n : Nat) (key : Key)

inductive Event (W : Type) where
  | recv (w : W)
  | lock (w : W) (env : Draws)
  | commit (w : W) (env : Draws)
  | periodic (tick : UInt32) (hk : Housekeeping)
  | drain (payloads : List Bytes)

structure Dual (W : Type) where
  shared : Shared
  received : Nat
  work : W → Work

def Dual.start (W : Type) (sh : Shared) : Dual W := ⟨sh, 0, fun _ => .idle⟩

/-- Does the packet take the path outside the lock? -/
def isFast (pkt : Bytes) : Prop := pkt.head? = some msgTransport ∧ pkt.length ≥ 16

instance (pkt : Bytes) : Decidable (isFast pkt) :=
  inferInstanceAs (Decidable (_ ∧ _))

section Machine

variable (P : Plane)

/-- One locked section as a change of the shared state. -/
def Shared.periodic (sh : Shared) (tick : UInt32) (hk : Housekeeping) :
    Shared × List Datagram :=
  let (st, lp, out) := runPeriodic P.crypto P.features hk P.identity sh.st sh.lp tick P.stunAddr
  (⟨st, lp, tick⟩, out)

def Shared.drain (sh : Shared) (payloads : List Bytes) : Shared × List Datagram :=
  let (st, out) :=
    mdnsDrain P.crypto P.mdnsOurIp P.mdnsPartnerIp P.mdnsPartnerNode payloads sh.st
  ({ sh with st := st }, out)

def Shared.packet (sh : Shared) (n : Nat) (env : Draws) : Shared × List Datagram :=
  let (pkt, src) := P.datagram n
  let (st, out) :=
    handlePacket P.crypto P.features env P.identity sh.lp.targets sh.st sh.tick pkt src
  ({ sh with st := st }, out)

/-- The second locked section of a transport packet. -/
def Shared.decrypted (sh : Shared) (n : Nat) (inner : Bytes) (env : Draws) :
    Shared × List Datagram :=
  let (pkt, src) := P.datagram n
  let (st, out) :=
    handleDecrypted P.crypto P.features env P.identity sh.st (u32le pkt 4) inner src
  ({ sh with st := st }, out)

variable {W : Type} [DecidableEq W]

def Dual.setWork (d : Dual W) (w : W) (x : Work) : Dual W :=
  { d with work := fun v => if v = w then x else d.work v }

/-- One step, with the datagrams it sends. A worker that finds no tunnel is
done; one that cannot decrypt is done without a second lock. -/
def Dual.step (d : Dual W) : Event W → Option (Dual W × List Datagram)
  | .recv w =>
      match d.work w with
      | .idle => some ({ d with received := d.received + 1 }.setWork w (.got d.received), [])
      | _ => none
  | .lock w env =>
      match d.work w with
      | .got n =>
          let pkt := (P.datagram n).1
          if isFast pkt then
            match d.shared.st.tunnels.get? (u32le pkt 4) with
            | none => some (d.setWork w .idle, [])
            | some e => some (d.setWork w (.holding n e.tun.recvKey), [])
          else
            let (sh, out) := d.shared.packet P n env
            some ({ d with shared := sh }.setWork w .idle, out)
      | _ => none
  | .commit w env =>
      match d.work w with
      | .holding n key =>
          match decryptTransport P.crypto key (P.datagram n).1 with
          | none => some (d.setWork w .idle, [])
          | some inner =>
              let (sh, out) := d.shared.decrypted P n inner env
              some ({ d with shared := sh }.setWork w .idle, out)
      | _ => none
  | .periodic tick hk =>
      let (sh, out) := d.shared.periodic P tick hk
      some ({ d with shared := sh }, out)
  | .drain payloads =>
      let (sh, out) := d.shared.drain P payloads
      some ({ d with shared := sh }, out)

/-- The step as a relation, for runs. -/
def Dual.Steps (d : Dual W) (ev : Event W) (d' : Dual W) : Prop :=
  (d.step P ev).map Prod.fst = some d'

/-- What a run leaves behind and sends, step by step. -/
def Dual.trace (d : Dual W) : List (Event W) → List (Shared × List Datagram)
  | [] => []
  | ev :: evs =>
      match d.step P ev with
      | none => []
      | some (d', out) => (d'.shared, out) :: d'.trace evs

end Machine

/-! ## The sequential plane -/

/-- A section that acts on the shared state. -/
inductive Action where
  | transport (n : Nat) (env : Draws)
  | packet (n : Nat) (env : Draws)
  | periodic (tick : UInt32) (hk : Housekeeping)
  | drain (payloads : List Bytes)

/-- The datagram an action handles. -/
def Action.datagram? : Action → Option Nat
  | .transport n _ => some n
  | .packet n _ => some n
  | .periodic .. => none
  | .drain _ => none

/-- A datagram of a worker: not looked at, or waiting for its turn, with
whether it decrypted under the tunnel that was there. -/
inductive Hand where
  | empty
  | unread (n : Nat)
  | read (n : Nat) (opens : Bool)

/-- The datagram in a worker's hand. -/
def Hand.datagram? : Hand → Option Nat
  | .empty => none
  | .unread n => some n
  | .read n _ => some n

structure Sequential (W : Type) where
  shared : Shared
  received : Nat
  hand : W → Hand

def Sequential.start (W : Type) (sh : Shared) : Sequential W := ⟨sh, 0, fun _ => .empty⟩

section Sequential

variable (P : Plane)

/-- One action on its own, nothing else running: a transport packet is
looked up, decrypted and handled in one go. -/
def Shared.sequential (sh : Shared) : Action → Shared × List Datagram
  | .transport n env =>
      let (st, out) := handleWgTransport P.crypto P.features env P.identity sh.st
        (P.datagram n).1 (P.datagram n).2
      ({ sh with st := st }, out)
  | .packet n env =>
      let (st, out) := handlePacket P.crypto P.features env P.identity sh.lp.targets sh.st
        sh.tick (P.datagram n).1 (P.datagram n).2
      ({ sh with st := st }, out)
  | .periodic tick hk =>
      let (st, lp, out) :=
        runPeriodic P.crypto P.features hk P.identity sh.st sh.lp tick P.stunAddr
      (⟨st, lp, tick⟩, out)
  | .drain payloads =>
      let (st, out) :=
        mdnsDrain P.crypto P.mdnsOurIp P.mdnsPartnerIp P.mdnsPartnerNode payloads sh.st
      ({ sh with st := st }, out)

variable {W : Type} [DecidableEq W]

/-- What acts at an event: a datagram of the slow path where it is locked for,
one of the fast path at its commit if it decrypted, and the housekeeping. -/
def Sequential.action (s : Sequential W) : Event W → Option Action
  | .recv _ => none
  | .lock w env =>
      match s.hand w with
      | .unread n => if isFast (P.datagram n).1 then none else some (.packet n env)
      | _ => none
  | .commit w env =>
      match s.hand w with
      | .read n true => some (.transport n env)
      | _ => none
  | .periodic tick hk => some (.periodic tick hk)
  | .drain payloads => some (.drain payloads)

/-- A datagram of the fast path, looked up in the state there is. -/
def Sequential.look (s : Sequential W) (n : Nat) : Hand :=
  match s.shared.st.tunnels.get? (u32le (P.datagram n).1 4) with
  | none => .empty
  | some e => .read n (decryptTransport P.crypto e.tun.recvKey (P.datagram n).1).isSome

def Sequential.setHand (s : Sequential W) (w : W) (x : Hand) : Sequential W :=
  { s with hand := fun v => if v = w then x else s.hand v }

/-- What an event changes in the workers' hands. -/
def Sequential.turn (s : Sequential W) : Event W → Sequential W
  | .recv w => { s with received := s.received + 1 }.setHand w (.unread s.received)
  | .lock w _ =>
      match s.hand w with
      | .unread n => s.setHand w (if isFast (P.datagram n).1 then s.look P n else .empty)
      | _ => s
  | .commit w _ => s.setHand w .empty
  | .periodic .. => s
  | .drain _ => s

/-- Is it the worker's turn for the event? -/
def Sequential.ready (s : Sequential W) : Event W → Bool
  | .recv w => match s.hand w with | .empty => true | _ => false
  | .lock w _ => match s.hand w with | .unread _ => true | _ => false
  | .commit w _ => match s.hand w with | .read .. => true | _ => false
  | .periodic .. => true
  | .drain _ => true

def Sequential.step (s : Sequential W) (ev : Event W) : Sequential W × List Datagram :=
  match s.action P ev with
  | none => (s.turn P ev, [])
  | some a =>
      let (sh, out) := s.shared.sequential P a
      ({ s.turn P ev with shared := sh }, out)

/-- What a run leaves behind and sends, step by step. -/
def Sequential.trace (s : Sequential W) : List (Event W) → List (Shared × List Datagram)
  | [] => []
  | ev :: evs => ((s.step P ev).1.shared, (s.step P ev).2) :: (s.step P ev).1.trace evs

/-- What acts in a run, in order. -/
def Sequential.actions (s : Sequential W) : List (Event W) → List Action
  | [] => []
  | ev :: evs => (s.action P ev).toList ++ (s.step P ev).1.actions evs

def Sequential.after (s : Sequential W) : List (Event W) → Sequential W
  | [] => s
  | ev :: evs => (s.step P ev).1.after evs

end Sequential

end TailscaleRust.Firmware.Dataplane
