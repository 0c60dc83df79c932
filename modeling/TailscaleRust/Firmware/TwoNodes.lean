import TailscaleRust.Firmware.Periodic
import TailscaleRust.Lib.Pairing

/-!
# Two data planes and the network between them

Two nodes run the data plane, each at one address, and exchange datagrams.
A step is one received packet or one periodic step at one of them. What a
node sends to the other's address is under way until it is delivered; what it
sends elsewhere leaves the pair. Sends succeed, and every index a step draws
is new to both nodes.
-/

namespace TailscaleRust.Firmware.TwoNodes

open TailscaleRust.Lib TailscaleRust.Lib.Pairing TailscaleRust.Core TailscaleRust.Core.Wg
open TailscaleRust.Firmware.Dataplane

/-- What does not change: the build, who the two nodes are and where. -/
structure Setup where
  crypto : Crypto
  features : Features
  ident : Side → Identity
  addr : Side → SocketAddr

/-- What one node owns. -/
structure Party where
  st : State
  lp : Loop

structure Packet where
  dst : Side
  bytes : Bytes

structure World where
  party : Side → Party
  net : List Packet
  used : List UInt32

inductive Event where
  /-- The packet at this place of the network reaches its receiver. -/
  | deliver (i : Nat) (tick : UInt32) (env : Draws)
  | periodic (x : Side) (tick : UInt32) (hk : Housekeeping) (stunAddr : Option SocketAddr)

/-- The first target with the disco key of `id` is `id`. -/
def Knows (targets : List Target) (id : Identity) : Prop :=
  (targets.find? fun t => t.discoPub = id.discoPub).map Target.nodePub = some id.nodePub

namespace Setup

variable (S : Setup)

/-- The datagrams of node `x` that go to the other node. -/
def route (x : Side) (out : List Datagram) : List Packet :=
  out.filterMap fun d => if d.dst = S.addr x.other then some ⟨x.other, d.bytes⟩ else none

def step (net : Network) (w : World) : Event → Option World
  | .deliver i tick env =>
      if env.index ∈ w.used ∨ env.sendOk = false then none
      else
        match w.net[i]? with
        | none => none
        | some p =>
            let me := w.party p.dst
            let (st, out) := handlePacket S.crypto S.features env (S.ident p.dst) me.lp.targets
              me.st tick p.bytes (S.addr p.dst.other)
            some
              { party := Function.update w.party p.dst { me with st := st }
                net := net.after i w.net ++ S.route p.dst out
                used := env.index :: w.used }
  | .periodic x tick hk stunAddr =>
      let me := w.party x
      let (st, lp, out) := runPeriodic S.crypto S.features hk (S.ident x) me.st me.lp tick stunAddr
      some
        { party := Function.update w.party x { st := st, lp := lp }
          net := w.net ++ S.route x out
          used := w.used }

/-- Both nodes are as they come up, each with the other as a target. -/
structure Start (w : World) : Prop where
  pending : ∀ x, (w.party x).st.pending = Table.empty
  tunnels : ∀ x, (w.party x).st.tunnels = Table.empty
  knows : ∀ x, Knows (w.party x).lp.targets (S.ident x.other)
  net : w.net = []
  used : w.used = []

/-- The crates keep their promises and each node's public key belongs to its
private key. -/
structure Lawful : Prop where
  crypto : S.crypto.Lawful
  pub : ∀ x, (S.ident x).nodePub = pubkey S.crypto (S.ident x).nodePriv

end Setup

/-- No initiation and no response is under way. -/
def World.Quiet (w : World) : Prop :=
  ∀ p ∈ w.net, p.bytes.head? ≠ some msgInitiation ∧ p.bytes.head? ≠ some msgResponse

instance (w : World) : Decidable w.Quiet :=
  inferInstanceAs (Decidable (∀ p ∈ w.net,
    p.bytes.head? ≠ some msgInitiation ∧ p.bytes.head? ≠ some msgResponse))

/-- What node `x` sends on a tunnel to the other node can be decrypted there,
if the other has a tunnel at all. -/
def Setup.Agreement (S : Setup) (w : World) : Prop :=
  ∀ x i e, (w.party x).st.tunnels.get? i = some e → e.addr = S.addr x.other →
    (∃ j e', (w.party x.other).st.tunnels.get? j = some e' ∧ e'.addr = S.addr x) →
    ∃ e', (w.party x.other).st.tunnels.get? e.tun.theirIndex = some e' ∧
      e'.tun.recvKey = e.tun.sendKey

end TailscaleRust.Firmware.TwoNodes
