import TailscaleRust.Core.Wg

/-!
# The node's keys (`src/keys.rs`)

Three keypairs, kept in the flash store of the platform and made when they
are not there. The store is not part of the repository. It enters as its
operations over a state of its own, which also decides whether an operation
fails, with a view of what is stored: `Nvs.Lawful` says how the operations
treat that view. A failed write may have taken effect or not.

`esp_fill_random` is an argument, one draw for each key.
-/

namespace TailscaleRust.Firmware.Keys

open TailscaleRust.Lib TailscaleRust.Core

/-- `EspNvs`, opened on a namespace. -/
structure Nvs (S : Type) where
  content : S → String → Option Bytes
  openNs : S → S × Except String Unit
  getBlob : S → String → Nat → S × Except String (Option Bytes)
  setBlob : S → String → Bytes → S × Except String Unit

/-- What the platform documents of its store. -/
structure Nvs.Lawful {S : Type} (N : Nvs S) : Prop where
  open_content : ∀ s, N.content (N.openNs s).1 = N.content s
  get_content : ∀ s key n, N.content (N.getBlob s key n).1 = N.content s
  get_ok : ∀ s key n r, (N.getBlob s key n).2 = .ok r → r = N.content s key
  set_ok : ∀ s key b, (N.setBlob s key b).2 = .ok () →
    N.content (N.setBlob s key b).1 key = some b
  set_failed : ∀ s key b, N.content (N.setBlob s key b).1 key = some b ∨
    N.content (N.setBlob s key b).1 key = N.content s key
  set_other : ∀ s key b key', key' ≠ key →
    N.content (N.setBlob s key b).1 key' = N.content s key'

structure Keypair where
  privateKey : Key
  publicKey : Key
  deriving DecidableEq

def Keypair.fromPrivate (C : Crypto) (privateKey : Key) : Keypair where
  privateKey := privateKey
  publicKey := Wg.pubkey C privateKey

structure NodeKeys where
  machine : Keypair
  node : Keypair
  disco : Keypair
  deriving DecidableEq

/-- The draws of `random_32` for the three keys. -/
structure BootDraws where
  machine : Key
  node : Key
  disco : Key

section Load

variable {S : Type} (N : Nvs S) (C : Crypto)

/-- Store a new key under a name. -/
def makeKey (random : Key) (s : S) (key : String) : S × Except String Keypair :=
  match N.setBlob s key random.1 with
  | (s, .error _) => (s, .error "nvs set_blob")
  | (s, .ok ()) => (s, .ok (Keypair.fromPrivate C random))

def loadOrMake (random : Key) (s : S) (key : String) : S × Except String Keypair :=
  match N.getBlob s key 32 with
  | (s, .error _) => (s, .error "nvs get_blob")
  | (s, .ok none) => makeKey N C random s key
  | (s, .ok (some blob)) =>
      match tryInto 32 blob with
      | some privateKey => (s, .ok (Keypair.fromPrivate C privateKey))
      | none => makeKey N C random s key

/-- Load the three keypairs, or stop at the first one that fails. -/
def loadOrGenerate (draws : BootDraws) (s : S) : S × Except String NodeKeys :=
  match N.openNs s with
  | (s, .error _) => (s, .error "open NVS namespace")
  | (s, .ok ()) =>
      match loadOrMake N C draws.machine s "k_machine" with
      | (s, .error e) => (s, .error e)
      | (s, .ok machine) =>
          match loadOrMake N C draws.node s "k_node" with
          | (s, .error e) => (s, .error e)
          | (s, .ok node) =>
              match loadOrMake N C draws.disco s "k_disco" with
              | (s, .error e) => (s, .error e)
              | (s, .ok disco) => (s, .ok ⟨machine, node, disco⟩)

/-- A boot: the device comes up with what the store held and loads its keys. -/
def Boots (s : S) (boot : BootDraws × Except String NodeKeys) (s' : S) : Prop :=
  ∃ up, N.content up = N.content s ∧ loadOrGenerate N C boot.1 up = (s', boot.2)

end Load

end TailscaleRust.Firmware.Keys
