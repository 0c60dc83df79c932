import TailscaleRust.Lib.Bytes

/-!
# The primitives the crates supply

`wg`, `noise` and `disco` call into `blake2`, `chacha20poly1305`,
`x25519-dalek` and `crypto_box`, none of which is part of this repository.
They enter the model as one record of functions. `Crypto.Lawful` is what
those crates document and the protocol code relies on: Diffie-Hellman is
symmetric in the two key pairs, opening undoes sealing under the same key,
nonce and associated data, and a ciphertext is its plaintext plus a 16-byte
tag. Nothing is assumed about forgeries.
-/

namespace TailscaleRust.Core

open TailscaleRust.Lib

/-- Every Curve25519 and ChaCha20 key here is `[u8; 32]`. -/
abbrev Key := Arr 32

structure Crypto where
  /-- `Blake2s256` over one byte string. -/
  blake2s : Bytes → Arr 32
  /-- `Blake2sMac<U16>` under a key. -/
  blake2sMac : Bytes → Bytes → Arr 16
  /-- `StaticSecret::diffie_hellman`: our private key, their public one. -/
  x25519 : Key → Key → Key
  /-- `PublicKey::from(&StaticSecret)`. -/
  x25519Public : Key → Key
  /-- `ChaCha20Poly1305::encrypt`: key, nonce, message, associated data. -/
  chachaSeal : Key → Arr 12 → Bytes → Bytes → Bytes
  chachaOpen : Key → Arr 12 → Bytes → Bytes → Option Bytes
  /-- `SalsaBox::new(pub, priv).encrypt`: private, public, nonce, message. -/
  boxSeal : Key → Key → Arr 24 → Bytes → Option Bytes
  boxOpen : Key → Key → Arr 24 → Bytes → Option Bytes

structure Crypto.Lawful (C : Crypto) : Prop where
  dh_comm : ∀ a b, C.x25519 a (C.x25519Public b) = C.x25519 b (C.x25519Public a)
  open_seal : ∀ k n m ad, C.chachaOpen k n (C.chachaSeal k n m ad) ad = some m
  length_seal : ∀ k n m ad, (C.chachaSeal k n m ad).length = m.length + 16

/-- The same for `crypto_box`: the box of two key pairs is one box, opening
undoes sealing, and sealing adds a 16-byte tag. Its keys are on the curve of
`x25519-dalek`. -/
structure Crypto.BoxLawful (C : Crypto) : Prop where
  open_seal : ∀ a b n m, ∃ ct, C.boxSeal a (C.x25519Public b) n m = some ct ∧
    ct.length = m.length + 16 ∧ C.boxOpen b (C.x25519Public a) n ct = some m

/-! ## A transparent instance

The laws are satisfiable by functions that can be run: a polynomial digest,
multiplication for Diffie-Hellman, and a cipher that hides nothing but
rejects every ciphertext whose tag is not the one it would compute. Concrete
runs are evaluated over this instance. -/

/-- A polynomial digest of `n` bytes. -/
def polyDigest (n : Nat) (m : Bytes) : Arr n :=
  ⟨leBytes n (m.foldl (fun acc b => (acc * 257 + b.toNat + 1) % 2 ^ 127) 1), by simp⟩

/-- The message followed by a digest of everything the tag covers. -/
def tagSeal (context m : Bytes) : Bytes := m ++ (polyDigest 16 (context ++ m)).1

def tagOpen (context ct : Bytes) : Option Bytes :=
  let m := ct.take (ct.length - 16)
  if ct = tagSeal context m then some m else none

theorem length_tagSeal (context m : Bytes) :
    (tagSeal context m).length = m.length + 16 := by
  rw [tagSeal, List.length_append, (polyDigest 16 _).2]

theorem tagOpen_tagSeal (context m : Bytes) :
    tagOpen context (tagSeal context m) = some m := by
  have hm : (tagSeal context m).take ((tagSeal context m).length - 16) = m := by
    rw [length_tagSeal, Nat.add_sub_cancel, tagSeal]
    exact List.take_left
  rw [tagOpen, hm, if_pos rfl]

/-- A key made of one repeated byte. -/
def byteKey (b : UInt8) : Key := ⟨List.replicate 32 b, by simp⟩

/-- Multiplication of the two scalars. -/
def mulDh (a b : Key) : Key := ⟨leBytes 32 (leNat a.1 * leNat b.1), by simp⟩

def transparent : Crypto where
  blake2s := polyDigest 32
  blake2sMac key data := polyDigest 16 (key ++ data)
  x25519 := mulDh
  x25519Public := id
  chachaSeal k n m ad := tagSeal (k.1 ++ n.1 ++ ad) m
  chachaOpen k n ct ad := tagOpen (k.1 ++ n.1 ++ ad) ct
  boxSeal priv pub n m := some (tagSeal ((mulDh priv pub).1 ++ n.1) m)
  boxOpen priv pub n ct := tagOpen ((mulDh priv pub).1 ++ n.1) ct

theorem transparent_lawful : transparent.Lawful where
  dh_comm a b := by simp [transparent, mulDh, Nat.mul_comm]
  open_seal k n m ad := tagOpen_tagSeal _ m
  length_seal k n m ad := length_tagSeal _ m

theorem transparent_boxLawful : transparent.BoxLawful where
  open_seal a b n m := by
    refine ⟨_, rfl, length_tagSeal _ m, ?_⟩
    have hcomm : mulDh b a = mulDh a b := by simp [mulDh, Nat.mul_comm]
    show tagOpen ((mulDh b a).1 ++ n.1) _ = some m
    rw [hcomm]
    exact tagOpen_tagSeal _ m

end TailscaleRust.Core
