import TailscaleRust.Core.Wg
import TailscaleRust.Lib.Noise

/-!
# The hand-written handshake is Noise_IKpsk2

`wg.rs` never names a symmetric state: it moves a chaining key and a hash
through hand-picked KDF calls, keeps a cipher key only where the next line
needs one, and calls `kdf1` where the framework's `MixKey` would derive a
key nobody reads. This file shows that the shortcuts change nothing. The
suite of the crates is an instance of the library's `Suite`, the KDFs are
its HKDF, and the three functions are the reference `WriteMessage` and
`ReadMessage` over the pattern

    pre-message  ← s
    message 1    → e, es, s, ss    payload: the timestamp
    message 2    ← e, ee, se, psk  payload: empty

with the message bytes in the fields the wire format gives them. The two
consuming functions are matched on every byte string, not only on honest
ones: they accept exactly what the reference reader accepts.
-/

namespace TailscaleRust.Proofs

open TailscaleRust.Lib TailscaleRust.Lib.Noise TailscaleRust.Core
open TailscaleRust.Core.Wg

/-- The suite `25519_ChaChaPoly_BLAKE2s` as the crates implement it. -/
def wgSuite (C : Crypto) : Suite Key Key Key where
  blockLen := 64
  dhLen := 32
  tagLen := 16
  hashLen := 32
  hash := C.blake2s
  digest := Subtype.val
  padName b := arrAt b 0 32
  pub := C.x25519Public
  pubBytes := Subtype.val
  parsePub := tryInto 32
  dh a b := (C.x25519 a b).1
  encrypt k n ad pt := wgSeal C k n pt ad
  decrypt k n ad ct := wgOpen C k n ct ad

theorem wgSuite_lawful {C : Crypto} (hC : C.Lawful) : (wgSuite C).Lawful where
  dh_comm a b := congrArg Subtype.val (hC.dh_comm a b)
  decrypt_encrypt k n ad m := hC.open_seal k (leNonce n) m ad
  length_encrypt k n ad m := hC.length_seal k (leNonce n) m ad
  parsePub_pubBytes p := tryInto_val p
  length_pubBytes p := p.2

def ikPsk2Message1 : List Token := [.e, .es, .s, .ss]
def ikPsk2Message2 : List Token := [.e, .ee, .se, .psk]

/-- The reference initiator before message 1: it knows the responder. -/
def noiseInitiator (C : Crypto) (priv peerPub : Key) :
    HandshakeState Key Key Key :=
  initializeK (wgSuite C) construction identifier true priv peerPub
    (some zeroPsk.1)

/-- The reference responder before message 1. -/
def noiseResponder (C : Crypto) (priv pub : Key) :
    HandshakeState Key Key Key :=
  initializeK (wgSuite C) construction identifier false priv pub
    (some zeroPsk.1)

/-! ## The KDFs are HKDF -/

theorem hash_pair (C : Crypto) (a b : Bytes) :
    hash C [a, b] = (wgSuite C).hash (a ++ b) := by
  simp [Wg.hash, wgSuite]

theorem hmac_eq (C : Crypto) (key data : Bytes) :
    Wg.hmac C key data = Noise.hmac (wgSuite C) key data := by
  have hpad : ∀ k : Bytes, k.length ≤ 64 →
      copyAt (zeros 64) 0 k = k ++ zeros (64 - k.length) := by
    intro k hk
    rw [copyAt_eq (by simpa using hk)]
    simp only [zeros, List.take_zero, List.nil_append, Nat.zero_add,
      List.drop_replicate]
  have hdig : (hash C [key]).1.length = 32 := (hash C [key]).2
  have hcomm : ∀ (m : UInt8) (l : Bytes),
      l.map (fun b => m ^^^ b) = l.map (fun b => b ^^^ m) := by
    intro m l
    exact List.map_congr_left fun b _ => UInt8.xor_comm m b
  simp only [Wg.hmac, Noise.hmac, hash_pair, hcomm]
  by_cases hlong : key.length > 64
  · have hk : hash C [key] = (wgSuite C).hash key := by simp [Wg.hash, wgSuite]
    rw [if_pos hlong, if_pos (show key.length > (wgSuite C).blockLen from hlong),
      hpad _ (by omega), hk]
    rfl
  · rw [if_neg hlong, if_neg (show ¬ key.length > (wgSuite C).blockLen from hlong),
      hpad _ (by omega)]
    rfl

theorem kdf2_eq (C : Crypto) (key : Key) (input : Bytes) :
    kdf2 C key input = hkdf2 (wgSuite C) key input := by
  simp only [kdf2, hkdf2, hmac_eq]
  rfl

theorem kdf3_eq (C : Crypto) (key : Key) (input : Bytes) :
    kdf3 C key input = hkdf3 (wgSuite C) key input := by
  simp only [kdf3, hkdf3, hmac_eq]
  rfl

theorem initializeSymmetric_ck (C : Crypto) :
    initializeSymmetric (wgSuite C) construction =
      { ck := hash C [construction], h := hash C [construction],
        cipher := { k := none, n := 0 } } := by
  have hlong : ¬ construction.length ≤ 32 := by decide
  have hname : hash C [construction] = (wgSuite C).hash construction := by
    simp [Wg.hash, wgSuite]
  rw [hname, initializeSymmetric]
  simp only [show (wgSuite C).hashLen = 32 from rfl, if_neg hlong]

theorem kdf1_eq_kdf2 (C : Crypto) (key : Key) (input : Bytes) :
    kdf1 C key input = (kdf2 C key input).1 := rfl

theorem dh_eq (C : Crypto) (a b : Key) : (wgSuite C).dh a b = (dh C a b).1 := rfl

/-! ## One step at a time

The reference operations on a symmetric state in constructor form, spelled
with the source's own functions. Rewriting with these turns a reference run
into the very expressions `wg.rs` writes down. -/

section Steps

variable (C : Crypto) (c h : Key) (cs : CipherState Key)

theorem mixHash_mk (data : Bytes) :
    Noise.mixHash (wgSuite C) ⟨c, h, cs⟩ data =
      ⟨c, Wg.hash C [h.1, data], cs⟩ := by
  rw [hash_pair]
  rfl

theorem mixKey_mk (ikm : Bytes) :
    mixKey (wgSuite C) ⟨c, h, cs⟩ ikm =
      ⟨(kdf2 C c ikm).1, h, ⟨some (kdf2 C c ikm).2, 0⟩⟩ := by
  rw [kdf2_eq]
  rfl

theorem mixKeyAndHash_mk (ikm : Bytes) :
    mixKeyAndHash (wgSuite C) ⟨c, h, cs⟩ ikm =
      ⟨(kdf3 C c ikm).1, Wg.hash C [h.1, (kdf3 C c ikm).2.1.1],
        ⟨some (kdf3 C c ikm).2.2, 0⟩⟩ := by
  rw [kdf3_eq, hash_pair]
  rfl

theorem split_mk : split (wgSuite C) ⟨c, h, cs⟩ = kdf2 C c [] := by
  rw [kdf2_eq]
  rfl

theorem encryptAndHash_mk (k : Key) (n : UInt64) (pt : Bytes) :
    encryptAndHash (wgSuite C) ⟨c, h, ⟨some k, n⟩⟩ pt =
      (wgSeal C k n pt h.1,
        ⟨c, Wg.hash C [h.1, wgSeal C k n pt h.1], ⟨some k, n + 1⟩⟩) := by
  simp only [encryptAndHash, mixHash_mk]
  rfl

theorem decryptAndHash_mk (k : Key) (n : UInt64) (ct : Bytes) :
    decryptAndHash (wgSuite C) ⟨c, h, ⟨some k, n⟩⟩ ct =
      match wgOpen C k n ct h.1 with
      | none => none
      | some pt => some (pt, ⟨c, Wg.hash C [h.1, ct], ⟨some k, n + 1⟩⟩) := by
  simp only [decryptAndHash, mixHash_mk]
  rfl

theorem readToken_e (hs : HandshakeState Key Key Key) (e : Key) (rest : Bytes) :
    readToken (wgSuite C) hs (e.1 ++ rest) .e =
      some (rest, { hs with sym := mixEphemeral (wgSuite C) hs e.1, re := some e }) := by
  have htake : (e.1 ++ rest).take 32 = e.1 := List.take_left' e.2
  have hdrop : (e.1 ++ rest).drop 32 = rest := List.drop_left' e.2
  have hp : (wgSuite C).parsePub e.1 = some e := tryInto_val e
  simp only [readToken, show (wgSuite C).dhLen = 32 from rfl, htake, hdrop, hp]

theorem readToken_s {k : Key} {n : UInt64} {i : Bool} {s e rs re : Option Key}
    {psk : Option Bytes} {ct rest : Bytes} (hct : ct.length = 48) :
    readToken (wgSuite C) ⟨⟨c, h, ⟨some k, n⟩⟩, i, s, e, rs, re, psk⟩
        (ct ++ rest) .s =
      match wgOpen C k n ct h.1 with
      | none => none
      | some v =>
          match tryInto 32 v with
          | none => none
          | some sI => some (rest,
              ⟨⟨c, Wg.hash C [h.1, ct], ⟨some k, n + 1⟩⟩, i, s, e, some sI, re, psk⟩) := by
  have hlen : staticLen (wgSuite C) ⟨c, h, ⟨some k, n⟩⟩ = 48 := rfl
  have hparse : (wgSuite C).parsePub = tryInto 32 := rfl
  simp only [readToken, hlen, List.take_left' hct, List.drop_left' hct,
    decryptAndHash_mk, hparse]
  cases wgOpen C k n ct h.1 with
  | none => rfl
  | some v =>
      simp only []
      cases tryInto 32 v with
      | none => rfl
      | some sI => rfl

theorem readToken_silent (hs : HandshakeState Key Key Key) (msg : Bytes)
    {t : Token} (he : t ≠ .e) (ht : t ≠ .s) :
    readToken (wgSuite C) hs msg t =
      (silentToken (wgSuite C) hs t).map fun hs => (msg, hs) := by
  cases t with
  | e => exact absurd rfl he
  | s => exact absurd rfl ht
  | ee | es | se | ss | psk => rfl

end Steps

theorem noiseInitiator_eq (C : Crypto) (priv peerPub : Key) :
    noiseInitiator C priv peerPub =
      ⟨⟨Wg.hash C [construction],
          Wg.hash C [(Wg.hash C [(Wg.hash C [construction]).1, identifier]).1, peerPub.1],
          ⟨none, 0⟩⟩,
        true, some priv, none, some peerPub, none, some zeroPsk.1⟩ := by
  simp only [noiseInitiator, initializeK, initializeSymmetric_ck, mixHash_mk, if_true]
  rfl

theorem noiseResponder_eq (C : Crypto) (priv pub : Key) :
    noiseResponder C priv pub =
      ⟨⟨Wg.hash C [construction],
          Wg.hash C [(Wg.hash C [(Wg.hash C [construction]).1, identifier]).1, pub.1],
          ⟨none, 0⟩⟩,
        false, some priv, none, none, none, some zeroPsk.1⟩ := by
  simp only [noiseResponder, initializeK, initializeSymmetric_ck, mixHash_mk]
  rfl

/-! ## The wire layout -/

/-- The initiation as `build_initiation` assembles it. -/
def initMessage (index : UInt32) (eph encStatic encTs mac1 : Bytes) : Arr initLen :=
  ((((((Arr.zero initLen).copyAt 0 [msgInitiation]).copyAt 4 (le32 index)).copyAt 8
    eph).copyAt 40 encStatic).copyAt 88 encTs).copyAt 116 mac1

section InitMessage

variable (index : UInt32) (eph encStatic encTs mac1 : Bytes)

theorem initMessage_index :
    u32le (initMessage index eph encStatic encTs mac1).1 4 = index := by
  apply u32le_of_slice
  simp only [initMessage, Arr.copyAt]
  rw [slice_copyAt_before, slice_copyAt_before, slice_copyAt_before,
    slice_copyAt_before, slice_copyAt_self] <;>
    simp [Arr.zero, initLen]

variable {eph encStatic encTs} in
theorem initMessage_body (he : eph.length = 32) (hs : encStatic.length = 48)
    (ht : encTs.length = 28) :
    slice (initMessage index eph encStatic encTs mac1).1 8 40 = eph ∧
    slice (initMessage index eph encStatic encTs mac1).1 40 88 = encStatic ∧
    slice (initMessage index eph encStatic encTs mac1).1 88 116 = encTs := by
  simp only [initMessage, Arr.copyAt]
  refine ⟨?_, ?_, ?_⟩
  · rw [slice_copyAt_before, slice_copyAt_before, slice_copyAt_before,
      slice_copyAt_self] <;> simp [Arr.zero, initLen, he]
  · rw [slice_copyAt_before, slice_copyAt_before, slice_copyAt_self] <;>
      simp [Arr.zero, initLen, hs]
  · rw [slice_copyAt_before, slice_copyAt_self] <;>
      simp [Arr.zero, initLen, ht]

theorem initMessage_type :
    byteAt (initMessage index eph encStatic encTs mac1).1 0 = msgInitiation := by
  have h : slice (initMessage index eph encStatic encTs mac1).1 0 1 =
      [msgInitiation] := by
    simp only [initMessage, Arr.copyAt]
    rw [slice_copyAt_before, slice_copyAt_before, slice_copyAt_before,
      slice_copyAt_before, slice_copyAt_before, slice_copyAt_self] <;>
      simp [Arr.zero, initLen]
  have hlen : 0 < (initMessage index eph encStatic encTs mac1).1.length := by
    rw [(initMessage index eph encStatic encTs mac1).2]; decide
  rw [byteAt_eq_slice hlen] at h
  simpa using h

end InitMessage

/-- The response as `consume_initiation` assembles it. -/
def respMessage (ourIndex theirIndex : UInt32) (eph encEmpty mac1 : Bytes) :
    Arr respLen :=
  ((((((Arr.zero respLen).copyAt 0 [msgResponse]).copyAt 4 (le32 ourIndex)).copyAt 8
    (le32 theirIndex)).copyAt 12 eph).copyAt 44 encEmpty).copyAt 60 mac1

section RespMessage

variable (ourIndex theirIndex : UInt32) (eph encEmpty mac1 : Bytes)

theorem respMessage_indices :
    u32le (respMessage ourIndex theirIndex eph encEmpty mac1).1 4 = ourIndex ∧
    u32le (respMessage ourIndex theirIndex eph encEmpty mac1).1 8 = theirIndex := by
  simp only [respMessage, Arr.copyAt]
  refine ⟨u32le_of_slice ?_, u32le_of_slice ?_⟩
  · rw [slice_copyAt_before, slice_copyAt_before, slice_copyAt_before,
      slice_copyAt_before, slice_copyAt_self] <;>
      simp [Arr.zero, respLen]
  · rw [slice_copyAt_before, slice_copyAt_before, slice_copyAt_before,
      slice_copyAt_self] <;> simp [Arr.zero, respLen]

variable {eph encEmpty} in
theorem respMessage_body (he : eph.length = 32) (hn : encEmpty.length = 16) :
    slice (respMessage ourIndex theirIndex eph encEmpty mac1).1 12 44 = eph ∧
    slice (respMessage ourIndex theirIndex eph encEmpty mac1).1 44 60 = encEmpty := by
  simp only [respMessage, Arr.copyAt]
  refine ⟨?_, ?_⟩
  · rw [slice_copyAt_before, slice_copyAt_before, slice_copyAt_self] <;>
      simp [Arr.zero, respLen, he]
  · rw [slice_copyAt_before, slice_copyAt_self] <;>
      simp [Arr.zero, respLen, hn]

theorem respMessage_type :
    byteAt (respMessage ourIndex theirIndex eph encEmpty mac1).1 0 = msgResponse := by
  have h : slice (respMessage ourIndex theirIndex eph encEmpty mac1).1 0 1 =
      [msgResponse] := by
    simp only [respMessage, Arr.copyAt]
    rw [slice_copyAt_before, slice_copyAt_before, slice_copyAt_before,
      slice_copyAt_before, slice_copyAt_before, slice_copyAt_self] <;>
      simp [Arr.zero, respLen]
  have hlen : 0 < (respMessage ourIndex theirIndex eph encEmpty mac1).1.length := by
    rw [(respMessage ourIndex theirIndex eph encEmpty mac1).2]; decide
  rw [byteAt_eq_slice hlen] at h
  simpa using h

end RespMessage

/-- A string long enough to be an initiation, cut at the field bounds. -/
theorem initiation_split {init : Bytes} (h : initLen ≤ init.length) :
    slice init 8 116 =
      (arrAt init 8 32).1 ++ (slice init 40 88 ++ slice init 88 116) := by
  have hlen : (slice init 8 40).length = 32 := by
    simp [slice, initLen] at h ⊢; omega
  have he : arrAt init 8 32 = ⟨slice init 8 40, hlen⟩ := arrAt_eq rfl
  rw [he, slice_slice_append (by omega) (by omega),
    slice_slice_append (by omega) (by omega)]

theorem response_split {resp : Bytes} (h : respLen ≤ resp.length) :
    slice resp 12 60 = (arrAt resp 12 32).1 ++ slice resp 44 60 := by
  have hlen : (slice resp 12 44).length = 32 := by
    simp [slice, respLen] at h ⊢; omega
  have he : arrAt resp 12 32 = ⟨slice resp 12 44, hlen⟩ := arrAt_eq rfl
  rw [he, slice_slice_append (by omega) (by omega)]

/-! ## The three functions are the reference ones -/

/-- What message 2 makes of the chaining key and the hash before its
payload: the new pair and the payload's key. Both ends compute it, each
from its own Diffie-Hellman results. -/
def message2Keys (C : Crypto) (c h eph ee se : Key) : Key × Key × Key :=
  let c := kdf1 C c eph.1
  let h := Wg.hash C [h.1, eph.1]
  let c := kdf1 C c ee.1
  let c := kdf1 C c se.1
  let ctk := kdf3 C c zeroPsk.1
  (ctk.1, Wg.hash C [h.1, ctk.2.1.1], ctk.2.2)

theorem writeMessage2_eq (C : Crypto) (c h priv erPriv eI sI : Key)
    (cs : CipherState Key) :
    let m := message2Keys C c h (pubkey C erPriv) (dh C erPriv eI) (dh C erPriv sI)
    let enc := wgSeal C m.2.2 0 [] m.2.1.1
    writeMessage (wgSuite C) erPriv ikPsk2Message2
      ⟨⟨c, h, cs⟩, false, some priv, none, some sI, some eI, some zeroPsk.1⟩ [] =
    some ((pubkey C erPriv).1 ++ enc,
      ⟨⟨m.1, Wg.hash C [m.2.1.1, enc], ⟨some m.2.2, 1⟩⟩, false, some priv,
        some erPriv, some sI, some eI, some zeroPsk.1⟩) := by
  simp only [ikPsk2Message2, writeMessage, writeTokens, writeToken, silentToken,
    dhToken, mixEphemeral, mixHash_mk, mixKey_mk, mixKeyAndHash_mk,
    encryptAndHash_mk, Option.map_some, List.append_nil, Bool.false_eq_true, if_false]
  rfl

theorem readMessage2_eq (C : Crypto) (c h priv ephPriv peerPub eR : Key)
    (cs : CipherState Key) (ct : Bytes) :
    let m := message2Keys C c h eR (dh C ephPriv eR) (dh C priv eR)
    readMessage (wgSuite C) ikPsk2Message2
      ⟨⟨c, h, cs⟩, true, some priv, some ephPriv, some peerPub, none, some zeroPsk.1⟩
      (eR.1 ++ ct) =
    match wgOpen C m.2.2 0 ct m.2.1.1 with
    | none => none
    | some pt => some (pt,
      ⟨⟨m.1, Wg.hash C [m.2.1.1, ct], ⟨some m.2.2, 1⟩⟩, true, some priv,
        some ephPriv, some peerPub, some eR, some zeroPsk.1⟩) := by
  simp only [ikPsk2Message2, readMessage, readTokens, readToken_e, readToken_silent,
    ne_eq, reduceCtorEq, not_false_eq_true, silentToken, dhToken, mixEphemeral,
    mixHash_mk, mixKey_mk, mixKeyAndHash_mk, Option.map_some, if_true,
    decryptAndHash_mk, message2Keys, kdf1_eq_kdf2, dh_eq]
  generalize wgOpen C _ 0 ct _ = opened
  cases opened with
  | none => rfl
  | some pt => rfl

/-- `build_initiation` writes message 1, and keeps of the reference state
what message 2 will need. -/
theorem buildInitiation_refines {C : Crypto} (hC : C.Lawful)
    (priv peerPub ephPriv : Key) (ts : Arr 12) (index : UInt32) :
    ∃ (encStatic encTs : Bytes) (mac1 : Arr 16),
      encStatic.length = 48 ∧ encTs.length = 28 ∧
      (buildInitiation C priv (pubkey C priv) peerPub ts index ephPriv).1 =
        initMessage index (pubkey C ephPriv).1 encStatic encTs mac1.1 ∧
      ∃ cs, writeMessage (wgSuite C) ephPriv ikPsk2Message1
          (noiseInitiator C priv peerPub) ts.1 =
        some ((pubkey C ephPriv).1 ++ (encStatic ++ encTs),
          ⟨⟨(buildInitiation C priv (pubkey C priv) peerPub ts index ephPriv).2.chaining,
            (buildInitiation C priv (pubkey C priv) peerPub ts index ephPriv).2.hash, cs⟩,
          true, some priv, some ephPriv, some peerPub, none, some zeroPsk.1⟩) := by
  refine ⟨_, _, _, ?_, ?_, rfl, ?cs, ?_⟩
  case refine_3 =>
    simp only [noiseInitiator_eq, ikPsk2Message1, writeMessage, writeTokens,
      writeToken, silentToken, dhToken, mixEphemeral, mixKey_mk, mixHash_mk,
      encryptAndHash_mk, if_true, Option.map_some, List.append_nil, List.nil_append,
      buildInitiation, kdf1_eq_kdf2, List.append_assoc]
    rfl
  · rw [wgSeal, hC.length_seal, (pubkey C priv).2]
  · rw [wgSeal, hC.length_seal, ts.2]

/-- `consume_initiation` on a string of the right length and type: it fails
where the reference responder does, and where the latter reads message 1
it answers with the reference message 2, sends on the second `Split` key
and receives on the first. -/
theorem consumeInitiation_refines {C : Crypto} (priv pub : Key) {init : Bytes}
    (index : UInt32) (erPriv : Key) (hlen : initLen ≤ init.length)
    (htype : byteAt init 0 = msgInitiation) :
    match readMessage (wgSuite C) ikPsk2Message1 (noiseResponder C priv pub)
      (slice init 8 116) with
    | none => ∃ msg, consumeInitiation C priv pub init index erPriv = .error msg
    | some (_, hs) => ∃ sI k h hs', hs.rs = some sI ∧
        writeMessage (wgSuite C) erPriv ikPsk2Message2 hs [] =
          some ((pubkey C erPriv).1 ++ wgSeal C k 0 [] h, hs') ∧
        ∃ mac1 : Arr 16, consumeInitiation C priv pub init index erPriv =
          .ok (respMessage index (u32le init 4) (pubkey C erPriv).1
              (wgSeal C k 0 [] h) mac1.1,
            { sendKey := (split (wgSuite C) hs'.sym).2
              recvKey := (split (wgSuite C) hs'.sym).1
              theirIndex := u32le init 4, ourIndex := index, txCounter := 0 }, sI) := by
  have hstat : (slice init 40 88).length = 48 := by
    simp [slice, initLen] at hlen ⊢; omega
  rw [initiation_split hlen]
  simp only [noiseResponder_eq, ikPsk2Message1, readMessage, readTokens, readToken_e,
    mixEphemeral, mixHash_mk, mixKey_mk, readToken_silent, ne_eq, reduceCtorEq,
    not_false_eq_true, silentToken, dhToken, Bool.false_eq_true, if_false,
    Option.map_some, readToken_s _ _ _ hstat, consumeInitiation,
    if_neg (Nat.not_lt.mpr hlen), htype, not_true, kdf1_eq_kdf2, dh_eq]
  generalize wgOpen C _ 0 (slice init 40 88) _ = opened
  cases opened with
  | none => exact ⟨_, rfl⟩
  | some v =>
      simp only []
      cases tryInto 32 v with
      | none => exact ⟨_, rfl⟩
      | some sI =>
          simp only [Option.map_some, mixKey_mk, decryptAndHash_mk]
          generalize wgOpen C _ 0 (slice init 88 116) _ = stamp
          cases stamp with
          | none => exact ⟨_, rfl⟩
          | some ts =>
              refine ⟨sI, _, _, _, rfl, writeMessage2_eq .., ?_⟩
              simp only [split_mk]
              exact ⟨_, rfl⟩

/-- `consume_response` on a response to this handshake: it succeeds where
the reference initiator reads message 2 with an empty payload, and sends on
the first `Split` key. -/
theorem consumeResponse_refines {C : Crypto} (hs : Handshake) {resp : Bytes}
    (peerPub : Key) (cs : CipherState Key) (hlen : respLen ≤ resp.length)
    (htype : byteAt resp 0 = msgResponse) (hidx : u32le resp 8 = hs.ourIndex) :
    match readMessage (wgSuite C) ikPsk2Message2
      ⟨⟨hs.chaining, hs.hash, cs⟩, true, some hs.ourStaticPriv, some hs.ephPriv,
        some peerPub, none, some zeroPsk.1⟩ (slice resp 12 60) with
    | some ([], hs') => hs.consumeResponse C resp =
        .ok { sendKey := (split (wgSuite C) hs'.sym).1
              recvKey := (split (wgSuite C) hs'.sym).2
              theirIndex := u32le resp 4, ourIndex := hs.ourIndex, txCounter := 0 }
    | _ => ∃ msg, hs.consumeResponse C resp = .error msg := by
  rw [response_split hlen, readMessage2_eq]
  simp only [Handshake.consumeResponse, if_neg (Nat.not_lt.mpr hlen), htype, ne_eq,
    not_true, if_false, hidx, message2Keys, kdf1_eq_kdf2]
  generalize wgOpen C _ 0 (slice resp 44 60) _ = opened
  cases opened with
  | none => exact ⟨_, rfl⟩
  | some pt =>
      cases pt with
      | nil => simp only [split_mk, not_true, if_false]
      | cons b bs => exact ⟨_, rfl⟩

end TailscaleRust.Proofs
