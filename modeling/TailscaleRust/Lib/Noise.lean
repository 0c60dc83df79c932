import TailscaleRust.Lib.Bytes

/-!
# The Noise handshake, for any suite and any message pattern

The objects of the Noise framework under its own names: HMAC and HKDF over
an arbitrary hash, the cipher state with its nonce, the symmetric state
with `MixKey`, `MixHash`, `MixKeyAndHash`, `EncryptAndHash` and `Split`,
and the handshake state driven by a list of tokens. Nothing is fixed but
the rules: the suite supplies the functions and the pattern the tokens.

The one theorem is agreement. A writer and a reader are `InSync` when they
hold the same symmetric state and each knows the other's public keys as
far as they have been sent. `readMessage_writeMessage` says that a message
written from one side of such a pair is accepted by the other, yields the
payload, and leaves the pair in sync — by induction over the tokens, so
for every pattern whose reader is `Ready`, that is, never asked for a
static key it has not been sent.
-/

namespace TailscaleRust.Lib.Noise

open TailscaleRust.Lib

/-- The functions a protocol name selects. `D` are the hash outputs, which
are also the cipher keys; `S` and `P` are private and public keys. -/
structure Suite (D S P : Type) where
  blockLen : Nat
  dhLen : Nat
  tagLen : Nat
  hashLen : Nat
  hash : Bytes → D
  digest : D → Bytes
  /-- A short protocol name, zero padded to `hashLen`. -/
  padName : Bytes → D
  pub : S → P
  pubBytes : P → Bytes
  parsePub : Bytes → Option P
  dh : S → P → Bytes
  /-- Key, nonce, associated data, plaintext. -/
  encrypt : D → UInt64 → Bytes → Bytes → Bytes
  decrypt : D → UInt64 → Bytes → Bytes → Option Bytes

/-- What agreement needs of a suite. -/
structure Suite.Lawful {D S P : Type} (Γ : Suite D S P) : Prop where
  dh_comm : ∀ a b, Γ.dh a (Γ.pub b) = Γ.dh b (Γ.pub a)
  decrypt_encrypt : ∀ k n ad m, Γ.decrypt k n ad (Γ.encrypt k n ad m) = some m
  length_encrypt : ∀ k n ad m, (Γ.encrypt k n ad m).length = m.length + Γ.tagLen
  parsePub_pubBytes : ∀ p, Γ.parsePub (Γ.pubBytes p) = some p
  length_pubBytes : ∀ p, (Γ.pubBytes p).length = Γ.dhLen

structure CipherState (D : Type) where
  k : Option D
  n : UInt64

structure SymmetricState (D : Type) where
  ck : D
  h : D
  cipher : CipherState D

/-- The handshake state; `psk` present makes it a PSK handshake. -/
structure HandshakeState (D S P : Type) where
  sym : SymmetricState D
  initiator : Bool
  s : Option S
  e : Option S
  rs : Option P
  re : Option P
  psk : Option Bytes

inductive Token where
  | e | s | ee | es | se | ss | psk
  deriving DecidableEq

section Rules

variable {D S P : Type} (Γ : Suite D S P)

/-- RFC 2104 HMAC over the suite's hash. -/
def hmac (key data : Bytes) : D :=
  let k := if key.length > Γ.blockLen then Γ.digest (Γ.hash key) else key
  let block := k ++ zeros (Γ.blockLen - k.length)
  let inner := Γ.hash ((block.map fun b => b ^^^ 0x36) ++ data)
  Γ.hash ((block.map fun b => b ^^^ 0x5c) ++ Γ.digest inner)

def hkdf2 (ck : D) (ikm : Bytes) : D × D :=
  let temp := hmac Γ (Γ.digest ck) ikm
  let o1 := hmac Γ (Γ.digest temp) [0x01]
  let o2 := hmac Γ (Γ.digest temp) (Γ.digest o1 ++ [0x02])
  (o1, o2)

def hkdf3 (ck : D) (ikm : Bytes) : D × D × D :=
  let temp := hmac Γ (Γ.digest ck) ikm
  let o1 := hmac Γ (Γ.digest temp) [0x01]
  let o2 := hmac Γ (Γ.digest temp) (Γ.digest o1 ++ [0x02])
  let o3 := hmac Γ (Γ.digest temp) (Γ.digest o2 ++ [0x03])
  (o1, o2, o3)

def initializeSymmetric (name : Bytes) : SymmetricState D :=
  let h := if name.length ≤ Γ.hashLen then Γ.padName name else Γ.hash name
  { ck := h, h := h, cipher := { k := none, n := 0 } }

def mixHash (st : SymmetricState D) (data : Bytes) : SymmetricState D :=
  { st with h := Γ.hash (Γ.digest st.h ++ data) }

def mixKey (st : SymmetricState D) (ikm : Bytes) : SymmetricState D :=
  let out := hkdf2 Γ st.ck ikm
  { st with ck := out.1, cipher := { k := some out.2, n := 0 } }

def mixKeyAndHash (st : SymmetricState D) (ikm : Bytes) : SymmetricState D :=
  let out := hkdf3 Γ st.ck ikm
  let st := mixHash Γ { st with ck := out.1 } (Γ.digest out.2.1)
  { st with cipher := { k := some out.2.2, n := 0 } }

/-- Without a key the plaintext goes out as it is. -/
def encryptAndHash (st : SymmetricState D) (pt : Bytes) :
    Bytes × SymmetricState D :=
  match st.cipher.k with
  | none => (pt, mixHash Γ st pt)
  | some k =>
      let ct := Γ.encrypt k st.cipher.n (Γ.digest st.h) pt
      (ct, mixHash Γ { st with cipher := { k := some k, n := st.cipher.n + 1 } } ct)

def decryptAndHash (st : SymmetricState D) (ct : Bytes) :
    Option (Bytes × SymmetricState D) :=
  match st.cipher.k with
  | none => some (ct, mixHash Γ st ct)
  | some k =>
      match Γ.decrypt k st.cipher.n (Γ.digest st.h) ct with
      | none => none
      | some pt =>
          some (pt, mixHash Γ
            { st with cipher := { k := some k, n := st.cipher.n + 1 } } ct)

/-- The two transport keys, the initiator's sending key first. -/
def split (st : SymmetricState D) : D × D := hkdf2 Γ st.ck []

/-- `Initialize`, with the responder's static key as the only pre-message:
the initiator knows it as `rs`, the responder owns it as `s`. -/
def initializeK (name prologue : Bytes) (initiator : Bool) (s : S)
    (responderStatic : P) (psk : Option Bytes) : HandshakeState D S P :=
  let sym := mixHash Γ (initializeSymmetric Γ name) prologue
  { sym := mixHash Γ sym (Γ.pubBytes responderStatic), initiator := initiator,
    s := some s, e := none,
    rs := if initiator then some responderStatic else none,
    re := none, psk := psk }

/-- An ephemeral on the wire: mixed into the hash, and as a key when a PSK
is in use. -/
def mixEphemeral (hs : HandshakeState D S P) (p : Bytes) : SymmetricState D :=
  match hs.psk with
  | none => mixHash Γ hs.sym p
  | some _ => mixKey Γ (mixHash Γ hs.sym p) p

/-- A Diffie-Hellman token over whichever keys it names. -/
def dhToken (hs : HandshakeState D S P) (priv : Option S) (pub : Option P) :
    Option (HandshakeState D S P) :=
  match priv, pub with
  | some a, some b => some { hs with sym := mixKey Γ hs.sym (Γ.dh a b) }
  | _, _ => none

/-- The tokens that put nothing on the wire. -/
def silentToken (hs : HandshakeState D S P) :
    Token → Option (HandshakeState D S P)
  | .ee => dhToken Γ hs hs.e hs.re
  | .es => if hs.initiator then dhToken Γ hs hs.e hs.rs else dhToken Γ hs hs.s hs.re
  | .se => if hs.initiator then dhToken Γ hs hs.s hs.re else dhToken Γ hs hs.e hs.rs
  | .ss => dhToken Γ hs hs.s hs.rs
  | .psk =>
      match hs.psk with
      | none => none
      | some k => some { hs with sym := mixKeyAndHash Γ hs.sym k }
  | .e | .s => none

def writeToken (eph : S) (hs : HandshakeState D S P) :
    Token → Option (Bytes × HandshakeState D S P)
  | .e =>
      let p := Γ.pubBytes (Γ.pub eph)
      some (p, { hs with sym := mixEphemeral Γ hs p, e := some eph })
  | .s =>
      match hs.s with
      | none => none
      | some s =>
          let out := encryptAndHash Γ hs.sym (Γ.pubBytes (Γ.pub s))
          some (out.1, { hs with sym := out.2 })
  | t => (silentToken Γ hs t).map fun hs => ([], hs)

/-- How many bytes an encrypted static key takes on the wire. -/
def staticLen (st : SymmetricState D) : Nat :=
  Γ.dhLen + if st.cipher.k.isSome then Γ.tagLen else 0

def readToken (hs : HandshakeState D S P) (msg : Bytes) :
    Token → Option (Bytes × HandshakeState D S P)
  | .e =>
      let p := msg.take Γ.dhLen
      match Γ.parsePub p with
      | none => none
      | some re =>
          some (msg.drop Γ.dhLen, { hs with sym := mixEphemeral Γ hs p, re := some re })
  | .s =>
      match decryptAndHash Γ hs.sym (msg.take (staticLen Γ hs.sym)) with
      | none => none
      | some (pt, sym) =>
          match Γ.parsePub pt with
          | none => none
          | some rs =>
              some (msg.drop (staticLen Γ hs.sym), { hs with sym := sym, rs := some rs })
  | t => (silentToken Γ hs t).map fun hs => (msg, hs)

def writeTokens (eph : S) : List Token → HandshakeState D S P →
    Option (Bytes × HandshakeState D S P)
  | [], hs => some ([], hs)
  | t :: ts, hs =>
      match writeToken Γ eph hs t with
      | none => none
      | some (out, hs) =>
          (writeTokens eph ts hs).map fun r => (out ++ r.1, r.2)

def readTokens : List Token → HandshakeState D S P → Bytes →
    Option (Bytes × HandshakeState D S P)
  | [], hs, msg => some (msg, hs)
  | t :: ts, hs, msg =>
      match readToken Γ hs msg t with
      | none => none
      | some (rest, hs) => readTokens ts hs rest

/-- `WriteMessage`: the tokens, then the encrypted payload. -/
def writeMessage (eph : S) (ts : List Token) (hs : HandshakeState D S P)
    (payload : Bytes) : Option (Bytes × HandshakeState D S P) :=
  match writeTokens Γ eph ts hs with
  | none => none
  | some (out, hs) =>
      let enc := encryptAndHash Γ hs.sym payload
      some (out ++ enc.1, { hs with sym := enc.2 })

/-- `ReadMessage`: the tokens, then what is left is the payload. -/
def readMessage (ts : List Token) (hs : HandshakeState D S P) (msg : Bytes) :
    Option (Bytes × HandshakeState D S P) :=
  match readTokens Γ ts hs msg with
  | none => none
  | some (rest, hs) =>
      match decryptAndHash Γ hs.sym rest with
      | none => none
      | some (payload, sym) => some (payload, { hs with sym := sym })

end Rules

/-! ## Agreement -/

section Agreement

variable {D S P : Type} {Γ : Suite D S P}

/-- The two ends of a handshake, `w` about to write and `r` about to read. -/
structure InSync (Γ : Suite D S P) (w r : HandshakeState D S P) : Prop where
  sym : w.sym = r.sym
  role : r.initiator = !w.initiator
  psk : w.psk = r.psk
  re : r.re = w.e.map Γ.pub
  wre : w.re = r.e.map Γ.pub
  rs : ∀ p, r.rs = some p → w.s.map Γ.pub = some p
  wrs : ∀ p, w.rs = some p → r.s.map Γ.pub = some p

/-- The message can be turned round: what was the reader writes next. -/
theorem InSync.symm {w r : HandshakeState D S P} (h : InSync Γ w r) :
    InSync Γ r w where
  sym := h.sym.symm
  role := by simp [h.role]
  psk := h.psk.symm
  re := h.wre
  wre := h.re
  rs := h.wrs
  wrs := h.rs

/-- Does a reader of the given role, knowing the writer's static key or
not, hold a key for every token? -/
def Ready (initiator known : Bool) : List Token → Bool
  | [] => true
  | .s :: ts => Ready initiator true ts
  | .es :: ts => (!initiator || known) && Ready initiator known ts
  | .se :: ts => (initiator || known) && Ready initiator known ts
  | .ss :: ts => known && Ready initiator known ts
  | _ :: ts => Ready initiator known ts

theorem decryptAndHash_encryptAndHash (hΓ : Γ.Lawful) (st : SymmetricState D)
    (pt : Bytes) :
    decryptAndHash Γ st (encryptAndHash Γ st pt).1 =
      some (pt, (encryptAndHash Γ st pt).2) := by
  unfold decryptAndHash encryptAndHash
  cases st.cipher.k with
  | none => rfl
  | some k => simp only [hΓ.decrypt_encrypt]

theorem length_encryptAndHash_pub (hΓ : Γ.Lawful) (st : SymmetricState D)
    (p : P) :
    (encryptAndHash Γ st (Γ.pubBytes p)).1.length = staticLen Γ st := by
  unfold encryptAndHash staticLen
  cases st.cipher.k with
  | none => simp [hΓ.length_pubBytes]
  | some k => simp [hΓ.length_encrypt, hΓ.length_pubBytes]

/-- Diffie-Hellman from the two ends of one pair of key pairs. -/
theorem dhToken_inSync (hΓ : Γ.Lawful) {w r w' : HandshakeState D S P}
    (hs : InSync Γ w r) {a b : Option S} {p q : Option P}
    (hp : p = b.map Γ.pub) (hq : q = a.map Γ.pub)
    (hw : dhToken Γ w a p = some w') :
    ∃ r', dhToken Γ r b q = some r' ∧ InSync Γ w' r' ∧ r'.rs = r.rs ∧
      r'.initiator = r.initiator := by
  subst hp hq
  cases a with
  | none => simp [dhToken] at hw
  | some a =>
      cases b with
      | none => simp [dhToken] at hw
      | some b =>
          simp only [dhToken, Option.map_some, Option.some.injEq] at hw ⊢
          subst hw
          refine ⟨_, rfl, ?_, rfl, rfl⟩
          exact { hs with
            sym := by
              show mixKey Γ w.sym _ = mixKey Γ r.sym _
              rw [hs.sym, hΓ.dh_comm] }

/-- A known static key is the public half of the one its owner holds. -/
theorem rs_eq_map {known : Option P} {own : Option S}
    (h : ∀ p, known = some p → own.map Γ.pub = some p) (hk : known.isSome) :
    known = own.map Γ.pub := by
  obtain ⟨p, rfl⟩ := Option.isSome_iff_exists.mp hk
  exact (h p rfl).symm

theorem isSome_of_dhToken {w w' : HandshakeState D S P} {a : Option S}
    {p : Option P} (h : dhToken Γ w a p = some w') : p.isSome := by
  cases p with
  | none => cases a <;> simp [dhToken] at h
  | some p => rfl

theorem silentToken_inSync (hΓ : Γ.Lawful) {w r w' : HandshakeState D S P}
    (hs : InSync Γ w r) {t : Token} {ts : List Token}
    (hr : Ready r.initiator r.rs.isSome (t :: ts) = true)
    (hw : silentToken Γ w t = some w') :
    ∃ r', silentToken Γ r t = some r' ∧ InSync Γ w' r' ∧ r'.rs = r.rs ∧
      r'.initiator = r.initiator := by
  cases t with
  | e => simp [silentToken] at hw
  | s => simp [silentToken] at hw
  | ee => exact dhToken_inSync hΓ hs hs.wre hs.re hw
  | es =>
      cases hi : w.initiator with
      | true =>
          have hri : r.initiator = false := by simp [hs.role, hi]
          rw [silentToken, if_pos hi] at hw
          rw [silentToken, if_neg (by simp [hri])]
          have hks := isSome_of_dhToken hw
          exact dhToken_inSync hΓ hs (rs_eq_map hs.wrs hks) hs.re hw
      | false =>
          have hri : r.initiator = true := by simp [hs.role, hi]
          rw [silentToken, if_neg (by simp [hi])] at hw
          rw [silentToken, if_pos hri]
          simp only [Ready, hri, Bool.not_true, Bool.false_or, Bool.and_eq_true] at hr
          exact dhToken_inSync hΓ hs hs.wre (rs_eq_map hs.rs hr.1) hw
  | se =>
      cases hi : w.initiator with
      | true =>
          have hri : r.initiator = false := by simp [hs.role, hi]
          rw [silentToken, if_pos hi] at hw
          rw [silentToken, if_neg (by simp [hri])]
          simp only [Ready, hri, Bool.false_or, Bool.and_eq_true] at hr
          exact dhToken_inSync hΓ hs hs.wre (rs_eq_map hs.rs hr.1) hw
      | false =>
          have hri : r.initiator = true := by simp [hs.role, hi]
          rw [silentToken, if_neg (by simp [hi])] at hw
          rw [silentToken, if_pos hri]
          have hks := isSome_of_dhToken hw
          exact dhToken_inSync hΓ hs (rs_eq_map hs.wrs hks) hs.re hw
  | ss =>
      simp only [Ready, Bool.and_eq_true] at hr
      rw [silentToken] at hw
      have hks := isSome_of_dhToken hw
      exact dhToken_inSync hΓ hs (rs_eq_map hs.wrs hks) (rs_eq_map hs.rs hr.1) hw
  | psk =>
      simp only [silentToken, ← hs.psk] at hw ⊢
      cases hpsk : w.psk with
      | none => simp [hpsk] at hw
      | some k =>
          simp only [hpsk, Option.some.injEq] at hw ⊢
          subst hw
          refine ⟨_, rfl, ?_, rfl, rfl⟩
          exact { hs with
            sym := by
              show mixKeyAndHash Γ w.sym _ = mixKeyAndHash Γ r.sym _
              rw [hs.sym]
            psk := rfl }

theorem ready_tail {i k : Bool} {t : Token} {ts : List Token}
    (ht : t ≠ .s) (h : Ready i k (t :: ts) = true) : Ready i k ts = true := by
  cases t with
  | s => exact absurd rfl ht
  | e | ee | psk => exact h
  | es | se | ss =>
      simp only [Ready, Bool.and_eq_true] at h
      exact h.2

/-- One token: what the writer puts down the reader takes off, no more. -/
theorem readToken_writeToken (hΓ : Γ.Lawful) {w r w' : HandshakeState D S P}
    (hs : InSync Γ w r) {eph : S} {t : Token} {ts : List Token} {out : Bytes}
    (hr : Ready r.initiator r.rs.isSome (t :: ts) = true)
    (hw : writeToken Γ eph w t = some (out, w')) (rest : Bytes) :
    ∃ r', readToken Γ r (out ++ rest) t = some (rest, r') ∧ InSync Γ w' r' ∧
      Ready r'.initiator r'.rs.isSome ts = true := by
  have silent : ∀ t : Token, t ≠ .e → t ≠ .s →
      Ready r.initiator r.rs.isSome (t :: ts) = true →
      (silentToken Γ w t).map (fun hs => (([] : Bytes), hs)) = some (out, w') →
      ∃ r', (silentToken Γ r t).map (fun hs => (out ++ rest, hs)) = some (rest, r') ∧
        InSync Γ w' r' ∧ Ready r'.initiator r'.rs.isSome ts = true := by
    intro t _ hts hrt hwt
    cases hsil : silentToken Γ w t with
    | none => simp [hsil] at hwt
    | some w'' =>
        simp only [hsil, Option.map_some, Option.some.injEq, Prod.mk.injEq] at hwt
        obtain ⟨rfl, rfl⟩ := hwt
        obtain ⟨r', hread, hsync, hrs, hrole⟩ := silentToken_inSync hΓ hs hrt hsil
        refine ⟨r', ?_, hsync, ?_⟩
        · simp [hread]
        · rw [hrs, hrole]
          exact ready_tail hts hrt
  cases t with
  | e =>
      simp only [writeToken, Option.some.injEq, Prod.mk.injEq] at hw
      obtain ⟨rfl, rfl⟩ := hw
      have htake : (Γ.pubBytes (Γ.pub eph) ++ rest).take Γ.dhLen =
          Γ.pubBytes (Γ.pub eph) :=
        List.take_left' (hΓ.length_pubBytes _)
      have hdrop : (Γ.pubBytes (Γ.pub eph) ++ rest).drop Γ.dhLen = rest :=
        List.drop_left' (hΓ.length_pubBytes _)
      simp only [readToken, htake, hdrop, hΓ.parsePub_pubBytes]
      refine ⟨_, rfl, ?_, ready_tail (by decide) hr⟩
      exact { hs with
        sym := by
          show mixEphemeral Γ w _ = mixEphemeral Γ r _
          simp only [mixEphemeral, hs.sym, hs.psk]
        re := rfl }
  | s =>
      cases hws : w.s with
      | none => simp [writeToken, hws] at hw
      | some s =>
          simp only [writeToken, hws, Option.some.injEq, Prod.mk.injEq] at hw
          obtain ⟨rfl, rfl⟩ := hw
          have hlen := length_encryptAndHash_pub hΓ r.sym (Γ.pub s)
          simp only [readToken, hs.sym, List.take_left' hlen, List.drop_left' hlen,
            decryptAndHash_encryptAndHash hΓ, hΓ.parsePub_pubBytes]
          refine ⟨_, rfl, ?_, hr⟩
          exact { hs with
            sym := rfl
            rs := by
              intro p hp
              simp only [Option.some.injEq] at hp
              simp [hp] }
  | ee => exact silent .ee (by decide) (by decide) hr hw
  | es => exact silent .es (by decide) (by decide) hr hw
  | se => exact silent .se (by decide) (by decide) hr hw
  | ss => exact silent .ss (by decide) (by decide) hr hw
  | psk => exact silent .psk (by decide) (by decide) hr hw

theorem readTokens_writeTokens (hΓ : Γ.Lawful) {eph : S} {ts : List Token} :
    ∀ {w r w' : HandshakeState D S P} {out : Bytes}, InSync Γ w r →
      Ready r.initiator r.rs.isSome ts = true →
      writeTokens Γ eph ts w = some (out, w') → ∀ rest : Bytes,
      ∃ r', readTokens Γ ts r (out ++ rest) = some (rest, r') ∧ InSync Γ w' r' := by
  induction ts with
  | nil =>
      intro w r w' out hs _ hw rest
      simp only [writeTokens, Option.some.injEq, Prod.mk.injEq] at hw
      obtain ⟨rfl, rfl⟩ := hw
      exact ⟨r, rfl, hs⟩
  | cons t ts ih =>
      intro w r w' out hs hr hw rest
      rw [writeTokens] at hw
      split at hw
      · cases hw
      · next out₁ w₁ htok =>
          cases hrest : writeTokens Γ eph ts w₁ with
          | none => simp [hrest] at hw
          | some res =>
              obtain ⟨out₂, w₂⟩ := res
              simp only [hrest, Option.map_some, Option.some.injEq, Prod.mk.injEq] at hw
              obtain ⟨rfl, rfl⟩ := hw
              obtain ⟨r₁, hread, hsync, hready⟩ :=
                readToken_writeToken hΓ hs hr htok (out₂ ++ rest)
              obtain ⟨r₂, hreads, hsync₂⟩ := ih hsync hready hrest rest
              refine ⟨r₂, ?_, hsync₂⟩
              rw [readTokens, List.append_assoc, hread]
              exact hreads

/-- A written message is read back, and the two ends stay in sync. -/
theorem readMessage_writeMessage (hΓ : Γ.Lawful) {eph : S} {ts : List Token}
    {w r w' : HandshakeState D S P} {payload msg : Bytes} (hs : InSync Γ w r)
    (hr : Ready r.initiator r.rs.isSome ts = true)
    (hw : writeMessage Γ eph ts w payload = some (msg, w')) :
    ∃ r', readMessage Γ ts r msg = some (payload, r') ∧ InSync Γ w' r' := by
  rw [writeMessage] at hw
  split at hw
  · cases hw
  · next out w₁ htoks =>
      simp only [Option.some.injEq, Prod.mk.injEq] at hw
      obtain ⟨rfl, rfl⟩ := hw
      obtain ⟨r₁, hread, hsync⟩ := readTokens_writeTokens hΓ hs hr htoks
        (encryptAndHash Γ w₁.sym payload).1
      rw [readMessage, hread]
      simp only [hsync.sym, decryptAndHash_encryptAndHash hΓ]
      exact ⟨_, rfl, { hsync with sym := rfl }⟩

end Agreement

end TailscaleRust.Lib.Noise
