import Mathlib.Data.List.GetD
import TailscaleRust.Core.Wg
import TailscaleRust.Lib.Run

/-!
# A transport session

Two tunnels that share a key and an index, used for as long as the send
counter lasts. The session machine lets the two ends encrypt in any order
and lets the network deliver any packet sent so far, again and again, at any
point. Its invariant says what the k-th packet is: sealed under the starting
counter plus k, which is also the number in its header. Everything the
receiver does follows, because decryption reads the counter from the packet
and nothing else from the tunnel than its key.
-/

namespace TailscaleRust.Proofs

open TailscaleRust.Lib TailscaleRust.Core TailscaleRust.Core.Wg

/-! ## Padding -/

/-- `y` is `x` followed by the fewest zero bytes that fill a 16-byte block. -/
def Padded (x y : Bytes) : Prop :=
  ∃ m, y = x ++ zeros m ∧ 16 ∣ x.length + m ∧ ∀ j < m, ¬ 16 ∣ x.length + j

theorem zeros_succ (m : Nat) : [0] ++ zeros m = zeros (m + 1) := rfl

/-- The loop runs exactly as often as it must, given enough fuel. -/
theorem pad16_eq {m : Nat} : ∀ {fuel : Nat} {x : Bytes}, m ≤ fuel →
    16 ∣ x.length + m → (∀ j < m, ¬ 16 ∣ x.length + j) →
    pad16 fuel x = x ++ zeros m := by
  induction m with
  | zero =>
      intro fuel x _ hdvd _
      cases fuel with
      | zero => simp [pad16, zeros]
      | succ fuel =>
          rw [pad16, if_neg (by omega)]
          simp [zeros]
  | succ m ih =>
      intro fuel x hle hdvd hleast
      cases fuel with
      | zero => omega
      | succ fuel =>
          have h0 := hleast 0 (by omega)
          have hlen : (x ++ [0]).length = x.length + 1 := by simp
          rw [pad16, if_pos (by omega), ih (by omega) (by rw [hlen]; omega),
            List.append_assoc, zeros_succ]
          intro j hj
          have := hleast (j + 1) (by omega)
          rw [hlen]
          omega

theorem pad16_padded (x : Bytes) : Padded x (pad16 16 x) := by
  have hm : (16 - x.length % 16) % 16 < 16 := Nat.mod_lt _ (by omega)
  refine ⟨(16 - x.length % 16) % 16, pad16_eq (by omega) (by omega) ?_,
    by omega, ?_⟩
  · intro j hj
    omega
  · intro j hj
    omega

theorem padded_eq_nil {x y : Bytes} (h : Padded x y) : y = [] ↔ x = [] := by
  obtain ⟨m, rfl, -, hleast⟩ := h
  refine ⟨?_, ?_⟩
  · intro hy
    exact (List.append_eq_nil_iff.mp hy).1
  · intro heq
    subst heq
    cases m with
    | zero => rfl
    | succ m => exact absurd ⟨0, rfl⟩ (hleast 0 (by omega))

/-! ## One packet -/

section Packet

variable (C : Crypto) (t : Tunnel) (x : Bytes)

theorem encrypt_eq :
    (t.encrypt C x).1 = ([msgTransport, 0, 0, 0] ++ le32 t.theirIndex ++ le64 t.txCounter)
      ++ wgSeal C t.sendKey t.txCounter (pad16 16 x) [] := by
  simp [Tunnel.encrypt]

theorem encrypt_index : slice (t.encrypt C x).1 4 8 = le32 t.theirIndex := by
  rw [encrypt_eq, slice_append_left (by simp), slice_append_left (by simp), slice,
    List.drop_left' (show [msgTransport, 0, 0, 0].length = 4 from rfl)]
  exact List.take_of_length_le (by simp)

theorem encrypt_counter : slice (t.encrypt C x).1 8 16 = le64 t.txCounter := by
  rw [encrypt_eq, slice_append_left (by simp), slice, List.drop_left' (by simp)]
  exact List.take_of_length_le (by simp)

theorem encrypt_body : (t.encrypt C x).1.drop 16 =
    wgSeal C t.sendKey t.txCounter (pad16 16 x) [] := by
  rw [encrypt_eq, List.drop_left' (by simp)]

/-- The counter in the nonce can be read back from it. -/
theorem leNonce_inj {c d : UInt64} (h : leNonce c = leNonce d) : c = d := by
  have hslice : ∀ c : UInt64, slice (leNonce c).1 4 12 = le64 c := fun c =>
    slice_copyAt_self (by simp) (by simp)
  apply le64_inj
  rw [← hslice c, ← hslice d, h]

theorem encrypt_type : byteAt (t.encrypt C x).1 0 = msgTransport := by
  rw [encrypt_eq]
  rfl

/-- Whoever holds the key reads the padded plaintext back, by either of the
two decrypt functions. -/
theorem decrypt_encrypt {C : Crypto} (hC : C.Lawful) {t : Tunnel} {x : Bytes}
    {r : Tunnel} (hkey : r.recvKey = t.sendKey) :
    r.decrypt C (t.encrypt C x).1 = .ok (pad16 16 x) ∧
    decryptTransport C r.recvKey (t.encrypt C x).1 = some (pad16 16 x) := by
  have hlen : ¬ (t.encrypt C x).1.length < 32 := by
    rw [encrypt_eq, List.length_append, wgSeal, hC.length_seal]
    simp
    omega
  have hctr : u64le (t.encrypt C x).1 8 = t.txCounter :=
    u64le_of_slice (encrypt_counter C t x)
  have hopen : wgOpen C r.recvKey (u64le (t.encrypt C x).1 8)
      ((t.encrypt C x).1.drop 16) [] = some (pad16 16 x) := by
    rw [hctr, encrypt_body, hkey]
    exact hC.open_seal _ _ _ _
  refine ⟨?_, ?_⟩
  · rw [Tunnel.decrypt, if_neg hlen, if_neg (not_not.mpr (encrypt_type C t x))]
    simp only [hopen]
  · rw [decryptTransport, if_neg]
    · exact hopen
    · intro hor
      rcases hor with h | h
      · exact hlen h
      · exact h (encrypt_type C t x)

end Packet

/-! ## The session machine -/

inductive SessionOp where
  | encryptA (x : Bytes)
  | encryptB (y : Bytes)
  | deliver (k : Nat)

/-- The two tunnels, what `a` has sent (plaintext and packet), and what both
decrypt functions made of each delivery. -/
structure Session where
  a : Tunnel
  b : Tunnel
  sent : List (Bytes × Bytes)
  received : List (Nat × Except String Bytes × Option Bytes)

def Session.start (tA tB : Tunnel) : Session := ⟨tA, tB, [], []⟩

/-- Only a packet already sent can be delivered. -/
def Session.step (C : Crypto) (s : Session) : SessionOp → Option Session
  | .encryptA x =>
      let e := s.a.encrypt C x
      some { s with a := e.2, sent := s.sent ++ [(x, e.1)] }
  | .encryptB y => some { s with b := (s.b.encrypt C y).2 }
  | .deliver k =>
      match s.sent[k]? with
      | none => none
      | some (_, p) => some { s with
          received := s.received ++
            [(k, s.b.decrypt C p, decryptTransport C s.b.recvKey p)] }

/-- The k-th packet of a tunnel that started as `t`. -/
def nthPacket (C : Crypto) (t : Tunnel) (k : Nat) (x : Bytes) : Bytes :=
  (Tunnel.encrypt C { t with txCounter := t.txCounter + UInt64.ofNat k } x).1

/-- Every packet sent is the one its position calls for, and every delivery
recorded so far returned its padded plaintext. -/
structure SessionInv (C : Crypto) (tA tB : Tunnel) (s : Session) : Prop where
  a_eq : s.a = { tA with txCounter := tA.txCounter + UInt64.ofNat s.sent.length }
  b_key : s.b.recvKey = tB.recvKey
  sent_eq : ∀ k x p, s.sent[k]? = some (x, p) → p = nthPacket C tA k x
  received_eq : ∀ k d d', (k, d, d') ∈ s.received → ∃ x p, s.sent[k]? = some (x, p) ∧
    d = .ok (pad16 16 x) ∧ d' = some (pad16 16 x)

section Steps

variable {C : Crypto} {tA tB : Tunnel} {s s' : Session}

theorem sessionInv_start : SessionInv C tA tB (Session.start tA tB) where
  a_eq := by simp [Session.start]
  b_key := rfl
  sent_eq := fun k x p h => by simp [Session.start] at h
  received_eq := fun k d d' h => by simp [Session.start] at h

theorem sessionInv_encryptA {x : Bytes} (h : SessionInv C tA tB s) :
    SessionInv C tA tB
      { s with a := (s.a.encrypt C x).2, sent := s.sent ++ [(x, (s.a.encrypt C x).1)] } where
  a_eq := by
    rw [List.length_append, List.length_singleton, UInt64.ofNat_add, ← UInt64.add_assoc,
      Tunnel.encrypt, h.a_eq]
    rfl
  b_key := h.b_key
  sent_eq := by
    intro k y p hk
    rw [List.getElem?_append] at hk
    split at hk
    · exact h.sent_eq k y p hk
    · next hge =>
        rw [List.getElem?_singleton] at hk
        split at hk
        · next hzero =>
            have hlen : k = s.sent.length := by omega
            cases hk
            rw [nthPacket, hlen, ← h.a_eq]
        · cases hk
  received_eq := by
    intro k d d' hmem
    obtain ⟨y, p, hk, hd⟩ := h.received_eq k d d' hmem
    have hlt : k < s.sent.length := (List.getElem?_eq_some_iff.mp hk).1
    exact ⟨y, p, by rw [List.getElem?_append_left hlt, hk], hd⟩

theorem sessionInv_deliver (hC : C.Lawful) (hkey : tA.sendKey = tB.recvKey) {k : Nat}
    {x p : Bytes} (hk : s.sent[k]? = some (x, p)) (h : SessionInv C tA tB s) :
    SessionInv C tA tB { s with received := s.received ++
      [(k, s.b.decrypt C p, decryptTransport C s.b.recvKey p)] } where
  a_eq := h.a_eq
  b_key := h.b_key
  sent_eq := h.sent_eq
  received_eq := by
    intro j d d' hmem
    rw [List.mem_append, List.mem_singleton] at hmem
    rcases hmem with hold | hnew
    · exact h.received_eq j d d' hold
    · cases hnew
      have hp := h.sent_eq k x p hk
      have hdec := decrypt_encrypt hC (x := x) (r := s.b)
        (t := { tA with txCounter := tA.txCounter + UInt64.ofNat k })
        (by rw [h.b_key, ← hkey])
      rw [hp]
      exact ⟨x, p, hk, hdec⟩

theorem sessionInv_step (hC : C.Lawful) (hkey : tA.sendKey = tB.recvKey)
    {op : SessionOp} (h : SessionInv C tA tB s) (hs : s.step C op = some s') :
    SessionInv C tA tB s' := by
  cases op with
  | encryptA x =>
      cases hs
      exact sessionInv_encryptA h
  | encryptB y =>
      cases hs
      exact { h with b_key := h.b_key }
  | deliver k =>
      rw [Session.step] at hs
      split at hs
      · cases hs
      · next x p hk =>
          cases hs
          exact sessionInv_deliver hC hkey hk h

end Steps

/-- The strings given to `a` in a run, in order. -/
def plaintexts (ops : List SessionOp) : List Bytes :=
  ops.filterMap fun
    | .encryptA x => some x
    | _ => none

theorem sent_eq_plaintexts {C : Crypto} {ops : List SessionOp} {s t : Session}
    (h : Run (fun s op t => s.step C op = some t) s ops t) :
    t.sent.map Prod.fst = s.sent.map Prod.fst ++ plaintexts ops := by
  induction h with
  | nil => simp [plaintexts]
  | @cons s t u op ops hs _ ih =>
      rw [ih]
      cases op with
      | encryptA x =>
          cases hs
          simp [plaintexts]
      | encryptB y =>
          cases hs
          simp [plaintexts]
      | deliver k =>
          rw [Session.step] at hs
          split at hs
          · cases hs
          · cases hs
            simp [plaintexts]

/-- The packet sent as number `k` carries the counter `k` after the first. -/
theorem sent_counter {C : Crypto} {tA tB : Tunnel} {s : Session} (hinv : SessionInv C tA tB s)
    (hn : s.sent.length < 2 ^ 64 - tA.txCounter.toNat) {k : Nat} {x p : Bytes}
    (hk : s.sent[k]? = some (x, p)) :
    slice p 8 16 = le64 (tA.txCounter + UInt64.ofNat k) ∧
      u64le p 8 = tA.txCounter + UInt64.ofNat k ∧
      (u64le p 8).toNat = tA.txCounter.toNat + k := by
  have hlt : k < s.sent.length := (List.getElem?_eq_some_iff.mp hk).1
  have hslice : slice p 8 16 = le64 (tA.txCounter + UInt64.ofNat k) := by
    rw [hinv.sent_eq k x p hk]
    exact encrypt_counter C _ x
  have hread := u64le_of_slice hslice
  refine ⟨hslice, hread, ?_⟩
  have hsize : k < UInt64.size := by
    rw [UInt64.size]
    omega
  rw [hread, UInt64.toNat_add, UInt64.toNat_ofNat_of_lt' hsize]
  exact Nat.mod_eq_of_lt (by omega)

/-- A session of any length, with any interleaving and any delivery order:
the packets carry the peer's index and pairwise different counters, each
sealed under the counter it carries, and every delivery returns the padded
plaintext, empty only for a keepalive. -/
theorem session_correct {C : Crypto} (hC : C.Lawful) {tA tB : Tunnel}
    (hkey : tA.sendKey = tB.recvKey) (hidx : tA.theirIndex = tB.ourIndex)
    {ops : List SessionOp} {s : Session}
    (hrun : Run (fun s op t => s.step C op = some t) (Session.start tA tB) ops s)
    (hn : (plaintexts ops).length < 2 ^ 64 - tA.txCounter.toNat) :
    s.sent.map Prod.fst = plaintexts ops ∧
    (∀ (k : Nat) (x p : Bytes), s.sent[k]? = some (x, p) →
      slice p 4 8 = le32 tB.ourIndex ∧
      slice p 8 16 = le64 (u64le p 8) ∧
      (u64le p 8).toNat = tA.txCounter.toNat + k ∧
      p.drop 16 = C.chachaSeal tA.sendKey (leNonce (u64le p 8)) (pad16 16 x) []) ∧
    (∀ (j k : Nat) (x p y q : Bytes), j ≠ k →
      s.sent[j]? = some (x, p) → s.sent[k]? = some (y, q) →
      slice p 8 16 ≠ slice q 8 16 ∧ leNonce (u64le p 8) ≠ leNonce (u64le q 8)) ∧
    (∀ k d d', (k, d, d') ∈ s.received → ∃ x p y, s.sent[k]? = some (x, p) ∧
      d = .ok y ∧ d' = some y ∧ Padded x y ∧ (y = [] ↔ x = [])) := by
  have hinv : SessionInv C tA tB s :=
    hrun.invariant sessionInv_start fun hi hs => sessionInv_step hC hkey hi hs
  have hxs : s.sent.map Prod.fst = plaintexts ops := by
    simpa [Session.start] using sent_eq_plaintexts hrun
  have hlen : s.sent.length = (plaintexts ops).length := by
    rw [← hxs, List.length_map]
  rw [← hlen] at hn
  refine ⟨hxs, ?_, ?_, ?_⟩
  · intro k x p hk
    obtain ⟨hslice, hread, hnat⟩ := sent_counter hinv hn hk
    refine ⟨?_, ?_, hnat, ?_⟩
    · rw [hinv.sent_eq k x p hk, nthPacket, encrypt_index, hidx]
    · rw [hread, hslice]
    · rw [hread, hinv.sent_eq k x p hk, nthPacket, encrypt_body]
      rfl
  · intro j k x p y q hne hj hk
    have hdiff : u64le p 8 ≠ u64le q 8 := by
      intro heq
      have hnat := congrArg UInt64.toNat heq
      rw [(sent_counter hinv hn hj).2.2, (sent_counter hinv hn hk).2.2] at hnat
      omega
    refine ⟨fun heq => hdiff ?_, fun heq => hdiff (leNonce_inj heq)⟩
    rw [u64le, u64le, heq]
  · intro k d d' hmem
    obtain ⟨x, p, hk, hd, hd'⟩ := hinv.received_eq k d d' hmem
    have hpad := pad16_padded x
    exact ⟨x, p, _, hk, hd, hd', hpad, padded_eq_nil hpad⟩

/-- A tunnel with the all-zero keys and its mirror image. -/
def zeroTunnel (theirIndex ourIndex : UInt32) : Tunnel where
  sendKey := Arr.zero 32
  recvKey := Arr.zero 32
  theirIndex := theirIndex
  ourIndex := ourIndex
  txCounter := 0

theorem session_correct_zeroTunnel :
    ∃ s, Run (fun s op t => Session.step transparent s op = some t)
        (Session.start (zeroTunnel 7 5) (zeroTunnel 5 7))
        [.encryptA [69], .encryptB [], .deliver 0, .encryptA [], .deliver 1, .deliver 0] s ∧
      s.sent.map Prod.fst = [[69], []] ∧
      (∀ (k : Nat) (x p : Bytes), s.sent[k]? = some (x, p) → slice p 4 8 = le32 7) ∧
      s.received.length = 3 := by
  have hrun : Run (fun s op t => Session.step transparent s op = some t)
      (Session.start (zeroTunnel 7 5) (zeroTunnel 5 7))
      [.encryptA [69], .encryptB [], .deliver 0, .encryptA [], .deliver 1, .deliver 0] _ :=
    .cons rfl (.cons rfl (.cons rfl (.cons rfl (.cons rfl (.cons rfl .nil)))))
  obtain ⟨hxs, hpackets, -, -⟩ := session_correct transparent_lawful rfl rfl hrun (by decide)
  exact ⟨_, hrun, hxs, fun k x p hk => (hpackets k x p hk).1, rfl⟩

end TailscaleRust.Proofs
