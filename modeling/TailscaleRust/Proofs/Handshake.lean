import TailscaleRust.Proofs.WgNoise

/-!
# A whole handshake

The three handshake functions run one after the other, on the messages they
send each other. Because each of them is a reference `WriteMessage` or
`ReadMessage`, agreement is the library's agreement applied twice: message 1
from the initiator to the responder, message 2 back. `handshake_run` is that
argument done once, with everything either end learns; the theorems after it
select from it.

A datagram may carry bytes past the message. The consuming functions read
only the fields, so an extension of a message is consumed as the message.
-/

namespace TailscaleRust.Proofs

open TailscaleRust.Lib TailscaleRust.Lib.Noise TailscaleRust.Core
open TailscaleRust.Core.Wg

/-! ## Trailing bytes are ignored -/

theorem arrAt_append_left {a b : Bytes} {off n : Nat} (h : off + n ≤ a.length) :
    arrAt (a ++ b) off n = arrAt a off n := by
  have hlen : (slice a off (off + n)).length = n := by
    simp [slice]; omega
  have ha : arrAt a off n = ⟨slice a off (off + n), hlen⟩ := arrAt_eq rfl
  rw [ha]
  exact arrAt_eq (slice_append_left h)

theorem u32le_append_left {a b : Bytes} {i : Nat} (h : i + 4 ≤ a.length) :
    u32le (a ++ b) i = u32le a i := by
  rw [u32le, slice_append_left h, u32le]

theorem consumeInitiation_append (C : Crypto) (priv pub : Key) {init : Bytes}
    (ext : Bytes) (index : UInt32) (erPriv : Key) (h : initLen ≤ init.length) :
    consumeInitiation C priv pub (init ++ ext) index erPriv =
      consumeInitiation C priv pub init index erPriv := by
  have h' : initLen ≤ (init ++ ext).length := by
    rw [List.length_append]; omega
  have hl : 148 ≤ init.length := h
  simp only [consumeInitiation, if_neg (Nat.not_lt.mpr h), if_neg (Nat.not_lt.mpr h'),
    byteAt_append_left (show 0 < init.length by omega),
    u32le_append_left (show 4 + 4 ≤ init.length by omega),
    arrAt_append_left (show 8 + 32 ≤ init.length by omega),
    slice_append_left (show 88 ≤ init.length by omega),
    slice_append_left (show 116 ≤ init.length by omega)]

theorem consumeResponse_append (C : Crypto) (hs : Handshake) {resp : Bytes}
    (ext : Bytes) (h : respLen ≤ resp.length) :
    hs.consumeResponse C (resp ++ ext) = hs.consumeResponse C resp := by
  have h' : respLen ≤ (resp ++ ext).length := by
    rw [List.length_append]; omega
  have hl : 92 ≤ resp.length := h
  simp only [Handshake.consumeResponse, if_neg (Nat.not_lt.mpr h),
    if_neg (Nat.not_lt.mpr h'), byteAt_append_left (show 0 < resp.length by omega),
    u32le_append_left (show 4 + 4 ≤ resp.length by omega),
    u32le_append_left (show 8 + 4 ≤ resp.length by omega),
    arrAt_append_left (show 12 + 32 ≤ resp.length by omega),
    slice_append_left (show 60 ≤ resp.length by omega)]

/-! ## The reference run -/

/-- One complete run of the pattern: the two messages, the payloads read at
the far ends, and what each end's `Split` returns. -/
structure ReferenceRun where
  message1 : Bytes
  payload1 : Bytes
  message2 : Bytes
  payload2 : Bytes
  initiatorKeys : Key × Key
  responderKeys : Key × Key

/-- Run Noise_IKpsk2 between two honest ends, or stop where the framework
would raise an error. -/
def referenceRun (C : Crypto) (privI privR ephI ephR : Key) (ts : Arr 12) :
    Option ReferenceRun :=
  match writeMessage (wgSuite C) ephI ikPsk2Message1
      (noiseInitiator C privI (pubkey C privR)) ts.1 with
  | none => none
  | some (m1, i1) =>
      match readMessage (wgSuite C) ikPsk2Message1
          (noiseResponder C privR (pubkey C privR)) m1 with
      | none => none
      | some (p1, r1) =>
          match writeMessage (wgSuite C) ephR ikPsk2Message2 r1 [] with
          | none => none
          | some (m2, r2) =>
              match readMessage (wgSuite C) ikPsk2Message2 i1 m2 with
              | none => none
              | some (p2, i2) =>
                  some { message1 := m1, payload1 := p1, message2 := m2, payload2 := p2
                         initiatorKeys := split (wgSuite C) i2.sym
                         responderKeys := split (wgSuite C) r2.sym }

/-- The two reference ends start in sync: all they disagree on is the
responder's static key, which only the initiator was told. -/
theorem noise_inSync (C : Crypto) (privI privR : Key) :
    InSync (wgSuite C) (noiseInitiator C privI (pubkey C privR))
      (noiseResponder C privR (pubkey C privR)) := by
  rw [noiseInitiator_eq, noiseResponder_eq]
  exact
    { sym := rfl, role := rfl, psk := rfl, re := rfl, wre := rfl
      rs := fun p hp => by cases hp
      wrs := fun p hp => by
        cases hp
        rfl }

/-- The initiator's side of a handshake: its message and what it keeps. -/
def initiation (C : Crypto) (privI privR ephI : Key) (ts : Arr 12) (i : UInt32) :
    Arr initLen × Handshake :=
  buildInitiation C privI (pubkey C privI) (pubkey C privR) ts i ephI

section Kept

variable (C : Crypto) (privI privR ephI : Key) (ts : Arr 12) (i : UInt32)

theorem initiation_ourStaticPriv :
    (initiation C privI privR ephI ts i).2.ourStaticPriv = privI := rfl

theorem initiation_ephPriv :
    (initiation C privI privR ephI ts i).2.ephPriv = ephI := rfl

end Kept

/-- The header of an initiation and the index that is kept of it. -/
theorem buildInitiation_header (C : Crypto) (priv pub peer : Key) (ts : Arr 12) (i : UInt32)
    (eph : Key) :
    byteAt (buildInitiation C priv pub peer ts i eph).1.1 0 = msgInitiation ∧
    u32le (buildInitiation C priv pub peer ts i eph).1.1 4 = i ∧
    (buildInitiation C priv pub peer ts i eph).2.ourIndex = i :=
  ⟨initMessage_type i _ _ _ _, initMessage_index i _ _ _ _, rfl⟩

/-- The header and the body of an initiation, whatever is in its fields. -/
theorem initiation_fields {C : Crypto} (hC : C.Lawful) (privI privR ephI : Key)
    (ts : Arr 12) (i : UInt32) :
    byteAt (initiation C privI privR ephI ts i).1.1 0 = msgInitiation ∧
    u32le (initiation C privI privR ephI ts i).1.1 4 = i ∧
    ∃ m1 cs, slice (initiation C privI privR ephI ts i).1.1 8 116 = m1 ∧
      writeMessage (wgSuite C) ephI ikPsk2Message1
        (noiseInitiator C privI (pubkey C privR)) ts.1 =
      some (m1, ⟨⟨(initiation C privI privR ephI ts i).2.chaining,
          (initiation C privI privR ephI ts i).2.hash, cs⟩, true, some privI,
        some ephI, some (pubkey C privR), none, some zeroPsk.1⟩) := by
  obtain ⟨encStatic, encTs, mac1, hs, ht, hmsg, cs, hw⟩ :=
    buildInitiation_refines hC privI (pubkey C privR) ephI ts i
  have he : (pubkey C ephI).1.length = 32 := (pubkey C ephI).2
  obtain ⟨hb1, hb2, hb3⟩ := initMessage_body i mac1.1 he hs ht
  have hbody : slice (initiation C privI privR ephI ts i).1.1 8 116 =
      (pubkey C ephI).1 ++ (encStatic ++ encTs) := by
    rw [initiation, hmsg,
      ← slice_slice_append (show 8 ≤ 40 by omega) (show 40 ≤ 116 by omega),
      ← slice_slice_append (show 40 ≤ 88 by omega) (show 88 ≤ 116 by omega),
      hb1, hb2, hb3]
  obtain ⟨htype, hindex, -⟩ := buildInitiation_header C privI (pubkey C privI) (pubkey C privR) ts i
    ephI
  exact ⟨htype, hindex, _, cs, hbody, hw⟩

/-- What a responder that accepted some initiation puts into its answer,
its tunnel and its header, without any assumption on who wrote the bytes. -/
theorem consumeInitiation_header {C : Crypto} {priv pub : Key}
    {init : Bytes} {index : UInt32} {erPriv : Key} {resp : Arr respLen}
    {tun : Tunnel} {peer : Key}
    (h : consumeInitiation C priv pub init index erPriv = .ok (resp, tun, peer)) :
    byteAt resp.1 0 = msgResponse ∧ u32le resp.1 4 = index ∧
    u32le resp.1 8 = u32le init 4 ∧ tun.ourIndex = index ∧
    tun.theirIndex = u32le init 4 ∧ tun.txCounter = 0 := by
  have hlen : initLen ≤ init.length := by
    by_contra hc
    rw [consumeInitiation, if_pos (by omega)] at h
    cases h
  have htype : byteAt init 0 = msgInitiation := by
    by_contra hc
    rw [consumeInitiation, if_neg (by omega), if_pos hc] at h
    cases h
  have href := consumeInitiation_refines (C := C) priv pub index erPriv hlen htype
  split at href
  · obtain ⟨msg, hmsg⟩ := href
    rw [hmsg] at h
    cases h
  · obtain ⟨sI, k, hk, hs', -, -, mac1, hok⟩ := href
    rw [hok] at h
    cases h
    have hidx := respMessage_indices index (u32le init 4) (pubkey C erPriv).1
      (wgSeal C k 0 [] hk) mac1.1
    exact ⟨respMessage_type index (u32le init 4) _ _ _, hidx.1, hidx.2, rfl, rfl, rfl⟩

/-- What an initiator that accepted some response has of it. -/
theorem consumeResponse_header {C : Crypto} {hs : Handshake} {resp : Bytes} {tun : Tunnel}
    (h : hs.consumeResponse C resp = .ok tun) :
    u32le resp 8 = hs.ourIndex ∧ tun.ourIndex = hs.ourIndex ∧ tun.txCounter = 0 := by
  rw [Handshake.consumeResponse] at h
  split at h
  · cases h
  · split at h
    · cases h
    · simp only [] at h
      split at h
      · cases h
      · next hidx =>
          split at h
          · cases h
          · split at h
            · cases h
            · cases h
              exact ⟨not_not.mp hidx, rfl, rfl⟩

/-- The whole handshake, next to the reference run. -/
theorem handshake_run {C : Crypto} (hC : C.Lawful) (privI privR ephI ephR : Key)
    (ts : Arr 12) (i r : UInt32) :
    ∃ (run : ReferenceRun) (resp : Arr respLen) (tI tR : Tunnel),
      referenceRun C privI privR ephI ephR ts = some run ∧
      consumeInitiation C privR (pubkey C privR)
        (initiation C privI privR ephI ts i).1.1 r ephR =
          .ok (resp, tR, pubkey C privI) ∧
      (initiation C privI privR ephI ts i).2.consumeResponse C resp.1 = .ok tI ∧
      slice (initiation C privI privR ephI ts i).1.1 8 116 = run.message1 ∧
      slice resp.1 12 60 = run.message2 ∧
      run.payload1 = ts.1 ∧ run.payload2 = [] ∧
      run.initiatorKeys = run.responderKeys ∧
      tI = { sendKey := run.initiatorKeys.1, recvKey := run.initiatorKeys.2
             theirIndex := r, ourIndex := i, txCounter := 0 } ∧
      tR = { sendKey := run.responderKeys.2, recvKey := run.responderKeys.1
             theirIndex := i, ourIndex := r, txCounter := 0 } := by
  have hΓ := wgSuite_lawful hC
  obtain ⟨htype, hidx, m1, cs, hbody, hw1⟩ := initiation_fields hC privI privR ephI ts i
  obtain ⟨r1, hread1, hsync1⟩ := readMessage_writeMessage hΓ
    (noise_inSync C privI privR) (by rw [noiseResponder_eq]; rfl) hw1
  have hconsume := consumeInitiation_refines (C := C) privR (pubkey C privR) r ephR
    (Nat.le_of_eq (initiation C privI privR ephI ts i).1.2.symm) htype
  rw [hbody, hread1] at hconsume
  obtain ⟨sI, k, hk, r2, hrs, hw2, mac1, hok⟩ := hconsume
  have hpeer : sI = pubkey C privI := by
    have hpub := hsync1.rs sI hrs
    exact (Option.some.inj hpub).symm
  subst hpeer
  obtain ⟨i2, hread2, hsync2⟩ := readMessage_writeMessage hΓ hsync1.symm (by rfl) hw2
  have hn : (wgSeal C k 0 [] hk).length = 16 := by
    rw [wgSeal, hC.length_seal]
    rfl
  have he : (pubkey C ephR).1.length = 32 := (pubkey C ephR).2
  obtain ⟨hb1, hb2⟩ := respMessage_body r i mac1.1 he hn
  obtain ⟨hi1, hi2⟩ := respMessage_indices r i _ _ mac1.1
  have hbody2 : slice (respMessage r i (pubkey C ephR).1 (wgSeal C k 0 [] hk) mac1.1).1
      12 60 = (pubkey C ephR).1 ++ wgSeal C k 0 [] hk := by
    rw [← slice_slice_append (show 12 ≤ 44 by omega) (show 44 ≤ 60 by omega), hb1, hb2]
  rw [hidx] at hok
  have hresponse := consumeResponse_refines (C := C)
    (initiation C privI privR ephI ts i).2 (pubkey C privR) cs
    (Nat.le_of_eq (respMessage r i (pubkey C ephR).1 (wgSeal C k 0 [] hk) mac1.1).2.symm)
    (respMessage_type r i _ _ _) hi2
  rw [hbody2, initiation_ourStaticPriv, initiation_ephPriv, hread2, hi1] at hresponse
  have hrun : referenceRun C privI privR ephI ephR ts =
      some { message1 := m1, payload1 := ts.1, payload2 := []
             message2 := (pubkey C ephR).1 ++ wgSeal C k 0 [] hk
             initiatorKeys := split (wgSuite C) i2.sym
             responderKeys := split (wgSuite C) r2.sym } := by
    rw [referenceRun, hw1]
    simp only [hread1, hw2, hread2]
  exact ⟨_, _, _, _, hrun, hok, hresponse, hbody, hbody2, rfl, rfl,
    by rw [hsync2.sym], rfl, rfl⟩

/-! ## Agreement and refinement -/

/-- Any two key pairs, ephemerals, timestamp and indices: the handshake
completes on both sides and the two tunnels mirror each other. -/
theorem handshake_agreement {C : Crypto} (hC : C.Lawful)
    (privI privR ephI ephR : Key) (ts : Arr 12) (i r : UInt32) (ext₁ ext₂ : Bytes) :
    let b := buildInitiation C privI (pubkey C privI) (pubkey C privR) ts i ephI
    ∃ (resp : Arr respLen) (tI tR : Tunnel),
      consumeInitiation C privR (pubkey C privR) (b.1.1 ++ ext₁) r ephR =
        .ok (resp, tR, pubkey C privI) ∧
      b.2.consumeResponse C (resp.1 ++ ext₂) = .ok tI ∧
      tI.sendKey = tR.recvKey ∧ tI.recvKey = tR.sendKey ∧
      tI.ourIndex = i ∧ tI.theirIndex = r ∧ tR.ourIndex = r ∧ tR.theirIndex = i ∧
      tI.txCounter = 0 ∧ tR.txCounter = 0 := by
  intro b
  obtain ⟨run, resp, tI, tR, -, hcons, hresp, -, -, -, -, hkeys, hI, hR⟩ :=
    handshake_run hC privI privR ephI ephR ts i r
  have hcons' : consumeInitiation C privR (pubkey C privR) (b.1.1 ++ ext₁) r ephR =
      .ok (resp, tR, pubkey C privI) := by
    rw [consumeInitiation_append _ _ _ _ _ _ (Nat.le_of_eq b.1.2.symm)]
    exact hcons
  have hresp' : b.2.consumeResponse C (resp.1 ++ ext₂) = .ok tI := by
    rw [consumeResponse_append _ _ _ (Nat.le_of_eq resp.2.symm)]
    exact hresp
  refine ⟨resp, tI, tR, hcons', hresp', ?_⟩
  subst hI hR
  exact ⟨by rw [hkeys], by rw [hkeys], rfl, rfl, rfl, rfl, rfl, rfl⟩

theorem handshake_agreement_transparent :
    let b := buildInitiation transparent (byteKey 3) (pubkey transparent (byteKey 3))
      (pubkey transparent (byteKey 5)) (tai64n 1700000000 250) 1 (byteKey 7)
    ∃ (resp : Arr respLen) (tI tR : Tunnel),
      consumeInitiation transparent (byteKey 5) (pubkey transparent (byteKey 5))
        (b.1.1 ++ [0]) 2 (byteKey 9) =
          .ok (resp, tR, pubkey transparent (byteKey 3)) ∧
      b.2.consumeResponse transparent (resp.1 ++ []) = .ok tI ∧
      tI.sendKey = tR.recvKey ∧ tI.recvKey = tR.sendKey ∧
      tI.ourIndex = 1 ∧ tI.theirIndex = 2 ∧ tR.ourIndex = 2 ∧ tR.theirIndex = 1 ∧
      tI.txCounter = 0 ∧ tR.txCounter = 0 :=
  handshake_agreement transparent_lawful _ _ _ _ _ 1 2 [0] []

/-- The fields the three functions write are the reference run's messages,
cut where the wire format cuts them, and the tunnels hold its `Split` keys:
the initiator sends on the first, the responder on the second. -/
theorem handshake_is_ikPsk2 {C : Crypto} (hC : C.Lawful)
    (privI privR ephI ephR : Key) (ts : Arr 12) (i r : UInt32) :
    let b := buildInitiation C privI (pubkey C privI) (pubkey C privR) ts i ephI
    ∃ (run : ReferenceRun) (resp : Arr respLen) (tI tR : Tunnel),
      referenceRun C privI privR ephI ephR ts = some run ∧
      consumeInitiation C privR (pubkey C privR) b.1.1 r ephR =
        .ok (resp, tR, pubkey C privI) ∧
      b.2.consumeResponse C resp.1 = .ok tI ∧
      (slice b.1.1 8 40 = slice run.message1 0 32 ∧
        slice b.1.1 40 88 = slice run.message1 32 80 ∧
        slice b.1.1 88 116 = slice run.message1 80 108 ∧
        run.message1.length = 108 ∧ run.payload1 = ts.1) ∧
      (slice resp.1 12 44 = slice run.message2 0 32 ∧
        slice resp.1 44 60 = slice run.message2 32 48 ∧
        run.message2.length = 48 ∧ run.payload2 = []) ∧
      (tI.sendKey, tI.recvKey) = run.initiatorKeys ∧
      (tR.recvKey, tR.sendKey) = run.responderKeys ∧
      run.initiatorKeys = run.responderKeys := by
  intro b
  obtain ⟨run, resp, tI, tR, hrun, hcons, hresp, hm1, hm2, hp1, hp2, hkeys, hI, hR⟩ :=
    handshake_run hC privI privR ephI ephR ts i r
  refine ⟨run, resp, tI, tR, hrun, hcons, hresp, ⟨?_, ?_, ?_, ?_, hp1⟩,
    ⟨?_, ?_, ?_, hp2⟩, ?_, ?_, hkeys⟩
  · rw [← hm1, slice_slice (by omega)]
    rfl
  · rw [← hm1, slice_slice (by omega)]
    rfl
  · rw [← hm1, slice_slice (by omega)]
    rfl
  · rw [← hm1, length_slice (by rw [(initiation C privI privR ephI ts i).1.2]; decide)]
  · rw [← hm2, slice_slice (by omega)]
  · rw [← hm2, slice_slice (by omega)]
  · rw [← hm2, length_slice (by rw [resp.2]; decide)]
  · rw [hI]
  · rw [hR]

theorem handshake_is_ikPsk2_transparent :
    let b := buildInitiation transparent (byteKey 3) (pubkey transparent (byteKey 3))
      (pubkey transparent (byteKey 5)) (tai64n 1700000000 250) 1 (byteKey 7)
    ∃ (run : ReferenceRun) (resp : Arr respLen) (tI tR : Tunnel),
      referenceRun transparent (byteKey 3) (byteKey 5) (byteKey 7) (byteKey 9)
        (tai64n 1700000000 250) = some run ∧
      consumeInitiation transparent (byteKey 5) (pubkey transparent (byteKey 5))
        b.1.1 2 (byteKey 9) = .ok (resp, tR, pubkey transparent (byteKey 3)) ∧
      b.2.consumeResponse transparent resp.1 = .ok tI ∧
      (tI.sendKey, tI.recvKey) = run.initiatorKeys ∧
      (tR.recvKey, tR.sendKey) = run.responderKeys ∧ run.initiatorKeys = run.responderKeys := by
  obtain ⟨run, resp, tI, tR, hrun, hcons, hresp, -, -, hkeys⟩ :=
    handshake_is_ikPsk2 transparent_lawful (byteKey 3) (byteKey 5) (byteKey 7)
      (byteKey 9) (tai64n 1700000000 250) 1 2
  exact ⟨run, resp, tI, tR, hrun, hcons, hresp, hkeys⟩

end TailscaleRust.Proofs
