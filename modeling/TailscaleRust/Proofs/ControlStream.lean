import TailscaleRust.Core.H2

/-!
# The control stream does not depend on how it is cut

Bytes reach `read_frame` through three buffers: what was read past the HTTP
head, the connection's `rx`, and the plaintext `rx` of the HTTP/2 session.
`Ahead` says, for each of the two readers, which bytes it still has to come,
and every reading function is a lemma of one shape: if what it parses stands
first in that queue it returns exactly that and leaves the rest. Where TCP
reads and records were cut appears nowhere in these statements.

The HTTP head is where this stops short. The status line is trimmed before
it is searched for ` 101 `, so the space after the code survives only if a
reason follows it.
-/

namespace TailscaleRust.Proofs

open TailscaleRust.Lib TailscaleRust.Core TailscaleRust.Core.Noise
open TailscaleRust.Core.Transport

/-! ## The TCP stream -/

/-- Every read that is not the last returns something. -/
def Chunked (s : ByteStream) : Prop := ∀ c ∈ s.incoming, c ≠ []

theorem pull_chunked (cap : Nat) (hcap : 0 < cap) {s : ByteStream} (h : Chunked s)
    (hne : s.incoming ≠ []) :
    ∃ b s', (ByteStream.source cap).pull s = .ok (b, s') ∧ Chunked s' ∧
      s.incoming.flatten = b ++ s'.incoming.flatten := by
  obtain ⟨c, rest, hin⟩ := List.exists_cons_of_ne_nil hne
  have hrest : ∀ x ∈ rest, x ≠ [] := fun x hx => h x (by rw [hin]; exact List.mem_cons_of_mem c hx)
  have hc : c ≠ [] := h c (by rw [hin]; exact List.mem_cons_self)
  obtain ⟨x, xs, rfl⟩ := List.exists_cons_of_ne_nil hc
  by_cases hlen : (x :: xs).length ≤ cap
  · refine ⟨x :: xs, { s with incoming := rest }, ?_, hrest, ?_⟩
    · have hread : s.read cap = .ok (x :: xs, { s with incoming := rest }) := by
        rw [ByteStream.read, hin]
        exact if_pos hlen
      rw [ByteStream.source]
      simp only [hread]
    · rw [hin, List.flatten_cons]
  · obtain ⟨k, rfl⟩ := Nat.exists_eq_add_of_lt hcap
    have hcut : (x :: xs).take (0 + k + 1) = x :: xs.take k := by
      rw [Nat.zero_add, List.take_succ_cons]
    refine ⟨x :: xs.take k, { s with incoming := (x :: xs).drop (0 + k + 1) :: rest }, ?_, ?_, ?_⟩
    · have hread : s.read (0 + k + 1) =
          .ok (x :: xs.take k, { s with incoming := (x :: xs).drop (0 + k + 1) :: rest }) := by
        rw [ByteStream.read, hin]
        simp only [hcut, if_neg hlen]
      rw [ByteStream.source]
      simp only [hread]
    · intro y hy
      rcases List.mem_cons.mp hy with rfl | hmem
      · intro hnil
        exact hlen (List.drop_eq_nil_iff.mp hnil)
      · exact hrest y hmem
    · rw [hin, List.flatten_cons, List.flatten_cons, ← hcut, ← List.append_assoc,
        List.take_append_drop]

theorem delivers_incoming {cap : Nat} (hcap : 0 < cap) {s : ByteStream} (h : Chunked s) :
    (ByteStream.source cap).Delivers s s.incoming.flatten := by
  induction hk : s.unread using Nat.strongRecOn generalizing s with
  | ind k ih =>
    by_cases hin : s.incoming = []
    · rw [hin]
      cases hfail : s.readFails with
      | true =>
          refine .done (e := .failed) ?_
          simp [ByteStream.source, ByteStream.read, hin, hfail]
      | false =>
          refine .done (e := .closed) ?_
          simp [ByteStream.source, ByteStream.read, hin, hfail]
    · obtain ⟨b, s', hp, hs', heq⟩ := pull_chunked cap hcap h hin
      rw [heq]
      have hlt : s'.unread < s.unread := (ByteStream.source cap).pull_lt hp
      exact .pull hp (ih s'.unread (by omega) hs' rfl)

/-! ## Controlbase frames -/

/-- What the connection still has to come, buffered or not. -/
def ConnAhead (c : Conn) (q : Bytes) : Prop :=
  (ByteStream.source 2048).Holds c.rx c.stream q

theorem take_ahead {c : Conn} {a q : Bytes} (h : ConnAhead c (a ++ q)) :
    ∃ c', c.take a.length = .ok (a, c') ∧ ConnAhead c' q := by
  obtain ⟨rx, stream, htake, hq⟩ := Source.take_append h
  exact ⟨{ stream, rx }, by rw [Conn.take, htake], hq⟩

/-- The two length bytes of a frame, read back. -/
theorem u16be_header {typ : UInt8} {x : UInt16} : u16be (typ :: be16 x) 1 = x := by
  have hs : slice (typ :: be16 x) 1 3 = be16 x := by
    rw [slice, List.drop_succ_cons, List.drop_zero]
    exact List.take_of_length_le (by rw [length_be16])
  have hlt : x.toNat < 256 ^ 2 := x.toNat_lt
  rw [u16be, hs, be16, beNat_beBytes, Nat.mod_eq_of_lt hlt]
  exact UInt16.ofNat_toNat

theorem readFrame_ahead {c : Conn} {typ : UInt8} {payload q : Bytes}
    (h : ConnAhead c (controlFrame typ payload ++ q)) (hlen : payload.length < 2 ^ 16) :
    ∃ c', c.readFrame = .ok ((typ, payload), c') ∧ ConnAhead c' q := by
  rw [controlFrame, List.append_assoc] at h
  obtain ⟨c1, h1, hq1⟩ := take_ahead h
  have hhdr : (typ :: be16 (UInt16.ofNat payload.length)).length = 3 := by
    rw [List.length_cons, length_be16]
  rw [hhdr] at h1
  obtain ⟨c2, h2, hq2⟩ := take_ahead hq1
  refine ⟨c2, ?_, hq2⟩
  have hn : (UInt16.ofNat payload.length).toNat = payload.length := by
    rw [UInt16.toNat_ofNat']
    exact Nat.mod_eq_of_lt hlen
  simp only [Conn.readFrame, h1, u16be_header, hn, h2]
  rfl

theorem readFrame_end {c : Conn} (h : ConnAhead c []) : ∃ e, c.readFrame = .error e := by
  obtain ⟨⟨why, got⟩, he⟩ := Source.take_error (n := 3) h (by decide)
  cases why <;> simp [Conn.readFrame, Conn.take, he]

/-! ## Records -/

/-- Plaintexts sealed into records under consecutive nonces. -/
def sealedFrom (C : Crypto) (key : Key) : UInt64 → List Bytes → Bytes
  | _, [] => []
  | n, pt :: pts =>
      controlFrame msgRecord (C.chachaSeal key (beNonce n) pt []) ++ sealedFrom C key (n + 1) pts

/-- The longest plaintext whose ciphertext the length field can announce. -/
def maxPlaintext : Nat := 65519

theorem openRecord_seal {C : Crypto} (hC : C.Lawful) (t : Transport) (pt : Bytes) :
    t.openRecord C (C.chachaSeal t.recv (beNonce t.rxNonce) pt []) =
      (.ok pt, { t with rxNonce := t.rxNonce + 1 }) := by
  simp only [Transport.openRecord, hC.open_seal]

theorem delivers_records {C : Crypto} (hC : C.Lawful) {pts : List Bytes} {conn : Conn}
    {tr : Transport} (hlen : ∀ pt ∈ pts, pt.length ≤ maxPlaintext)
    (h : ConnAhead conn (sealedFrom C tr.recv tr.rxNonce pts)) :
    (H2.source C).Delivers (conn, tr) pts.flatten := by
  induction pts generalizing conn tr with
  | nil =>
      obtain ⟨e, he⟩ := readFrame_end h
      refine .done (e := e) ?_
      simp only [H2.source, H2.pullRecord, he]
  | cons pt pts ih =>
      have hpt := hlen pt List.mem_cons_self
      have hct : (C.chachaSeal tr.recv (beNonce tr.rxNonce) pt []).length < 2 ^ 16 := by
        rw [hC.length_seal]
        rw [maxPlaintext] at hpt
        omega
      obtain ⟨conn', hread, hq⟩ := readFrame_ahead h hct
      have hopen := openRecord_seal hC tr pt
      rw [List.flatten_cons]
      have hpull : (H2.source C).pull (conn, tr) =
          .ok (pt, (conn', { tr with rxNonce := tr.rxNonce + 1 })) := by
        simp only [H2.source, H2.pullRecord, hread, if_true, hopen]
      exact .pull hpull (ih (fun x hx => hlen x (List.mem_cons_of_mem pt hx)) hq)

/-! ## HTTP/2 frames -/

/-- What the session still has to come, in plaintext. -/
def PlainAhead (C : Crypto) (h : H2) (q : Bytes) : Prop :=
  (H2.source C).Holds h.rx (h.conn, h.tr) q

/-- An HTTP/2 frame as the server sends it. The stream word carries the
reserved bit, which a receiver must ignore. -/
structure WireFrame where
  typ : UInt8
  flags : UInt8
  streamWord : UInt32
  payload : Bytes
  payload_lt : payload.length < 2 ^ 24

namespace WireFrame

def header (f : WireFrame) : Bytes :=
  beBytes 3 f.payload.length ++ [f.typ, f.flags] ++ be32 f.streamWord

def bytes (f : WireFrame) : Bytes := f.header ++ f.payload

/-- The frame a receiver should make of it. -/
def received (f : WireFrame) : H2.Frame where
  typ := f.typ
  flags := f.flags
  streamId := f.streamWord &&& 0x7fffffff
  payload := f.payload

end WireFrame

section Frames

variable {C : Crypto} {h : H2} {q : Bytes}

theorem readExact_ahead {a : Bytes} (hq : PlainAhead C h (a ++ q)) :
    ∃ h', h.readExact C a.length = .ok (a, h') ∧ PlainAhead C h' q := by
  obtain ⟨rx, ⟨conn, tr⟩, htake, hq'⟩ := Source.take_append hq
  exact ⟨{ h with conn, tr, rx }, by rw [H2.readExact, htake], hq'⟩

theorem length_header (f : WireFrame) : f.header.length = 9 := by
  simp [WireFrame.header]

theorem header_len (f : WireFrame) : beNat (slice f.header 0 3) = f.payload.length := by
  have hs : slice f.header 0 3 = beBytes 3 f.payload.length := by
    rw [WireFrame.header, List.append_assoc, slice_append_left (by simp), slice]
    exact List.take_of_length_le (by simp)
  rw [hs, beNat_beBytes]
  exact Nat.mod_eq_of_lt f.payload_lt

theorem header_typ (f : WireFrame) : byteAt f.header 3 = f.typ := by
  simp [WireFrame.header, byteAt]

theorem header_flags (f : WireFrame) : byteAt f.header 4 = f.flags := by
  simp [WireFrame.header, byteAt]

theorem header_streamWord (f : WireFrame) : u32be f.header 5 = f.streamWord := by
  rw [u32be_eq_iff (by rw [length_header]), slice, WireFrame.header]
  rw [List.drop_left' (by simp)]
  exact List.take_of_length_le (by simp)

theorem h2ReadFrame_ahead {f : WireFrame} (hq : PlainAhead C h (f.bytes ++ q)) :
    ∃ h', h.readFrame C = .ok (f.received, h') ∧ PlainAhead C h' q := by
  rw [WireFrame.bytes, List.append_assoc] at hq
  obtain ⟨h1, hhdr, hq1⟩ := readExact_ahead hq
  rw [length_header] at hhdr
  by_cases hlen : f.payload.length > 0
  · obtain ⟨h2, hpay, hq2⟩ := readExact_ahead hq1
    refine ⟨h2, ?_, hq2⟩
    simp only [H2.readFrame, hhdr, header_len, header_typ, header_flags, header_streamWord,
      if_pos hlen, hpay]
    rfl
  · have hnil : f.payload = [] := List.length_eq_zero_iff.mp (by omega)
    rw [hnil] at hq1
    refine ⟨h1, ?_, hq1⟩
    simp only [H2.readFrame, hhdr, header_len, header_typ, header_flags, header_streamWord,
      if_neg hlen]
    rw [WireFrame.received, hnil]

/-- Repeated reads return the frames one by one. -/
theorem readFrames_ahead {fs : List WireFrame}
    (hq : PlainAhead C h (fs.flatMap WireFrame.bytes ++ q)) :
    ∃ h', h.readFrames C fs.length = .ok (fs.map WireFrame.received, h') ∧ PlainAhead C h' q := by
  induction fs generalizing h with
  | nil => exact ⟨h, rfl, hq⟩
  | cons f fs ih =>
      rw [List.flatMap_cons, List.append_assoc] at hq
      obtain ⟨h1, hread, hq1⟩ := h2ReadFrame_ahead hq
      obtain ⟨h2, hrest, hq2⟩ := ih hq1
      refine ⟨h2, ?_, hq2⟩
      simp only [List.length_cons, H2.readFrames, hread, hrest, List.map_cons]

/-! ## The early payload -/

/-- An early payload on the wire; nothing if there is none. -/
def earlyBytes : Option Bytes → Bytes
  | none => []
  | some body => H2.earlyMagic ++ be32 (UInt32.ofNat body.length) ++ body

theorem consumeEarlyPayload_some {body : Bytes} (hlen : body.length < 2 ^ 32)
    (hq : PlainAhead C h (earlyBytes (some body) ++ q)) :
    ∃ h', h.consumeEarlyPayload C = .ok (some body, h') ∧ PlainAhead C h' q := by
  rw [earlyBytes, List.append_assoc] at hq
  obtain ⟨h1, hhdr, hq1⟩ := readExact_ahead hq
  obtain ⟨h2, hbody, hq2⟩ := readExact_ahead hq1
  have hmagic : slice (H2.earlyMagic ++ be32 (UInt32.ofNat body.length)) 0 5 = H2.earlyMagic := by
    rw [slice_append_left (by decide)]
    rfl
  have hword : u32be (H2.earlyMagic ++ be32 (UInt32.ofNat body.length)) 5 =
      UInt32.ofNat body.length := by
    rw [u32be_eq_iff (by simp [H2.earlyMagic]), slice, List.drop_left' (by rfl)]
    exact List.take_of_length_le (by simp)
  have hn : (UInt32.ofNat body.length).toNat = body.length := by
    rw [UInt32.toNat_ofNat']
    exact Nat.mod_eq_of_lt hlen
  have hnine : (H2.earlyMagic ++ be32 (UInt32.ofNat body.length)).length = 9 := by
    simp [H2.earlyMagic]
  rw [hnine] at hhdr
  refine ⟨h2, ?_, hq2⟩
  simp only [H2.consumeEarlyPayload, hhdr, hmagic, if_true, hword, hn, hbody]

/-- A SETTINGS header cannot be taken for the magic: its fourth byte is the
frame type. The nine bytes looked at are put back. -/
theorem consumeEarlyPayload_none {f : WireFrame} (htyp : f.typ = H2.ftSettings)
    (hq : PlainAhead C h (f.bytes ++ q)) :
    ∃ h', h.consumeEarlyPayload C = .ok (none, h') ∧ PlainAhead C h' (f.bytes ++ q) := by
  rw [WireFrame.bytes, List.append_assoc] at hq ⊢
  obtain ⟨h1, hhdr, hq1⟩ := readExact_ahead hq
  rw [length_header] at hhdr
  have hmagic : slice f.header 0 5 ≠ H2.earlyMagic := by
    intro heq
    have h3 : byteAt (slice f.header 0 5) 3 = byteAt f.header 3 := by
      simp [byteAt, slice, List.getD_eq_getElem?_getD]
    rw [heq, header_typ, htyp] at h3
    exact absurd h3 (by decide)
  refine ⟨{ h1 with rx := f.header ++ h1.rx }, ?_, hq1.pushBack⟩
  simp only [H2.consumeEarlyPayload, hhdr, if_neg hmagic]

end Frames

end TailscaleRust.Proofs
