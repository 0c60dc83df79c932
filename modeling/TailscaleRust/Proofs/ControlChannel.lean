import TailscaleRust.Proofs.ControlStream

/-!
# The control channel, from the first byte of the response on

The upgrade, the first controlbase frame, the early payload and the HTTP/2
frames are read by four functions in turn, each starting from the buffers
the one before left. `ServerStream` is a well-formed server side: what it
sends and how it cuts it. The result is that the client returns what was
sent for every such stream and every cut of the TCP bytes, if and only if
the reason phrase of the 101 line is not blank.
-/

namespace TailscaleRust.Proofs

open TailscaleRust.Lib TailscaleRust.Core TailscaleRust.Core.Noise
open TailscaleRust.Core.Transport

/-! ## The response head -/

/-- The part of the status line before the space that ends the code. -/
def statusCode (major minor : UInt8) : Bytes :=
  ascii "HTTP/" ++ [major, 46, minor] ++ ascii " 101"

/-- The head of an HTTP response with status code 101: the status line, the
header fields with their line ends, and an empty line. -/
def headBytes (major minor : UInt8) (reason fields : Bytes) : Bytes :=
  statusCode major minor ++ 32 :: reason ++ [13, 10] ++ fields ++ [13, 10]

def AsciiDigit (b : UInt8) : Prop := 48 ≤ b ∧ b ≤ 57

/-- A head that fits the client's limit and in which the first empty line is
the last line. -/
structure ResponseHead where
  major : UInt8
  minor : UInt8
  reason : Bytes
  fields : Bytes
  major_digit : AsciiDigit major
  minor_digit : AsciiDigit minor
  reason_line : ∀ b ∈ reason, b ≠ 10
  first_end : position headEnd (headBytes major minor reason fields) =
    some ((headBytes major minor reason fields).length - 4)
  length_le : (headBytes major minor reason fields).length ≤ 8192

def ResponseHead.bytes (hd : ResponseHead) : Bytes :=
  headBytes hd.major hd.minor hd.reason hd.fields

/-- Nothing to see in a reason phrase: it is empty or all white space. -/
def Blank (reason : Bytes) : Prop := ∀ c ∈ lossy reason, isWhitespace c = true

instance (reason : Bytes) : Decidable (Blank reason) :=
  List.decidableBAll (fun c => isWhitespace c = true) (lossy reason)

/-! ## Reading the head -/

theorem headBytes_length (major minor : UInt8) (reason fields : Bytes) :
    4 ≤ (headBytes major minor reason fields).length := by
  simp only [headBytes, List.length_append, List.length_cons, List.length_nil]
  omega

theorem readHead_pull {s s' : ByteStream} {head b : Bytes}
    (hp : (ByteStream.source 512).pull s = .ok (b, s')) :
    readHead s head =
      match position headEnd (head ++ b) with
      | some pos => .ok (head ++ b, pos + 4, s')
      | none =>
          if (head ++ b).length > 8192 then .error "upgrade response headers too large"
          else readHead s' (head ++ b) := by
  rw [readHead]
  split
  · next he =>
      rw [hp] at he
      cases he
  · next he =>
      rw [hp] at he
      cases he
  · next he =>
      rw [hp] at he
      cases he
      rfl

/-- The loop stops at the read that completes the head, and what it read
beyond the head is the start of what follows. -/
theorem readHead_ahead {hd : ResponseHead} (s : ByteStream) {head q : Bytes}
    (hs : Chunked s) (hq : hd.bytes ++ q = head ++ s.incoming.flatten)
    (hlt : head.length < hd.bytes.length) :
    ∃ extra s', readHead s head = .ok (hd.bytes ++ extra, hd.bytes.length, s') ∧
      Chunked s' ∧ q = extra ++ s'.incoming.flatten := by
  have h4 : 4 ≤ hd.bytes.length := headBytes_length ..
  have hend : headEnd.length = 4 := rfl
  have hpos : position headEnd (hd.bytes ++ q) = some (hd.bytes.length - 4) :=
    position_append_right (by decide) hd.first_end
  induction hk : s.unread using Nat.strongRecOn generalizing s head with
  | ind k ih =>
    have hin : s.incoming ≠ [] := by
      intro hnil
      have hlen := congrArg List.length hq
      rw [hnil, List.flatten_nil, List.append_nil, List.length_append] at hlen
      omega
    obtain ⟨b, s', hp, hs', heq⟩ := pull_chunked 512 (by decide) hs hin
    rw [heq, ← List.append_assoc] at hq
    have hpos' := hpos
    rw [hq] at hpos'
    rw [readHead_pull hp]
    by_cases hdone : hd.bytes.length ≤ (head ++ b).length
    · rw [position_append (by decide) hpos' (by rw [hend]; omega)]
      obtain ⟨extra, hextra⟩ : ∃ extra, head ++ b = hd.bytes ++ extra := by
        rcases List.append_eq_append_iff.mp hq with ⟨x, hx, -⟩ | ⟨x, hx, -⟩
        · exact ⟨x, hx⟩
        · refine ⟨[], ?_⟩
          have hx0 : x = [] := by
            have hlen := congrArg List.length hx
            rw [List.length_append] at hlen
            exact List.length_eq_zero_iff.mp (by omega)
          rw [hx, hx0, List.append_nil, List.append_nil]
      refine ⟨extra, s', ?_, hs', ?_⟩
      · simp only [hextra, Except.ok.injEq, Prod.mk.injEq, true_and, and_true]
        omega
      · rw [hextra, List.append_assoc] at hq
        exact List.append_cancel_left hq
    · have hnone : position headEnd (head ++ b) = none :=
        position_prefix_none (by decide) hpos' (by rw [hend]; omega)
      have hshort : ¬(head ++ b).length > 8192 := by
        have := hd.length_le
        rw [← ResponseHead.bytes] at this
        omega
      simp only [hnone, if_neg hshort]
      have hless : s'.unread < s.unread := (ByteStream.source 512).pull_lt hp
      exact ih s'.unread (by omega) s' hs' hq (by omega) rfl

/-! ## The status line -/

theorem statusCode_ascii {major minor : UInt8} (h1 : AsciiDigit major)
    (h2 : AsciiDigit minor) : ∀ b ∈ statusCode major minor, b < 0x80 ∧ b ≠ 10 := by
  have hdigit : ∀ b, AsciiDigit b → b < 0x80 ∧ b ≠ 10 := by
    intro b hb
    have hle := UInt8.le_iff_toNat_le.mp hb.2
    have hge := UInt8.le_iff_toNat_le.mp hb.1
    refine ⟨UInt8.lt_iff_toNat_lt.mpr (Nat.lt_of_le_of_lt hle (by decide)), ?_⟩
    intro heq
    subst heq
    exact absurd hge (by decide)
  have hall : (ascii "HTTP/" ++ ascii " 101").all (fun b => b < 0x80 && b != 10) = true := by
    decide
  have htext : ∀ b ∈ ascii "HTTP/" ++ ascii " 101", b < 0x80 ∧ b ≠ 10 := by
    intro b hb
    simpa using List.all_eq_true.mp hall b hb
  intro b hb
  simp only [statusCode, List.mem_append, List.mem_cons, List.not_mem_nil, or_false] at hb
  rcases hb with (hb | rfl | rfl | rfl) | hb
  · exact htext b (List.mem_append_left _ hb)
  · exact hdigit b h1
  · decide
  · exact hdigit b h2
  · exact htext b (List.mem_append_right _ hb)

theorem takeWhile_status {hd : ResponseHead} {rest : Bytes} :
    (hd.bytes ++ rest).takeWhile (· ≠ 10) =
      statusCode hd.major hd.minor ++ 32 :: (hd.reason ++ [13]) := by
  have hline : ∀ b ∈ statusCode hd.major hd.minor ++ 32 :: (hd.reason ++ [13]),
      decide (b ≠ 10) = true := by
    intro b hb
    rw [decide_eq_true_iff]
    simp only [List.mem_append, List.mem_cons, List.not_mem_nil, or_false] at hb
    rcases hb with hb | rfl | hb | rfl
    · exact (statusCode_ascii hd.major_digit hd.minor_digit b hb).2
    · decide
    · exact hd.reason_line b hb
    · decide
  have hsplit : hd.bytes ++ rest = (statusCode hd.major hd.minor ++ 32 :: (hd.reason ++ [13])) ++
      10 :: (hd.fields ++ [13, 10] ++ rest) := by
    simp [ResponseHead.bytes, headBytes]
  rw [hsplit, List.takeWhile_append_of_pos hline, List.takeWhile_cons_of_neg (by decide),
    List.append_nil]

/-- The status line up to the code, decoded. -/
def statusChars (major minor : UInt8) : List Char :=
  ['H', 'T', 'T', 'P', '/', Char.ofNat major.toNat, '.', Char.ofNat minor.toNat,
    ' ', '1', '0', '1']

theorem lossy_status {hd : ResponseHead} :
    lossy (statusCode hd.major hd.minor ++ 32 :: (hd.reason ++ [13])) =
      statusChars hd.major hd.minor ++ ' ' :: (lossy hd.reason ++ ['\r']) := by
  have hcode := statusCode_ascii hd.major_digit hd.minor_digit
  rw [lossy_append_ascii (by decide), lossy_append_ascii (by decide)]
  have hchars : lossy (statusCode hd.major hd.minor ++ []) = _ :=
    lossy_ascii_append fun b hb => (hcode b hb).1
  rw [List.append_nil] at hchars
  rw [hchars]
  rfl

/-- With nothing after the code there is no space after it either. -/
theorem contains_statusChars {major minor : UInt8} (h1 : AsciiDigit major)
    (h2 : AsciiDigit minor) : contains (statusChars major minor) switching = false := by
  have hall : ∀ a b : Fin 10,
      contains (statusChars (UInt8.ofNat (48 + a)) (UInt8.ofNat (48 + b))) switching = false := by
    decide
  have hform : ∀ x : UInt8, AsciiDigit x → ∃ a : Fin 10, x = UInt8.ofNat (48 + a) := by
    intro x hx
    have hle : x.toNat ≤ 57 := UInt8.le_iff_toNat_le.mp hx.2
    have hge : 48 ≤ x.toNat := UInt8.le_iff_toNat_le.mp hx.1
    refine ⟨⟨x.toNat - 48, by omega⟩, ?_⟩
    apply UInt8.toNat_inj.mp
    have hsum : 48 + (x.toNat - 48) = x.toNat := by omega
    rw [hsum, UInt8.ofNat_toNat]
  obtain ⟨a, rfl⟩ := hform major h1
  obtain ⟨b, rfl⟩ := hform minor h2
  exact hall a b

theorem switching_iff {hd : ResponseHead} {rest : Bytes} :
    contains (statusLine (hd.bytes ++ rest)) switching = true ↔ ¬Blank hd.reason := by
  rw [statusLine, takeWhile_status, lossy_status, trim]
  have hstart : trimStart (statusChars hd.major hd.minor ++ ' ' :: (lossy hd.reason ++ ['\r'])) =
      statusChars hd.major hd.minor ++ ' ' :: (lossy hd.reason ++ ['\r']) :=
    trimStart_cons (by decide)
  rw [hstart]
  by_cases hb : Blank hd.reason
  · -- everything after the code is trimmed away
    have hend : trimEnd (statusChars hd.major hd.minor) = statusChars hd.major hd.minor := by
      have hlast : statusChars hd.major hd.minor =
          ['H', 'T', 'T', 'P', '/', Char.ofNat hd.major.toNat, '.', Char.ofNat hd.minor.toNat,
            ' ', '1', '0'] ++ ['1'] := rfl
      rw [hlast, trimEnd, List.rdropWhile_concat_neg]
      decide
    rw [trimEnd_append_blank, hend, contains_statusChars hd.major_digit hd.minor_digit]
    · simp [hb]
    · intro c hc
      simp only [List.mem_cons, List.mem_append, List.not_mem_nil, or_false] at hc
      rcases hc with rfl | hc | rfl
      · decide
      · exact hb c hc
      · decide
  · -- the trimming stops within the reason
    have hblack : ∃ c ∈ lossy hd.reason ++ ['\r'], isWhitespace c = false := by
      rw [Blank, Classical.not_forall] at hb
      obtain ⟨c, hc⟩ := hb
      obtain ⟨hmem, hw⟩ := Classical.not_imp.mp hc
      exact ⟨c, List.mem_append_left _ hmem, Bool.eq_false_iff.mpr hw⟩
    have hcut : statusChars hd.major hd.minor ++ ' ' :: (lossy hd.reason ++ ['\r']) =
        ((statusChars hd.major hd.minor).take 8 ++ switching) ++ (lossy hd.reason ++ ['\r']) := by
      rfl
    rw [hcut, trimEnd_append hblack]
    simp only [contains_append _ _ _ (show switching ≠ [] by decide), hb, not_false_eq_true]

/-! ## The upgrade -/

section Upgrade

variable {hd : ResponseHead} {s : ByteStream} {q : Bytes} (host b64 : Bytes)

/-- The upgrade reads the head, and decides by its status line. -/
theorem connectAndUpgrade_eq (hw : s.writeFails = false) (hs : Chunked s)
    (hq : s.incoming.flatten = hd.bytes ++ q) :
    ∃ extra s', Chunked s' ∧ q = extra ++ s'.incoming.flatten ∧
      (¬Blank hd.reason → connectAndUpgrade s host b64 = .ok { stream := s', rx := extra }) ∧
      (Blank hd.reason → ∃ e, connectAndUpgrade s host b64 = .error e) := by
  have hwrite : s.writeAll (upgradeRequest host b64) =
      .ok { s with written := s.written ++ upgradeRequest host b64 } := by
    rw [ByteStream.writeAll, hw]
    rfl
  have h4 : 4 ≤ hd.bytes.length := headBytes_length ..
  have hstart : ([] : Bytes).length < hd.bytes.length := by
    rw [List.length_nil]
    omega
  obtain ⟨extra, s', hread, hs', hrest⟩ := readHead_ahead
    { s with written := s.written ++ upgradeRequest host b64 } hs hq.symm hstart
  refine ⟨extra, s', hs', hrest, fun hb => ?_, fun hb => ?_⟩
  · simp only [connectAndUpgrade, hwrite, hread, switching_iff.mpr hb, if_true, List.drop_left]
  · have hno : ¬contains (statusLine (hd.bytes ++ extra)) switching = true := by
      rw [switching_iff]
      exact not_not_intro hb
    simp only [connectAndUpgrade, hwrite, hread, if_neg hno]
    exact ⟨_, rfl⟩

theorem connectAndUpgrade_ahead (hw : s.writeFails = false) (hs : Chunked s)
    (hq : s.incoming.flatten = hd.bytes ++ q) (hb : ¬Blank hd.reason) :
    ∃ c, connectAndUpgrade s host b64 = .ok c ∧ ConnAhead c q := by
  obtain ⟨extra, s', hs', hrest, hok, -⟩ := connectAndUpgrade_eq host b64 hw hs hq
  exact ⟨{ stream := s', rx := extra }, hok hb, s'.incoming.flatten,
    delivers_incoming (by decide) hs', hrest⟩

theorem connectAndUpgrade_blank (hw : s.writeFails = false) (hs : Chunked s)
    (hq : s.incoming.flatten = hd.bytes ++ q) (hb : Blank hd.reason) :
    ∃ e, connectAndUpgrade s host b64 = .error e := by
  obtain ⟨-, -, -, -, -, herr⟩ := connectAndUpgrade_eq host b64 hw hs hq
  exact herr hb

end Upgrade

/-! ## The whole stream -/

/-- A server's side of the connection. `records` is how it cuts the
plaintext, which is the early payload, if there is one, and then HTTP/2
frames of which the first is SETTINGS. -/
structure ServerStream where
  head : ResponseHead
  firstTyp : UInt8
  firstPayload : Bytes
  first_lt : firstPayload.length < 2 ^ 16
  early : Option Bytes
  early_lt : ∀ body, early = some body → body.length < 2 ^ 32
  settings : WireFrame
  settings_typ : settings.typ = H2.ftSettings
  frames : List WireFrame
  records : List Bytes
  records_le : ∀ pt ∈ records, pt.length ≤ maxPlaintext
  records_eq : records.flatten =
    earlyBytes early ++ (settings :: frames).flatMap WireFrame.bytes

/-- The TCP bytes, the records sealed under `key` with nonces from zero. -/
def ServerStream.bytes (C : Crypto) (key : Key) (sv : ServerStream) : Bytes :=
  sv.head.bytes ++ (controlFrame sv.firstTyp sv.firstPayload ++ sealedFrom C key 0 sv.records)

/-- What a client session gets to see. -/
structure Transcript where
  first : UInt8 × Bytes
  early : Option Bytes
  frames : List H2.Frame
  deriving DecidableEq

/-- What the server meant to be seen. -/
def ServerStream.transcript (sv : ServerStream) : Transcript where
  first := (sv.firstTyp, sv.firstPayload)
  early := sv.early
  frames := (sv.settings :: sv.frames).map WireFrame.received

/-- The client's reads in their order: the upgrade, the handshake frame, the
early payload and `n` HTTP/2 frames. The transport keys are those the
handshake ends with. -/
def readSession (C : Crypto) (s : ByteStream) (host b64 : Bytes) (send recv : Key) (n : Nat) :
    Except String (Transcript × H2) :=
  match connectAndUpgrade s host b64 with
  | .error e => .error e
  | .ok conn =>
      match conn.readFrame with
      | .error e => .error e
      | .ok (first, conn) =>
          match (H2.new conn (Transport.new send recv) host).consumeEarlyPayload C with
          | .error e => .error e
          | .ok (early, h) =>
              match h.readFrames C n with
              | .error e => .error e
              | .ok (frames, h) => .ok ({ first, early, frames }, h)

theorem early_then_frames {C : Crypto} {h : H2} {sv : ServerStream}
    (hq : PlainAhead C h sv.records.flatten) :
    ∃ h', h.consumeEarlyPayload C = .ok (sv.early, h') ∧
      PlainAhead C h' ((sv.settings :: sv.frames).flatMap WireFrame.bytes) := by
  rw [sv.records_eq] at hq
  cases hearly : sv.early with
  | none =>
      rw [hearly, earlyBytes, List.nil_append, List.flatMap_cons] at hq
      rw [List.flatMap_cons]
      exact consumeEarlyPayload_none sv.settings_typ hq
  | some body =>
      rw [hearly] at hq
      exact consumeEarlyPayload_some (sv.early_lt body hearly) hq

/-- Everything after the head is read back, wherever the upgrade succeeds. -/
theorem readSession_ahead {C : Crypto} (hC : C.Lawful) {s : ByteStream} {host b64 : Bytes}
    {send recv : Key} {sv : ServerStream} {conn : Conn}
    (hup : connectAndUpgrade s host b64 = .ok conn)
    (hq : ConnAhead conn
      (controlFrame sv.firstTyp sv.firstPayload ++ sealedFrom C recv 0 sv.records)) :
    ∃ h, readSession C s host b64 send recv (sv.frames.length + 1) = .ok (sv.transcript, h) ∧
      h.rx = [] := by
  obtain ⟨conn1, hfirst, hq1⟩ := readFrame_ahead hq sv.first_lt
  have hrecords : (H2.source C).Delivers (conn1, Transport.new send recv) sv.records.flatten :=
    delivers_records hC sv.records_le hq1
  have hplain : PlainAhead C (H2.new conn1 (Transport.new send recv) host) sv.records.flatten :=
    ⟨sv.records.flatten, hrecords, rfl⟩
  obtain ⟨h1, hearly, hq2⟩ := early_then_frames hplain
  rw [← List.append_nil (List.flatMap _ _)] at hq2
  obtain ⟨h2, hframes, hq3⟩ := readFrames_ahead hq2
  refine ⟨h2, ?_, hq3.buffer_nil⟩
  rw [List.length_cons] at hframes
  simp only [readSession, hup, hfirst, hearly, hframes]
  rfl

/-! ## Sending -/

/-- Records opened one after the other, as their receiver does. -/
def openAll (C : Crypto) : Transport → List Bytes → Except String Bytes
  | _, [] => .ok []
  | t, ct :: cts =>
      match t.openRecord C ct with
      | (.error e, _) => .error e
      | (.ok pt, t) =>
          match openAll C t cts with
          | .error e => .error e
          | .ok pts => .ok (pt ++ pts)

/-- What `send` did: it wrote the records of these ciphertexts, whose lengths
fit their length fields and which the matching receiver opens to the data;
record `i` is sealed under nonce number `i` from the counter on, no two of
these are equal before the counter wraps, and the counter is left behind the
last one. -/
structure Sent (C : Crypto) (h h' : H2) (data : Bytes) (cts : List Bytes) : Prop where
  written : h'.conn.stream.written =
    h.conn.stream.written ++ cts.flatMap (controlFrame msgRecord)
  length_lt : ∀ ct ∈ cts, ct.length < 2 ^ 16
  opened : ∀ peer : Transport, peer.recv = h.tr.send → peer.rxNonce = h.tr.txNonce →
    openAll C peer cts = .ok data
  nonces : ∀ i (hi : i < cts.length), ∃ pt, cts[i] =
    C.chachaSeal h.tr.send (beNonce (h.tr.txNonce + UInt64.ofNat i)) pt []
  fresh : ∀ i j, i < j → j < 2 ^ 64 →
    beNonce (h.tr.txNonce + UInt64.ofNat i) ≠ beNonce (h.tr.txNonce + UInt64.ofNat j)
  next : h'.tr = { h.tr with txNonce := h.tr.txNonce + UInt64.ofNat cts.length }

theorem beNonce_fresh (n : UInt64) (i j : Nat) (hij : i < j) (hj : j < 2 ^ 64) :
    beNonce (n + UInt64.ofNat i) ≠ beNonce (n + UInt64.ofNat j) := by
  intro h
  have hbytes : be64 (n + UInt64.ofNat i) = be64 (n + UInt64.ofNat j) :=
    List.append_cancel_left (congrArg Subtype.val h)
  have hsum := congrArg UInt64.toNat (be64_inj hbytes)
  rw [UInt64.toNat_add, UInt64.toNat_add, UInt64.toNat_ofNat', UInt64.toNat_ofNat'] at hsum
  omega

theorem counter_succ (n : UInt64) (i : Nat) :
    n + 1 + UInt64.ofNat i = n + UInt64.ofNat (i + 1) := by
  rw [UInt64.ofNat_add, UInt64.add_assoc, UInt64.add_comm 1]
  rfl

/-- The session after one record has been sealed and written. -/
def afterRecord (C : Crypto) (h : H2) (pt : Bytes) : H2 :=
  { h with
    conn.stream.written := h.conn.stream.written ++ (h.tr.sealRecord C pt).1
    tr := (h.tr.sealRecord C pt).2 }

theorem send_cons {C : Crypto} {h : H2} {data : Bytes} (hne : data ≠ [])
    (hw : h.conn.stream.writeFails = false) :
    h.send C data = (afterRecord C h (data.take 2048)).send C (data.drop 2048) := by
  have hwrite : h.conn.writeAll (h.tr.sealRecord C (data.take 2048)).1 =
      .ok (afterRecord C h (data.take 2048)).conn := by
    have hnot : ¬h.conn.stream.writeFails = true := by
      rw [hw]
      exact Bool.false_ne_true
    rw [Conn.writeAll, ByteStream.writeAll, if_neg hnot]
    rfl
  rw [H2.send, if_neg hne]
  simp only [hwrite]
  rfl

theorem sent_nil {C : Crypto} (h : H2) : Sent C h h [] [] where
  written := (List.append_nil _).symm
  length_lt ct hct := absurd hct List.not_mem_nil
  opened peer _ _ := rfl
  nonces i hi := absurd hi (Nat.not_lt_zero i)
  fresh := beNonce_fresh h.tr.txNonce
  next := by simp

/-- One more record in front. -/
theorem sent_cons {C : Crypto} (hC : C.Lawful) {h h' : H2} {pt data : Bytes} {cts : List Bytes}
    (hpt : pt.length ≤ 2048) (hrest : Sent C (afterRecord C h pt) h' data cts) :
    Sent C h h' (pt ++ data) (C.chachaSeal h.tr.send (beNonce h.tr.txNonce) pt [] :: cts) where
  written := by
    rw [hrest.written, List.flatMap_cons, ← List.append_assoc]
    rfl
  length_lt ct hct := by
    rcases List.mem_cons.mp hct with rfl | hmem
    · rw [hC.length_seal]
      omega
    · exact hrest.length_lt ct hmem
  opened peer hkey hnonce := by
    have hopen := openRecord_seal hC peer pt
    have hmore := hrest.opened { peer with rxNonce := peer.rxNonce + 1 } hkey
      (by rw [hnonce]; rfl)
    rw [hkey, hnonce] at hopen hmore
    simp only [openAll, hopen, hmore]
  nonces i hi := by
    cases i with
    | zero =>
        refine ⟨pt, ?_⟩
        rw [List.getElem_cons_zero]
        simp
    | succ i =>
        obtain ⟨pt', heq⟩ := hrest.nonces i (Nat.lt_of_succ_lt_succ hi)
        refine ⟨pt', ?_⟩
        rw [List.getElem_cons_succ, heq, ← counter_succ]
        rfl
  fresh := beNonce_fresh h.tr.txNonce
  next := by
    rw [hrest.next, List.length_cons, ← counter_succ]
    rfl

theorem send_sent {C : Crypto} (hC : C.Lawful) (h : H2) (data : Bytes)
    (hw : h.conn.stream.writeFails = false) :
    ∃ h' cts, h.send C data = .ok h' ∧ Sent C h h' data cts := by
  induction hk : data.length using Nat.strongRecOn generalizing h data with
  | ind k ih =>
    by_cases hnil : data = []
    · rw [hnil, H2.send, if_pos rfl]
      exact ⟨h, [], rfl, sent_nil h⟩
    · have hpos : 0 < data.length := List.length_pos_iff.mpr hnil
      have hlen : (data.drop 2048).length < k := by
        rw [List.length_drop]
        omega
      obtain ⟨h', cts, hsend, hsent⟩ :=
        ih _ hlen (afterRecord C h (data.take 2048)) (data.drop 2048) hw rfl
      have hcons := sent_cons hC (List.length_take_le 2048 data) hsent
      rw [List.take_append_drop] at hcons
      exact ⟨h', _, (send_cons hnil hw).trans hsend, hcons⟩

/-! ## Integrity -/

/-- Whatever the server sends and however TCP and the record layer cut it,
the client reads exactly that, if and only if the 101 line has a reason that
is not blank. What the client sends is read back by the matching receiver. -/
theorem controlStream_intact_iff (C : Crypto) (hC : C.Lawful) (sv : ServerStream)
    (s : ByteStream) (host b64 : Bytes) (send recv : Key) (hs : Chunked s)
    (hw : s.writeFails = false) (hbytes : s.incoming.flatten = sv.bytes C recv) :
    ((∃ h, readSession C s host b64 send recv (sv.frames.length + 1) = .ok (sv.transcript, h) ∧
        h.rx = []) ↔ ¬Blank sv.head.reason) ∧
    ∀ (h : H2) (data : Bytes), h.conn.stream.writeFails = false →
      ∃ h' cts, h.send C data = .ok h' ∧ Sent C h h' data cts := by
  refine ⟨⟨?_, ?_⟩, fun h data => send_sent hC h data⟩
  · rintro ⟨h, hread, -⟩ hblank
    obtain ⟨e, herr⟩ := connectAndUpgrade_blank host b64 hw hs hbytes hblank
    simp only [readSession, herr] at hread
    cases hread
  · intro hb
    obtain ⟨conn, hup, hq⟩ := connectAndUpgrade_ahead host b64 hw hs hbytes hb
    exact readSession_ahead hC hup hq

/-! The shortest session: an empty SETTINGS frame in one record. -/

def emptySettings : WireFrame where
  typ := H2.ftSettings
  flags := 0
  streamWord := 0
  payload := []
  payload_lt := by decide

def upgradeFields : Bytes := ascii "Connection: upgrade\r\n"

def headWith (reason : Bytes) (hline : 10 ∉ reason)
    (hend : position headEnd (headBytes 49 49 reason upgradeFields) =
      some ((headBytes 49 49 reason upgradeFields).length - 4))
    (hlen : (headBytes 49 49 reason upgradeFields).length ≤ 8192) : ResponseHead where
  major := 49
  minor := 49
  reason := reason
  fields := upgradeFields
  major_digit := ⟨by decide, by decide⟩
  minor_digit := ⟨by decide, by decide⟩
  reason_line := fun b hb heq => hline (heq ▸ hb)
  first_end := hend
  length_le := hlen

def serverWith (head : ResponseHead) : ServerStream where
  head := head
  firstTyp := 2
  firstPayload := []
  first_lt := by decide
  early := none
  early_lt := fun _ h => nomatch h
  settings := emptySettings
  settings_typ := rfl
  frames := []
  records := [emptySettings.bytes]
  records_le := by decide
  records_eq := by decide

/-- `HTTP/1.1 101 ` with nothing after the space. -/
def bareServer : ServerStream :=
  serverWith (headWith [] (by decide) (by decide +kernel) (by decide +kernel))

def politeServer : ServerStream :=
  serverWith (headWith (ascii "Switching Protocols") (by decide) (by decide +kernel)
    (by decide +kernel))

/-- The server's bytes arrive in two reads. -/
def arriving (sv : ServerStream) : ByteStream where
  incoming := [(sv.bytes transparent (Arr.zero 32)).take 7,
    (sv.bytes transparent (Arr.zero 32)).drop 7]
  readFails := false
  written := []
  writeFails := false

theorem blankReason_rejected :
    Chunked (arriving bareServer) ∧
    (arriving bareServer).incoming.flatten = bareServer.bytes transparent (Arr.zero 32) ∧
    ¬∃ h, readSession transparent (arriving bareServer) [] [] (Arr.zero 32) (Arr.zero 32) 1 =
      .ok (bareServer.transcript, h) := by
  have hs : Chunked (arriving bareServer) := by
    unfold Chunked
    decide +kernel
  have hbytes : (arriving bareServer).incoming.flatten =
      bareServer.bytes transparent (Arr.zero 32) := by
    decide +kernel
  refine ⟨hs, hbytes, ?_⟩
  intro hok
  obtain ⟨h, hread⟩ := hok
  obtain ⟨e, herr⟩ := connectAndUpgrade_blank [] [] rfl hs hbytes (by decide +kernel)
  simp only [readSession, herr] at hread
  cases hread

/-- It sends an early payload, and a frame of credit after its settings, in
records that end within one and within the other. -/
private def earlyServer : ServerStream :=
  let credit : WireFrame := ⟨8, 0, 0x80000001, be32 4096, by decide⟩
  let plaintext := earlyBytes (some (ascii "\x7b\x7d")) ++ emptySettings.bytes ++ credit.bytes
  { politeServer with
    early := some (ascii "\x7b\x7d")
    early_lt := fun body h => Option.some.inj h ▸ by decide
    frames := [credit]
    records := [plaintext.take 6, (plaintext.drop 6).take 20, plaintext.drop 26]
    records_le := by decide
    records_eq := by decide }

theorem controlStream_intact_iff_polite :
    ∃ h, readSession transparent (arriving earlyServer) (ascii "control") [] (Arr.zero 32)
        (Arr.zero 32) 2 =
      .ok (⟨(2, []), some (ascii "\x7b\x7d"), [⟨4, 0, 0, []⟩, ⟨8, 0, 1, [0, 0, 16, 0]⟩]⟩, h) ∧
      h.rx = [] :=
  (controlStream_intact_iff transparent transparent_lawful earlyServer (arriving earlyServer)
    (ascii "control") [] (Arr.zero 32) (Arr.zero 32) (by unfold Chunked; decide +kernel) rfl
    (by decide +kernel)).1.mpr (by decide +kernel)

end TailscaleRust.Proofs
