import TailscaleRust.Firmware.DerpConn

/-!
# Frames of the relay under any schedule

However the TLS layer cuts the bytes into calls, and however often it asks to
be tried again in between, a loop of calls moves exactly the bytes it was
asked to move: the part already done and the part still to do always make up
the whole. That is proved once for each loop (`readSome`, `readExact`,
`writeAll` and the loop over the response head), and from there on the
schedule is out of the picture. A frame is then two such reads, or two such
writes, and a sequence of frames follows by induction.
-/

namespace TailscaleRust.Proofs.DerpFraming

open TailscaleRust.Lib TailscaleRust.Firmware.DerpConn

/-! ## Reading -/

section ReadSome

variable {d d' : Derp} {cap : Nat}

theorem readSome_of_moved {b : Bytes} (h : d.read cap = (.moved b, d')) :
    readSome d cap = .ok (b, d') := by
  rw [readSome]
  split <;> next h' =>
    rw [h] at h'
    cases h' <;> rfl

theorem readSome_of_zero (h : d.read cap = (.zero, d')) : readSome d cap = .ok ([], d') := by
  rw [readSome]
  split <;> next h' =>
    rw [h] at h'
    cases h' <;> rfl

theorem readSome_of_want {x : Want} (h : d.read cap = (.want x, d')) :
    readSome d cap = readSome d' cap := by
  rw [readSome]
  split <;> next h' =>
    rw [h] at h'
    cases h' <;> rfl

/-- A read returns some of what comes next, and nothing only at the end. -/
theorem readSome_live (hd : d.Live) (hcap : 0 < cap) :
    (d.rx = [] ∧ ∃ d', readSome d cap = .ok ([], d')) ∨
    ∃ b d', readSome d cap = .ok (b, d') ∧ b ≠ [] ∧ b.length ≤ cap ∧ d.Took b d' := by
  -- on the number of times it is still told to try again
  induction hk : d.wants.length using Nat.strongRecOn generalizing d with
  | ind k ih =>
    rcases Wire.read_live hd hcap with ⟨x, d₁, hread, hsame⟩ | ⟨d₁, hread, hend⟩ |
      ⟨b, d₁, hread, hle, htook⟩
    · have hlt : d₁.wants.length < k := hk ▸ Wire.read_want_lt hread
      have hrx : d.rx = d₁.rx := hsame.rx
      rw [readSome_of_want hread, hrx]
      rcases ih d₁.wants.length hlt hsame.live rfl with hend | ⟨b, d', hok, hne, hle, htook⟩
      · exact .inl hend
      · exact .inr ⟨b, d', hok, hne, hle, hsame.trans htook⟩
    · exact .inl ⟨hend, d₁, readSome_of_zero hread⟩
    · exact .inr ⟨b, d₁, readSome_of_moved hread, Wire.read_moved_pos hread, hle, htook⟩

end ReadSome

section ReadExact

variable {d : Derp} {len : Nat}

/-- The buffer is filled with what comes next. -/
theorem readExact_append (buf : Bytes) (hd : d.Live) {a rest : Bytes} (hrx : d.rx = a ++ rest)
    (hlen : len = buf.length + a.length) :
    ∃ d', readExact d len buf = .ok (buf ++ a, d') ∧ d.Took a d' := by
  induction hk : a.length using Nat.strongRecOn generalizing d buf a with
  | ind k ih =>
    cases a with
    | nil =>
        refine ⟨d, ?_, rfl, rfl, hd⟩
        rw [readExact, if_neg (by rw [List.length_nil] at hlen; omega), List.append_nil]
    | cons y a =>
        have hpos : 0 < (y :: a).length := Nat.succ_pos a.length
        have hcap : 0 < len - buf.length := by omega
        rcases readSome_live hd hcap with ⟨hend, -⟩ | ⟨b, d₁, hok, hne, hle, htook⟩
        · rw [hend] at hrx
          cases hrx
        · obtain ⟨x, b, rfl⟩ := List.exists_cons_of_ne_nil hne
          obtain ⟨a', ha, hrx₁⟩ := htook.front hrx (by omega)
          have hsplit := congrArg List.length ha
          have hlonger : (buf ++ x :: b).length = buf.length + (x :: b).length := List.length_append
          rw [List.length_append] at hsplit
          have hb : 0 < (x :: b).length := Nat.succ_pos b.length
          obtain ⟨d', hrest, htook'⟩ :=
            ih a'.length (by omega) (buf ++ x :: b) htook.live hrx₁ (by omega) rfl
          refine ⟨d', ?_, ?_⟩
          · rw [readExact, if_pos (by omega), hok]
            simp only []
            rw [hrest, ha, List.append_assoc]
          · rw [ha]
            exact htook.trans htook'

/-- A connection that closes too early is reported. -/
theorem readExact_closed (buf : Bytes) (hd : d.Live) (hlen : buf.length + d.rx.length < len) :
    readExact d len buf = .error "DERP connection closed" := by
  induction hk : d.rx.length using Nat.strongRecOn generalizing d buf with
  | ind k ih =>
    have hcap : 0 < len - buf.length := by omega
    rw [readExact, if_pos (by omega)]
    rcases readSome_live hd hcap with ⟨-, d₁, hok⟩ | ⟨b, d₁, hok, hne, hle, htook⟩
    · rw [hok]
    · obtain ⟨x, b, rfl⟩ := List.exists_cons_of_ne_nil hne
      have hsplit := congrArg List.length htook.rx
      rw [List.length_append, List.length_cons] at hsplit
      rw [hok]
      exact ih d₁.rx.length (by omega) (buf ++ x :: b) htook.live
        (by rw [List.length_append, List.length_cons]; omega) rfl

end ReadExact

/-! ## Writing -/

section WriteAll

variable {d d' : Derp} {buf : Bytes} {off : Nat}

theorem writeAll_of_moved {n : Nat} (hoff : off < buf.length)
    (h : d.write (buf.drop off) = (.moved n, d')) :
    writeAll d buf off = writeAll d' buf (off + n) := by
  rw [writeAll, if_pos hoff]
  split <;> next h' =>
    rw [h] at h'
    cases h' <;> rfl

theorem writeAll_of_want {x : Want} (hoff : off < buf.length)
    (h : d.write (buf.drop off) = (.want x, d')) :
    writeAll d buf off = writeAll d' buf off := by
  rw [writeAll, if_pos hoff]
  split <;> next h' =>
    rw [h] at h'
    cases h' <;> rfl

theorem writeAll_live (buf : Bytes) (hd : d.Live) (hoff : off ≤ buf.length) :
    ∃ d', writeAll d buf off = .ok d' ∧ d.Sent (buf.drop off) d' := by
  -- on the bytes left, and for the same bytes on the requests to try again
  induction hn : buf.length - off using Nat.strongRecOn generalizing d off with
  | ind n ihn =>
    induction hk : d.wants.length using Nat.strongRecOn generalizing d with
    | ind k ihk =>
      rcases Nat.lt_or_ge off buf.length with hlt | hge
      · have hne : buf.drop off ≠ [] := by
          rw [ne_eq, List.drop_eq_nil_iff]
          omega
        rcases Wire.write_live hd hne with ⟨x, d₁, hwrite, hsame⟩ | ⟨m, d₁, hwrite, hle, hsent⟩
        · have hwants : d₁.wants.length < k := hk ▸ Wire.write_want_lt hwrite
          obtain ⟨d', hok, hsent⟩ := ihk d₁.wants.length hwants hsame.live rfl
          exact ⟨d', (writeAll_of_want hlt hwrite).trans hok, hsame.trans hsent⟩
        · have hpos := Wire.write_moved_pos hwrite
          rw [List.length_drop] at hle
          obtain ⟨d', hok, hsent'⟩ :=
            ihn (buf.length - (off + m)) (by omega) hsent.live (by omega) rfl
          have hsplit : buf.drop off = (buf.drop off).take m ++ buf.drop (off + m) := by
            rw [← List.drop_drop, List.take_append_drop]
          refine ⟨d', (writeAll_of_moved hlt hwrite).trans hok, ?_⟩
          rw [hsplit]
          exact hsent.trans hsent'
      · refine ⟨d, ?_, rfl, ?_, hd⟩
        · rw [writeAll, if_neg (by omega)]
        · rw [List.drop_eq_nil_of_le hge, List.append_nil]

end WriteAll

/-! ## Frames -/

def frameBytes (f : Frame) : Bytes := f.1 :: be32 (UInt32.ofNat f.2.length) ++ f.2

section Frames

variable {d : Derp} {f : Frame}

theorem length_header (f : Frame) : (f.1 :: be32 (UInt32.ofNat f.2.length)).length = 5 := by
  rw [List.length_cons, length_be32]

theorem writeFrame_live (hd : d.Live) (typ : UInt8) (payload : Bytes) :
    ∃ d', writeFrame d typ payload = .ok d' ∧ d.Sent (frameBytes (typ, payload)) d' := by
  obtain ⟨d₁, hhdr, hsent⟩ :=
    writeAll_live (typ :: be32 (UInt32.ofNat payload.length)) hd (Nat.zero_le _)
  rw [List.drop_zero] at hsent
  simp only [writeFrame, hhdr]
  by_cases hp : payload = []
  · rw [if_neg (not_not_intro hp)]
    refine ⟨d₁, rfl, ?_⟩
    rw [frameBytes, hp, List.append_nil, ← hp]
    exact hsent
  · obtain ⟨d', hok, hsent'⟩ := writeAll_live payload hsent.live (Nat.zero_le _)
    rw [List.drop_zero] at hsent'
    rw [if_pos hp]
    exact ⟨d', hok, hsent.trans hsent'⟩

theorem declared_length (hmax : f.2.length ≤ maxFrame) :
    (u32be (f.1 :: be32 (UInt32.ofNat f.2.length)) 1).toNat = f.2.length := by
  have hfield : u32be (f.1 :: be32 (UInt32.ofNat f.2.length)) 1 = UInt32.ofNat f.2.length :=
    u32be_of_slice rfl
  have hbound : maxFrame < 2 ^ 32 := by decide
  rw [hfield, UInt32.toNat_ofNat', Nat.mod_eq_of_lt (by omega)]

/-- The next frame is read, and nothing of what comes after it. -/
theorem readFrame_live (hd : d.Live) (hmax : f.2.length ≤ maxFrame) {rest : Bytes}
    (hrx : d.rx = frameBytes f ++ rest) :
    ∃ d', readFrame d = .ok (f, d') ∧ d.Took (frameBytes f) d' := by
  rw [frameBytes, List.append_assoc] at hrx
  obtain ⟨d₁, hhdr, htook⟩ := readExact_append [] hd hrx (length_header f).symm
  have hrx₁ : d₁.rx = f.2 ++ rest := List.append_cancel_left (htook.rx.symm.trans hrx)
  rw [readFrame, hhdr]
  simp only [List.nil_append, declared_length hmax]
  rw [if_neg (by omega)]
  by_cases hpos : f.2.length > 0
  · obtain ⟨d', hok, htook'⟩ := readExact_append [] htook.live hrx₁ (Nat.zero_add _).symm
    rw [if_pos hpos, List.nil_append] at *
    rw [hok]
    exact ⟨d', rfl, htook.trans htook'⟩
  · have hempty : f.2 = [] := List.length_eq_zero_iff.mp (by omega)
    rw [if_neg hpos]
    refine ⟨d₁, ?_, ?_⟩
    · rw [← hempty]
      rfl
    · rw [frameBytes, hempty, List.append_nil, ← hempty]
      exact htook

/-- A declared length past the bound is refused before any of the payload is
read. -/
theorem readFrame_too_large (hd : d.Live) {hdr rest : Bytes} (hrx : d.rx = hdr ++ rest)
    (hlen : hdr.length = 5) (hmax : maxFrame < (u32be hdr 1).toNat) :
    readFrame d = .error s!"DERP frame too large: {(u32be hdr 1).toNat}" := by
  have hwhole : 5 = ([] : Bytes).length + hdr.length := by rw [hlen, List.length_nil]
  obtain ⟨d₁, hhdr, -⟩ := readExact_append [] hd hrx hwhole
  rw [readFrame, hhdr]
  simp only [List.nil_append]
  rw [if_pos hmax]

/-- A connection that closes before the end of a frame. -/
theorem readFrame_closed (hd : d.Live) (hmax : f.2.length ≤ maxFrame)
    (hrx : d.rx <+: frameBytes f) (hne : d.rx ≠ frameBytes f) :
    readFrame d = .error "DERP connection closed" := by
  have hlt : d.rx.length < (frameBytes f).length := by
    rcases Nat.lt_or_ge d.rx.length (frameBytes f).length with h | h
    · exact h
    · exact absurd (hrx.eq_of_length_le h) hne
  have hhdrLen := length_header f
  rw [frameBytes, List.length_append, hhdrLen] at hlt
  rcases Nat.lt_or_ge d.rx.length 5 with hshort | hlong
  · rw [readFrame, readExact_closed [] hd (by rw [List.length_nil]; omega)]
  · -- the header is there
    have hfront : f.1 :: be32 (UInt32.ofNat f.2.length) <+: d.rx :=
      List.prefix_of_prefix_length_le (List.prefix_append _ f.2) hrx (by omega)
    obtain ⟨part, hpart⟩ := hfront
    have hsplit := congrArg List.length hpart
    rw [List.length_append, hhdrLen] at hsplit
    obtain ⟨d₁, hhdr, htook⟩ := readExact_append [] hd hpart.symm hhdrLen.symm
    have hrx₁ : d₁.rx = part := List.append_cancel_left (htook.rx.symm.trans hpart.symm)
    rw [readFrame, hhdr]
    simp only [List.nil_append, declared_length hmax]
    rw [if_neg (by omega), if_pos (by omega), readExact_closed [] htook.live
      (by rw [hrx₁, List.length_nil]; omega)]

end Frames

/-! ## The upgrade -/

/-- A response head that the upgrade accepts: it ends with its first blank
line, is not too long, and its first line has the code for switching. It may
end at the byte that passes the bound of the source. -/
structure UpgradeHead (head : Bytes) : Prop where
  length : head.length ≤ 4097
  ends : headEnd <:+ head
  first : ∀ n < head.length, ¬headEnd <:+ head.take n
  switches : contains (firstLine (lossy head)) switching = true

/-- The loop reads up to the end of the head and no further. -/
theorem readHead_live {head : Bytes} (h : UpgradeHead head) {d : Derp} (hd : d.Live)
    (got : Bytes) {todo rest : Bytes} (hhead : head = got ++ todo) (htodo : todo ≠ [])
    (hrx : d.rx = todo ++ rest) :
    ∃ d', readHead d got = .ok (head, d') ∧ d.Took todo d' := by
  induction todo generalizing d got with
  | nil => exact absurd rfl htodo
  | cons x todo ih =>
      rcases readSome_live hd Nat.one_pos with ⟨hend, -⟩ | ⟨b, d₁, hok, hne, hle, htook⟩
      · rw [hend] at hrx
        cases hrx
      · -- one byte at a time
        obtain ⟨y, rfl⟩ : ∃ y, b = [y] :=
          List.length_eq_one_iff.mp (Nat.le_antisymm hle (List.length_pos_iff.mpr hne))
        obtain ⟨todo', hsplit, hrx₁⟩ := htook.front hrx (Nat.succ_le_succ (Nat.zero_le _))
        obtain ⟨hy, htail⟩ := List.cons.inj hsplit
        subst hy
        subst htail
        have hgot : head = (got ++ [x]) ++ todo := by
          rw [hhead, List.append_assoc]
          rfl
        rw [readHead, hok]
        simp only []
        cases todo with
        | nil =>
            rw [List.append_nil] at hgot
            rw [if_pos (hgot ▸ h.ends), ← hgot]
            exact ⟨d₁, rfl, htook⟩
        | cons z todo =>
            have hlen := congrArg List.length hgot
            rw [List.length_append, List.length_cons] at hlen
            have hnot : ¬headEnd <:+ got ++ [x] := by
              have htake : head.take (got ++ [x]).length = got ++ [x] := by
                rw [hgot, List.take_left]
              rw [← htake]
              exact h.first _ (by omega)
            have hbound := h.length
            rw [if_neg hnot, if_neg (by omega)]
            obtain ⟨d', hread, htook'⟩ :=
              ih htook.live (got ++ [x]) hgot (List.cons_ne_nil z todo) hrx₁
            exact ⟨d', hread, htook.trans htook'⟩

theorem httpUpgrade_live {head : Bytes} (h : UpgradeHead head) {d : Derp} (hd : d.Live)
    (host : Bytes) {rest : Bytes} (hrx : d.rx = head ++ rest) :
    ∃ d', httpUpgrade d host = .ok d' ∧ d'.rx = rest ∧ d'.tx = d.tx ++ upgradeRequest host ∧
      d'.Live := by
  have hne : head ≠ [] := by
    rintro rfl
    exact absurd h.ends (by decide)
  obtain ⟨d₁, hwrite, hsent⟩ := writeAll_live (upgradeRequest host) hd (Nat.zero_le _)
  rw [List.drop_zero] at hsent
  have hrx₁ : d₁.rx = head ++ rest := hsent.rx.trans hrx
  obtain ⟨d₂, hread, htook⟩ := readHead_live h hsent.live [] rfl hne hrx₁
  refine ⟨d₂, ?_, List.append_cancel_left (htook.rx.symm.trans hrx₁), ?_, htook.live⟩
  · rw [httpUpgrade, hwrite]
    simp only [hread, h.switches, if_true]
  · rw [htook.tx, hsent.tx]

/-! ## Sequences of frames -/

/-- A call of `write_frame` or of `send_packet`. -/
inductive Sending where
  | frame (typ : UInt8) (payload : Bytes)
  | packet (dstNodePub : Arr 32) (pkt : Bytes)

/-- The frame it writes. -/
def Sending.written : Sending → Frame
  | .frame typ payload => (typ, payload)
  | .packet dstNodePub pkt => (frameSendPacket, dstNodePub.1 ++ pkt)

def Sending.send (d : Derp) : Sending → Except String Derp
  | .frame typ payload => writeFrame d typ payload
  | .packet dstNodePub pkt => sendPacket d dstNodePub pkt

def sendAll (d : Derp) : List Sending → Except String Derp
  | [] => .ok d
  | s :: rest =>
      match s.send d with
      | .error e => .error e
      | .ok d => sendAll d rest

/-- So many calls of `read_frame`. -/
def readFrames (d : Derp) : Nat → Except String (List Frame × Derp)
  | 0 => .ok ([], d)
  | n + 1 =>
      match readFrame d with
      | .error e => .error e
      | .ok (f, d) =>
          match readFrames d n with
          | .error e => .error e
          | .ok (fs, d) => .ok (f :: fs, d)

def wireBytes (sends : List Sending) : Bytes := sends.flatMap fun s => frameBytes s.written

theorem sendAll_live {d : Derp} (hd : d.Live) (sends : List Sending) :
    ∃ d', sendAll d sends = .ok d' ∧ d.Sent (wireBytes sends) d' := by
  induction sends generalizing d with
  | nil => exact ⟨d, rfl, rfl, (List.append_nil d.tx).symm, hd⟩
  | cons s sends ih =>
      have hone : ∃ d₁, s.send d = .ok d₁ ∧ d.Sent (frameBytes s.written) d₁ := by
        cases s with
        | frame typ payload => exact writeFrame_live hd typ payload
        | packet dstNodePub pkt => exact writeFrame_live hd frameSendPacket (dstNodePub.1 ++ pkt)
      obtain ⟨d₁, hok, hsent⟩ := hone
      obtain ⟨d', hrest, hsent'⟩ := ih hsent.live
      refine ⟨d', ?_, hsent.trans hsent'⟩
      rw [sendAll, hok]
      exact hrest

theorem readFrames_live {d : Derp} (hd : d.Live) {sends : List Sending}
    (hmax : ∀ s ∈ sends, s.written.2.length ≤ maxFrame) {rest : Bytes}
    (hrx : d.rx = wireBytes sends ++ rest) :
    ∃ d', readFrames d sends.length = .ok (sends.map Sending.written, d') ∧ d'.rx = rest ∧
      d'.Live := by
  induction sends generalizing d with
  | nil => exact ⟨d, rfl, hrx, hd⟩
  | cons s sends ih =>
      rw [wireBytes, List.flatMap_cons, List.append_assoc] at hrx
      obtain ⟨d₁, hok, htook⟩ := readFrame_live hd (hmax s List.mem_cons_self) hrx
      have hrx₁ : d₁.rx = wireBytes sends ++ rest :=
        List.append_cancel_left (htook.rx.symm.trans hrx)
      obtain ⟨d', hrest, hdone⟩ :=
        ih htook.live (fun s' hs' => hmax s' (List.mem_cons_of_mem s hs')) hrx₁
      refine ⟨d', ?_, hdone⟩
      rw [List.length_cons, readFrames, hok]
      simp only [hrest, List.map_cons]

/-- Under every schedule of a live connection: what the calls write is the
frames one after the other; a reader that upgrades and then reads as many
frames gets exactly these, with the stream at the next header; and there a
frame that is declared too large, or cut off by a close, is an error. -/
theorem frames_survive_schedule (sends : List Sending)
    (hmax : ∀ s ∈ sends, s.written.2.length ≤ maxFrame) (writer reader : Derp)
    (hw : writer.Live) (hr : reader.Live) (host head rest : Bytes) (hhead : UpgradeHead head)
    (hrx : reader.rx = head ++ (wireBytes sends ++ rest)) :
    (∃ w, sendAll writer sends = .ok w ∧ w.tx = writer.tx ++ wireBytes sends ∧
      w.rx = writer.rx) ∧
    ∃ r₁ r₂, httpUpgrade reader host = .ok r₁ ∧ r₁.tx = reader.tx ++ upgradeRequest host ∧
      readFrames r₁ sends.length = .ok (sends.map Sending.written, r₂) ∧ r₂.rx = rest ∧
      (∀ hdr more, rest = hdr ++ more → hdr.length = 5 → maxFrame < (u32be hdr 1).toNat →
        readFrame r₂ = .error s!"DERP frame too large: {(u32be hdr 1).toNat}") ∧
      ∀ f : Frame, f.2.length ≤ maxFrame → rest <+: frameBytes f → rest ≠ frameBytes f →
        readFrame r₂ = .error "DERP connection closed" := by
  obtain ⟨w, hsend, hsent⟩ := sendAll_live hw sends
  obtain ⟨r₁, hup, hrx₁, htx₁, hlive₁⟩ := httpUpgrade_live hhead hr host hrx
  obtain ⟨r₂, hread, hrx₂, hlive₂⟩ := readFrames_live hlive₁ hmax hrx₁
  refine ⟨⟨w, hsend, hsent.tx, hsent.rx⟩, r₁, r₂, hup, htx₁, hread, hrx₂, ?_, ?_⟩
  · intro hdr more hrest hlen hbig
    exact readFrame_too_large hlive₂ (hrx₂.trans hrest) hlen hbig
  · intro f hf hcut hne
    rw [← hrx₂] at hcut hne
    exact readFrame_closed hlive₂ hf hcut hne

section Example

/-- One byte a call, and before each byte one request to try again. -/
private def slowest (rx : Bytes) : Derp :=
  { rx, tx := [], turns := fun _ => ⟨[.read, .write], .moves 0⟩ }

private def acceptedHead : Bytes := ascii "HTTP/1.1 101 S\r\n\r\n"

private def twoSendings : List Sending := [.frame 6 [], .packet (Arr.zero 32) [1, 2, 3]]

/-- A close after three bytes of the next header. -/
theorem frames_survive_slowest :
    ∃ r₁ r₂, httpUpgrade (slowest (acceptedHead ++ (wireBytes twoSendings ++ [5, 0, 0])))
        (ascii "derp") = .ok r₁ ∧
      readFrames r₁ 2 = .ok ([(6, []), (4, zeros 32 ++ [1, 2, 3])], r₂) ∧
      readFrame r₂ = .error "DERP connection closed" := by
  have hlive : ∀ rx, (slowest rx).Live := fun rx i => ⟨0, rfl⟩
  obtain ⟨-, r₁, r₂, hup, -, hread, -, -, hclosed⟩ := frames_survive_schedule twoSendings
    (by decide) (slowest []) (slowest (acceptedHead ++ (wireBytes twoSendings ++ [5, 0, 0])))
    (hlive _) (hlive _) (ascii "derp") acceptedHead [5, 0, 0]
    ⟨by decide, by decide, by decide, by decide⟩ rfl
  exact ⟨r₁, r₂, hup, hread, hclosed (5, []) (by decide) (by decide) (by decide)⟩

end Example

end TailscaleRust.Proofs.DerpFraming
