import TailscaleRust.Firmware.Control
import TailscaleRust.Lib.Base64

/-!
# The handshake header carries the initiation unchanged

`base64_std` is judged by a decoder written from RFC 4648. A chunk is one
24-bit number; the encoder writes its digits in base 64, and the decoder
reads the number back from them. The two short tails are the same with the
missing bytes zero, which is also what makes the unused bits zero.

The second half follows the encoded text through the upgrade request: a
server that looks for the header field and decodes its value has the framed
initiation in hand.
-/

namespace TailscaleRust.Proofs.HandshakeHeader

open TailscaleRust.Lib TailscaleRust.Core TailscaleRust.Core.Transport TailscaleRust.Firmware

/-! ## One chunk -/

/-- The three bytes of a chunk as one number. -/
def chunkNumber (a b c : UInt8) : Nat := a.toNat * 65536 + b.toNat * 256 + c.toNat

theorem chunkNumber_lt {a b c : UInt8} : chunkNumber a b c < 2 ^ 24 := by
  have ha := a.toNat_lt
  have hb := b.toNat_lt
  have hc := c.toNat_lt
  rw [chunkNumber]
  omega

theorem chunk_toNat {a b c : UInt8} :
    ((a.toUInt32 <<< 16) ||| (b.toUInt32 <<< 8) ||| c.toUInt32).toNat = chunkNumber a b c := by
  have ha := a.toNat_lt
  have hb := b.toNat_lt
  have hc := c.toNat_lt
  have h16 : (a.toUInt32 <<< 16).toNat = a.toNat <<< 16 := by
    rw [UInt32.toNat_shiftLeft, UInt8.toNat_toUInt32]
    refine Nat.mod_eq_of_lt ?_
    rw [Nat.shiftLeft_eq]
    exact Nat.lt_of_lt_of_le (Nat.mul_lt_mul_of_pos_right ha (by decide)) (by decide)
  have h8 : (b.toUInt32 <<< 8).toNat = b.toNat <<< 8 := by
    rw [UInt32.toNat_shiftLeft, UInt8.toNat_toUInt32]
    refine Nat.mod_eq_of_lt ?_
    rw [Nat.shiftLeft_eq]
    exact Nat.lt_of_lt_of_le (Nat.mul_lt_mul_of_pos_right hb (by decide)) (by decide)
  -- the bytes do not overlap, so putting them together is adding them up
  have hlow : b.toNat <<< 8 + c.toNat < 2 ^ 16 := by
    rw [Nat.shiftLeft_eq]
    omega
  rw [UInt32.toNat_or, UInt32.toNat_or, h16, h8, UInt8.toNat_toUInt32, Nat.or_assoc,
    ← Nat.shiftLeft_add_eq_or_of_lt hc, ← Nat.shiftLeft_add_eq_or_of_lt hlow, Nat.shiftLeft_eq,
    Nat.shiftLeft_eq, chunkNumber]
  omega

/-- Every digit of the table has the value of its place. -/
theorem digitValue_table : ∀ i : Fin 64, Base64.digitValue (byteAt base64Table i) = some i.1 := by
  decide +kernel

theorem digitValue_base64Digit {n k : UInt32} (hk : k < 32) :
    Base64.digitValue (base64Digit n k) = some (n.toNat / 2 ^ k.toNat % 64) := by
  have hmod : k.toNat % 32 = k.toNat := Nat.mod_eq_of_lt (UInt32.lt_iff_toNat_lt.mp hk)
  have hplace : ((n >>> k) &&& 0x3f).toNat = n.toNat / 2 ^ k.toNat % 64 := by
    rw [UInt32.toNat_and, UInt32.toNat_shiftRight, hmod, Nat.shiftRight_eq_div_pow]
    exact Nat.and_two_pow_sub_one_eq_mod _ 6
  rw [base64Digit, hplace]
  exact digitValue_table ⟨_, Nat.mod_lt _ (by decide)⟩

section Chunk

variable (a b c : UInt8)

/-- The digits of a chunk, highest first. -/
def digit (k : UInt32) : UInt8 :=
  base64Digit ((a.toUInt32 <<< 16) ||| (b.toUInt32 <<< 8) ||| c.toUInt32) k

variable {a b c}

theorem digitValue_digit {k : UInt32} (hk : k < 32) :
    Base64.digitValue (digit a b c k) = some (chunkNumber a b c / 2 ^ k.toNat % 64) := by
  rw [digit, digitValue_base64Digit hk, chunk_toNat]

theorem digitValue_18 (a b c : UInt8) :
    Base64.digitValue (digit a b c 18) = some (chunkNumber a b c / 262144 % 64) :=
  digitValue_digit (by decide)

theorem digitValue_12 (a b c : UInt8) :
    Base64.digitValue (digit a b c 12) = some (chunkNumber a b c / 4096 % 64) :=
  digitValue_digit (by decide)

theorem digitValue_6 (a b c : UInt8) :
    Base64.digitValue (digit a b c 6) = some (chunkNumber a b c / 64 % 64) :=
  digitValue_digit (by decide)

theorem digitValue_0 (a b c : UInt8) :
    Base64.digitValue (digit a b c 0) = some (chunkNumber a b c / 1 % 64) :=
  digitValue_digit (by decide)

theorem isSome_digit {k : UInt32} (hk : k < 32) :
    (Base64.digitValue (digit a b c k)).isSome = true := by
  rw [digitValue_digit hk]
  rfl

theorem base64Chunk_three :
    base64Chunk [a, b, c] = [digit a b c 18, digit a b c 12, digit a b c 6, digit a b c 0] := rfl

theorem base64Chunk_two :
    base64Chunk [a, b] = [digit a b 0 18, digit a b 0 12, digit a b 0 6, Base64.pad] := rfl

theorem base64Chunk_one :
    base64Chunk [a] = [digit a 0 0 18, digit a 0 0 12, Base64.pad, Base64.pad] := rfl

/-- The bytes of the number are the bytes of the chunk. -/
theorem ofNat_chunkNumber :
    [UInt8.ofNat (chunkNumber a b c / 65536), UInt8.ofNat (chunkNumber a b c / 256),
      UInt8.ofNat (chunkNumber a b c)] = [a, b, c] := by
  have hbyte : ∀ (x : UInt8) (m : Nat), m % 256 = x.toNat → UInt8.ofNat m = x := by
    intro x m h
    apply UInt8.toNat_inj.mp
    rw [UInt8.toNat_ofNat', h]
  have ha := a.toNat_lt
  have hb := b.toNat_lt
  have hc := c.toNat_lt
  rw [hbyte a _ (by rw [chunkNumber]; omega), hbyte b _ (by rw [chunkNumber]; omega),
    hbyte c _ (by rw [chunkNumber]; omega)]

theorem decode_three {rest tail : Bytes} (h : Base64.decode rest = some tail) :
    Base64.decode (base64Chunk [a, b, c] ++ rest) = some (a :: b :: c :: tail) := by
  have hlt : chunkNumber a b c < 2 ^ 24 := chunkNumber_lt
  have hgroup := Base64.decodeFull_of_digits (digitValue_18 a b c) (digitValue_12 a b c)
    (digitValue_6 a b c) (digitValue_0 a b c) (n := chunkNumber a b c) (by omega)
  rw [ofNat_chunkNumber] at hgroup
  rw [base64Chunk_three]
  exact Base64.decode_cons (Base64.digitValue_ne_pad (digitValue_0 a b c)) hgroup h

/-- A third byte of zero leaves the two low bits of the last digit clear. -/
theorem decode_two : Base64.decode (base64Chunk [a, b]) = some [a, b] := by
  have hlt : chunkNumber a b 0 < 2 ^ 24 := chunkNumber_lt
  have hzero : chunkNumber a b 0 % 256 = 0 := by
    rw [chunkNumber, UInt8.toNat_zero]
    omega
  have hgroup := Base64.decodeTwo_of_digits (digitValue_18 a b 0) (digitValue_12 a b 0)
    (digitValue_6 a b 0) (n := chunkNumber a b 0 / 256) (by omega)
  have hbytes := List.cons.inj (ofNat_chunkNumber (a := a) (b := b) (c := 0))
  rw [Nat.div_div_eq_div_mul, hbytes.1, (List.cons.inj hbytes.2).1] at hgroup
  rw [base64Chunk_two, Base64.decode, if_pos ⟨rfl, rfl⟩,
    if_neg (Base64.digitValue_ne_pad (digitValue_6 a b 0)), hgroup]

theorem decode_one : Base64.decode (base64Chunk [a]) = some [a] := by
  have hlt : chunkNumber a 0 0 < 2 ^ 24 := chunkNumber_lt
  have hzero : chunkNumber a 0 0 % 65536 = 0 := by
    rw [chunkNumber, UInt8.toNat_zero]
    omega
  have hgroup := Base64.decodeOne_of_digits (digitValue_18 a 0 0) (digitValue_12 a 0 0)
    (n := chunkNumber a 0 0 / 65536) (by omega)
  rw [(List.cons.inj (ofNat_chunkNumber (a := a) (b := 0) (c := 0))).1] at hgroup
  rw [base64Chunk_one, Base64.decode, if_pos ⟨rfl, rfl⟩, if_pos rfl, hgroup]

end Chunk

/-! ## The whole text -/

/-- The cases of `chunks(3)`: no bytes, a short tail, or a full chunk first. -/
@[elab_as_elim]
theorem chunks_induction {P : Bytes → Prop} (nil : P []) (one : ∀ a, P [a])
    (two : ∀ a b, P [a, b]) (three : ∀ a b c rest, P rest → P (a :: b :: c :: rest)) :
    ∀ d, P d
  | [] => nil
  | [a] => one a
  | [a, b] => two a b
  | a :: b :: c :: rest => three a b c rest (chunks_induction nil one two three rest)

theorem decode_base64Std (d : Bytes) : Base64.decode (base64Std d) = some d := by
  induction d using chunks_induction with
  | nil => rfl
  | one a => exact decode_one
  | two a b => exact decode_two
  | three a b c rest ih =>
      rw [base64Std]
      exact decode_three ih

theorem length_base64Std (d : Bytes) : (base64Std d).length = 4 * ((d.length + 2) / 3) := by
  induction d using chunks_induction with
  | nil => rfl
  | one a => simp [base64Std, base64Chunk]
  | two a b => simp [base64Std, base64Chunk]
  | three a b c rest ih =>
      rw [base64Std, List.length_append, ih]
      simp only [base64Chunk, List.length_cons, List.length_nil]
      omega

/-- Digits of the alphabet, then the padding. -/
theorem base64Std_digits (d : Bytes) :
    ∃ body, base64Std d = body ++ List.replicate ((3 - d.length % 3) % 3) Base64.pad ∧
      ∀ c ∈ body, (Base64.digitValue c).isSome = true := by
  induction d using chunks_induction with
  | nil => exact ⟨[], rfl, fun c hc => absurd hc List.not_mem_nil⟩
  | one a =>
      refine ⟨[digit a 0 0 18, digit a 0 0 12], base64Chunk_one, ?_⟩
      intro x hx
      simp only [List.mem_cons, List.not_mem_nil, or_false] at hx
      rcases hx with rfl | rfl <;> exact isSome_digit (by decide)
  | two a b =>
      refine ⟨[digit a b 0 18, digit a b 0 12, digit a b 0 6], base64Chunk_two, ?_⟩
      intro x hx
      simp only [List.mem_cons, List.not_mem_nil, or_false] at hx
      rcases hx with rfl | rfl | rfl <;> exact isSome_digit (by decide)
  | three a b c rest ih =>
      obtain ⟨body, hbody, hdigits⟩ := ih
      have hmod : (a :: b :: c :: rest).length % 3 = rest.length % 3 := by
        simp only [List.length_cons]
        omega
      refine ⟨base64Chunk [a, b, c] ++ body, ?_, ?_⟩
      · rw [base64Std, hmod, hbody, List.append_assoc]
      · intro x hx
        rcases List.mem_append.mp hx with hx | hx
        · rw [base64Chunk_three] at hx
          simp only [List.mem_cons, List.not_mem_nil, or_false] at hx
          rcases hx with rfl | rfl | rfl | rfl <;> exact isSome_digit (by decide)
        · exact hdigits x hx

/-- No control character is in the text, so the header line ends after it. -/
theorem base64Std_ne_cr {d : Bytes} : ∀ c ∈ base64Std d, c ≠ 13 := by
  obtain ⟨body, hbody, hdigits⟩ := base64Std_digits d
  rintro c hc rfl
  rw [hbody, List.mem_append] at hc
  rcases hc with hc | hc
  · exact absurd (hdigits 13 hc) (by decide)
  · exact absurd (List.eq_of_mem_replicate hc) (by decide)

/-! ## The header field -/

/-- What a server finds under a field name: the text behind the name, at the
start of a line, up to the carriage return. -/
def fieldValue (name : Bytes) : Bytes → Option Bytes
  | [] => none
  | x :: rest =>
      if x = 10 ∧ name <+: rest then some ((rest.drop name.length).takeWhile (· ≠ 13))
      else fieldValue name rest

def handshakeField : Bytes := ascii "X-Tailscale-Handshake: "

/-- The lookup goes from one line to the next. -/
theorem fieldValue_line {name line rest : Bytes} (hl : 10 ∉ line) :
    fieldValue name (line ++ 10 :: rest) =
      if name <+: rest then some ((rest.drop name.length).takeWhile (· ≠ 13))
      else fieldValue name rest := by
  induction line with
  | nil =>
      rw [List.nil_append, fieldValue]
      simp only [true_and]
  | cons x line ih =>
      rw [List.mem_cons, not_or] at hl
      rw [List.cons_append, fieldValue, if_neg (fun h => hl.1 h.1.symm)]
      exact ih hl.2

theorem fieldValue_found {name line value rest : Bytes} (hl : 10 ∉ line)
    (hv : ∀ c ∈ value, c ≠ 13) :
    fieldValue name (line ++ 10 :: (name ++ (value ++ 13 :: rest))) = some value := by
  have hvalue : (value ++ 13 :: rest).takeWhile (· ≠ 13) = value := by
    rw [List.takeWhile_append_of_pos (fun c hc => decide_eq_true (hv c hc)),
      List.takeWhile_cons_of_neg (by decide), List.append_nil]
  rw [fieldValue_line hl, if_pos (List.prefix_append ..), List.drop_left, hvalue]

/-- No other field of the request starts with the letter of this one. -/
theorem fieldValue_skip {line rest : Bytes} {x : UInt8} (hl : 10 ∉ line) (hx : x ≠ 88) :
    fieldValue handshakeField (line ++ 10 :: x :: rest) =
      fieldValue handshakeField (x :: rest) := by
  have hno : ¬handshakeField <+: x :: rest := by
    intro h
    exact hx (List.cons_prefix_cons.mp h).1.symm
  rw [fieldValue_line hl, if_neg hno]

theorem fieldValue_upgradeRequest {host value : Bytes} (hh : 10 ∉ host)
    (hv : ∀ c ∈ value, c ≠ 13) :
    fieldValue handshakeField (upgradeRequest host value) = some value := by
  have hlines : upgradeRequest host value =
      ascii "POST /ts2021 HTTP/1.1\r" ++ 10 :: 72 :: ((ascii "ost: " ++ host ++ [13]) ++ 10 ::
        85 :: (ascii "pgrade: tailscale-control-protocol\r" ++ 10 ::
          67 :: (ascii "onnection: upgrade\r" ++ 10 :: (handshakeField ++ (value ++ 13 ::
            (10 :: ascii "Content-Length: 0\r\n\r\n")))))) := by
    have hhead : ascii "POST /ts2021 HTTP/1.1\r\nHost: " =
        ascii "POST /ts2021 HTTP/1.1\r" ++ 10 :: 72 :: ascii "ost: " := rfl
    have hmiddle : ascii "\r\nUpgrade: " ++ upgradeValue ++
        ascii "\r\nConnection: upgrade\r\nX-Tailscale-Handshake: " =
        13 :: 10 :: 85 :: (ascii "pgrade: tailscale-control-protocol\r" ++ 10 ::
          67 :: (ascii "onnection: upgrade\r" ++ 10 :: handshakeField)) := by decide
    have hend : ascii "\r\nContent-Length: 0\r\n\r\n" =
        13 :: 10 :: ascii "Content-Length: 0\r\n\r\n" := rfl
    rw [upgradeRequest, List.append_assoc (_ ++ host), List.append_assoc (_ ++ host), hmiddle,
      hhead, hend]
    simp only [List.append_assoc, List.cons_append, List.nil_append]
  have hhost : 10 ∉ 72 :: (ascii "ost: " ++ host ++ [13]) := by
    simp only [List.mem_append, List.mem_cons, hh]
    decide
  -- three lines that are no match, and then the field
  rw [hlines, fieldValue_skip (by decide) (by decide), ← List.cons_append,
    fieldValue_skip hhost (by decide), ← List.cons_append,
    fieldValue_skip (by decide) (by decide), ← List.cons_append,
    fieldValue_found (by decide) hv]

/-! ## The handshake

Nothing but the request is written before the response is in. -/

theorem read_written {cap : Nat} {s s' : ByteStream} {b : Bytes}
    (h : s.read cap = .ok (b, s')) : s'.written = s.written := by
  rw [ByteStream.read] at h
  split at h
  · split at h <;> cases h
    rfl
  · split at h <;> cases h <;> rfl

theorem pull_written {cap : Nat} {s s' : ByteStream} {b : Bytes}
    (h : (ByteStream.source cap).pull s = .ok (b, s')) : s'.written = s.written := by
  rw [ByteStream.source] at h
  simp only [] at h
  split at h
  · cases h
  · cases h
  · next hr =>
      cases h
      exact read_written hr

theorem readHead_written {s : ByteStream} {head : Bytes} {r : Bytes × Nat × ByteStream}
    (h : readHead s head = .ok r) : r.2.2.written = s.written := by
  induction hk : s.unread using Nat.strongRecOn generalizing s head with
  | ind k ih =>
    rw [readHead] at h
    split at h
    · cases h
    · cases h
    · next b s' hp =>
        have hlt : s'.unread < k := hk ▸ (ByteStream.source 512).pull_lt hp
        split at h
        · cases h
          exact pull_written hp
        · split at h
          · cases h
          · rw [ih s'.unread hlt h rfl, pull_written hp]

theorem connectAndUpgrade_written {s : ByteStream} {host b64 : Bytes} {c : Conn}
    (h : connectAndUpgrade s host b64 = .ok c) :
    c.stream.written = s.written ++ upgradeRequest host b64 := by
  rw [connectAndUpgrade] at h
  split at h
  · cases h
  · next s1 hw =>
      split at h
      · cases h
      · next head start s2 hread =>
          simp only [] at h
          split at h
          · cases h
            rw [readHead_written hread]
            rw [ByteStream.writeAll] at hw
            split at hw <;> cases hw
            rfl
          · cases h

theorem readFrame_written {c c' : Conn} {r : UInt8 × Bytes} (h : c.readFrame = .ok (r, c')) :
    c'.stream.written = c.stream.written := by
  have htake : ∀ {n : Nat} {c c' : Conn} {out : Bytes}, c.take n = .ok (out, c') →
      c'.stream.written = c.stream.written := by
    intro n c c' out h
    rw [Conn.take] at h
    split at h
    · cases h
    · cases h
    · next ht =>
        cases h
        exact Source.take_keeps (f := ByteStream.written) pull_written ht
  rw [Conn.readFrame] at h
  split at h
  · cases h
  · next h1 =>
      split at h
      · cases h
      · next h2 =>
          cases h
          rw [htake h2, htake h1]

theorem handshake_written {host initiation : Bytes}
    {complete : Bytes → Except String Noise.Transport} {s : ByteStream} {c : Conn}
    {tr : Noise.Transport}
    (h : Control.handshake host (.ok (initiation, complete)) (.ok s) = .ok (c, tr)) :
    c.stream.written =
      s.written ++ upgradeRequest host (base64Std (Noise.framedInitiation initiation)) := by
  rw [Control.handshake] at h
  split at h
  · cases h
  · next hup =>
      split at h
      · cases h
      · next hframe =>
          split at h
          · split at h <;> cases h
            rw [readFrame_written hframe, connectAndUpgrade_written hup]
          · split at h <;> cases h

/-- `base64_std` is padded base64 of the standard alphabet: it has the length
and the padding that the number of bytes asks for, and decoding returns the
bytes. A handshake that succeeds has sent one request, and the handshake
field of that request decodes to the framed initiation. -/
theorem base64Std_is_standard (d : Bytes) :
    (base64Std d).length = 4 * ((d.length + 2) / 3) ∧
      (∃ body, base64Std d = body ++ List.replicate ((3 - d.length % 3) % 3) Base64.pad ∧
        ∀ c ∈ body, (Base64.digitValue c).isSome = true) ∧
      Base64.decode (base64Std d) = some d ∧
      (∀ d', base64Std d' = base64Std d → d' = d) ∧
      (∀ host, 10 ∉ host →
        (fieldValue handshakeField (upgradeRequest host (base64Std d))).bind Base64.decode =
          some d) ∧
      ∀ host initiation complete s c tr, 10 ∉ host → d = Noise.framedInitiation initiation →
        Control.handshake host (.ok (initiation, complete)) (.ok s) = .ok (c, tr) →
        ∃ request, c.stream.written = s.written ++ request ∧
          (fieldValue handshakeField request).bind Base64.decode = some d := by
  have hfield : ∀ host, 10 ∉ host →
      (fieldValue handshakeField (upgradeRequest host (base64Std d))).bind Base64.decode =
        some d := by
    intro host hh
    rw [fieldValue_upgradeRequest hh base64Std_ne_cr]
    exact decode_base64Std d
  refine ⟨length_base64Std d, base64Std_digits d, decode_base64Std d, ?_, hfield, ?_⟩
  · intro d' h
    have hd := congrArg Base64.decode h
    rw [decode_base64Std, decode_base64Std] at hd
    exact Option.some.inj hd
  · intro host initiation complete s c tr hh hd h
    refine ⟨upgradeRequest host (base64Std d), ?_, hfield host hh⟩
    rw [hd]
    exact handshake_written h

section Example

/-- A server that accepts the upgrade and answers with an empty response. -/
private def acceptingServer : ByteStream :=
  { incoming := [ascii "HTTP/1.1 101 OK\r\n\r\n", [2, 0, 0]], readFails := false
    written := [], writeFails := false }

private def someKeys : Noise.Transport := Noise.Transport.new (Arr.zero 32) (Arr.zero 32)

private def sentInitiation : Conn :=
  { stream :=
      { incoming := [], readFails := false
        written := upgradeRequest (ascii "control") (base64Std (Noise.framedInitiation [7]))
        writeFails := false }
    rx := [] }

theorem base64Std_carries_initiation :
    Control.handshake (ascii "control") (.ok ([7], fun _ => .ok someKeys))
        (.ok acceptingServer) = .ok (sentInitiation, someKeys) ∧
      ∃ request, sentInitiation.stream.written = [] ++ request ∧
        (fieldValue handshakeField request).bind Base64.decode =
          some (Noise.framedInitiation [7]) := by
  have hrun : Control.handshake (ascii "control") (.ok ([7], fun _ => .ok someKeys))
      (.ok acceptingServer) = .ok (sentInitiation, someKeys) := by
    decide +kernel
  obtain ⟨-, -, -, -, -, hsent⟩ := base64Std_is_standard (Noise.framedInitiation [7])
  exact ⟨hrun, hsent _ _ _ _ _ _ (by decide) rfl hrun⟩

end Example

end TailscaleRust.Proofs.HandshakeHeader
