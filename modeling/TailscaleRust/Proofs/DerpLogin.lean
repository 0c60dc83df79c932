import TailscaleRust.Firmware.DerpSession
import TailscaleRust.Proofs.DerpFraming

/-!
# Logging in to the relay

`Derp::connect` writes a request, reads a response head byte by byte, reads
one frame with the key of the server and writes one frame with a box for it.
Both directions are shown. A login that succeeds has read exactly a head that
switches protocols and a key frame, whatever the schedule of the connection
was and whether or not it would fail later; it has written exactly the request
and the frame. And a connection that brings a head and a key frame, under any
schedule that does not fail, is logged in to, with the stream at the first
byte behind the key frame and a box that the server opens.
-/

namespace TailscaleRust.Proofs.DerpLogin

open TailscaleRust.Lib TailscaleRust.Core TailscaleRust.Firmware TailscaleRust.Firmware.DerpConn
open TailscaleRust.Proofs.DerpFraming

/-! ## Frames on any connection -/

/-- What a frame was read from. -/
theorem readFrame_gave {d d' : Derp} {f : Frame} (h : readFrame d = .ok (f, d')) :
    d.Gave (frameBytes f) d' ∧ f.2.length ≤ maxFrame := by
  rw [readFrame] at h
  split at h
  · cases h
  · next hdr d₁ hhdr =>
      obtain ⟨a, hout, hlen, hgave⟩ := readExact_gave hhdr (Nat.zero_le 5)
      rw [List.nil_append] at hout
      rw [← hout] at hgave
      -- the header is the type and the length it declares
      have hsplit : hdr = byteAt hdr 0 :: be32 (u32be hdr 1) := by
        have hfield := (u32be_eq_iff (b := hdr) (i := 1) (by omega)).mp rfl
        rw [← hfield, ← List.singleton_append, ← byteAt_eq_slice (by omega),
          slice_slice_append (by omega) (by omega)]
        exact (slice_self (by omega)).symm
      simp only [] at h
      split at h
      · cases h
      · next hmax =>
          split at h
          · split at h
            · cases h
            · next payload d₂ hpay =>
                cases h
                obtain ⟨b, hout', hlen', hgave'⟩ := readExact_gave hpay (Nat.zero_le _)
                rw [List.nil_append] at hout'
                rw [← hout'] at hgave'
                refine ⟨?_, ?_⟩
                · rw [frameBytes, hlen', UInt32.ofNat_toNat, ← hsplit]
                  exact hgave.trans hgave'
                · show payload.length ≤ maxFrame
                  omega
          · next hzero =>
              cases h
              have hnone : u32be hdr 1 = 0 := by
                apply UInt32.toNat_inj.mp
                rw [UInt32.toNat_zero]
                omega
              refine ⟨?_, Nat.zero_le _⟩
              rw [hnone] at hsplit
              rw [frameBytes, List.append_nil]
              show d.Gave (byteAt hdr 0 :: be32 0) _
              rw [← hsplit]
              exact hgave

theorem writeFrame_accepted {d d' : Derp} {typ : UInt8} {payload : Bytes}
    (h : writeFrame d typ payload = .ok d') : d.Accepted (frameBytes (typ, payload)) d' := by
  rw [writeFrame] at h
  split at h
  · cases h
  · next d₁ hhdr =>
      have hfirst := writeAll_accepted hhdr
      rw [List.drop_zero] at hfirst
      split at h
      · have hsecond := writeAll_accepted h
        rw [List.drop_zero] at hsecond
        exact hfirst.trans hsecond
      · next hempty =>
          cases h
          rw [frameBytes, not_not.mp hempty, List.append_nil]
          rw [not_not.mp hempty] at hfirst
          exact hfirst

/-! ## The response head -/

/-- Nothing read so far ends the head. -/
def Unended (got : Bytes) : Prop := ∀ n ≤ got.length, ¬headEnd <:+ got.take n

theorem unended_nil : Unended [] := by
  intro n hn hend
  rw [List.take_nil] at hend
  exact absurd hend (by decide)

theorem Unended.snoc {got : Bytes} {x : UInt8} (h : Unended got)
    (hx : ¬headEnd <:+ got ++ [x]) : Unended (got ++ [x]) := by
  intro n hn
  rw [List.length_append, List.length_singleton] at hn
  rcases Nat.lt_or_ge got.length n with hlt | hle
  · rw [List.take_of_length_le (by rw [List.length_append, List.length_singleton]; omega)]
    exact hx
  · rw [List.take_append_of_le_length hle]
    exact h n hle

/-- A read of one byte returned the next one. -/
theorem readSome_one {d d' : Derp} {x : UInt8} {b : Bytes}
    (h : readSome d 1 = .ok (x :: b, d')) : d.Gave [x] d' := by
  obtain ⟨hgave, hle⟩ := readSome_gave h
  cases b with
  | nil => exact hgave
  | cons y b =>
      rw [List.length_cons, List.length_cons] at hle
      omega

/-- The loop returns the bytes up to the first blank line. -/
theorem readHead_gave {d d' : Derp} {got head : Bytes} (h : readHead d got = .ok (head, d'))
    (hgot : Unended got) (hle : got.length ≤ 4096) :
    ∃ todo, head = got ++ todo ∧ d.Gave todo d' ∧ headEnd <:+ head ∧
      (∀ n < head.length, ¬headEnd <:+ head.take n) ∧ head.length ≤ 4097 := by
  fun_induction readHead d got with
  | case1 => cases h
  | case2 => cases h
  | case3 d got x b d₁ hread hend =>
      cases h
      refine ⟨[x], rfl, readSome_one hread, hend, ?_, ?_⟩
      · intro n hn
        rw [List.length_append, List.length_singleton] at hn
        rw [List.take_append_of_le_length (by omega)]
        exact hgot n (by omega)
      · rw [List.length_append, List.length_singleton]
        omega
  | case4 => cases h
  | case5 d got x b d₁ hread hend hlen ih =>
      obtain ⟨todo, rfl, hgave, hrest⟩ := ih h (hgot.snoc hend) (by omega)
      refine ⟨x :: todo, by rw [List.append_assoc]; rfl, ?_, hrest⟩
      exact (readSome_one hread).trans hgave

theorem httpUpgrade_gave {d d' : Derp} {host : Bytes} (h : httpUpgrade d host = .ok d') :
    ∃ head, UpgradeHead head ∧ d.rx = head ++ d'.rx ∧ d'.tx = d.tx ++ upgradeRequest host := by
  rw [httpUpgrade] at h
  split at h
  · cases h
  · next d₁ hwrite =>
      have hsent := writeAll_accepted hwrite
      rw [List.drop_zero] at hsent
      split at h
      · cases h
      · next head d₂ hread =>
          obtain ⟨todo, hhead, hgave, hends, hfirst, hlen⟩ :=
            readHead_gave hread unended_nil (Nat.zero_le _)
          rw [List.nil_append] at hhead
          rw [← hhead] at hgave
          simp only [] at h
          split at h
          · next hswitch =>
              cases h
              refine ⟨head, ⟨hlen, hends, hfirst, hswitch⟩, ?_, ?_⟩
              · rw [← hsent.rx, hgave.rx]
              · rw [hgave.tx, hsent.tx]
          · cases h

/-! ## The two frames -/

/-- The frame a server opens with: the magic, its key, and what may follow. -/
def serverKeyFrame (key : Key) (more : Bytes) : Frame := (frameServerKey, magic ++ key.1 ++ more)

/-- The frame we answer with: our identity, the nonce and the box. -/
def clientInfoFrame (nodePub : Key) (nonce : Arr 24) (ct : Bytes) : Frame :=
  (frameClientInfo, nodePub.1 ++ nonce.1 ++ ct)

theorem magic_key (key : Key) (more : Bytes) :
    (magic ++ key.1 ++ more).take magic.length = magic ∧
      arrAt (magic ++ key.1 ++ more) magic.length 32 = key := by
  refine ⟨by rw [List.append_assoc, List.take_left], arrAt_eq ?_⟩
  rw [List.append_assoc, slice, List.drop_left, Nat.add_sub_cancel_left,
    List.take_left' key.2]

/-- A payload that passes the checks is the magic, a key and more. -/
theorem payload_split {payload : Bytes} (hlen : magic.length + 32 ≤ payload.length)
    (hmagic : payload.take magic.length = magic) :
    ∃ more, payload = magic ++ (arrAt payload magic.length 32).1 ++ more := by
  have hkey : (arrAt payload magic.length 32).1 =
      slice payload magic.length (magic.length + 32) := by
    rw [arrAt, slice, Nat.add_sub_cancel_left]
    exact List.takeD_eq_take 0 (by rw [List.length_drop]; omega)
  refine ⟨payload.drop (magic.length + 32), ?_⟩
  rw [hkey, slice, Nat.add_sub_cancel_left]
  nth_rewrite 1 [← List.take_append_drop magic.length payload]
  rw [hmagic, List.append_assoc, ← List.drop_drop, List.take_append_drop]

theorem readServerKey_gave {d d' : Derp} {key : Key} (h : readServerKey d = .ok (key, d')) :
    ∃ more, magic.length + 32 + more.length ≤ maxFrame ∧
      d.Gave (frameBytes (serverKeyFrame key more)) d' := by
  rw [readServerKey] at h
  split at h
  · cases h
  · next typ payload d₁ hread =>
      obtain ⟨hgave, hmax⟩ := readFrame_gave hread
      split at h
      · cases h
      · next htyp =>
          split at h
          · cases h
          · next hok =>
              cases h
              rw [not_or, not_not] at hok
              obtain ⟨more, hmore⟩ := payload_split (by omega) hok.2
              have hlen := congrArg List.length hmore
              rw [List.length_append, List.length_append,
                (arrAt payload magic.length 32).2] at hlen
              refine ⟨more, by rw [← hlen]; exact hmax, ?_⟩
              rw [serverKeyFrame, ← hmore, ← not_not.mp htyp]
              exact hgave

theorem readServerKey_complete {d : Derp} (hd : d.Live) {key : Key} {more rest : Bytes}
    (hmax : magic.length + 32 + more.length ≤ maxFrame)
    (hrx : d.rx = frameBytes (serverKeyFrame key more) ++ rest) :
    ∃ d', readServerKey d = .ok (key, d') ∧ d.Took (frameBytes (serverKeyFrame key more)) d' := by
  have hlen : (magic ++ key.1 ++ more).length = magic.length + 32 + more.length := by
    rw [List.length_append, List.length_append, key.2]
  obtain ⟨d₁, hread, htook⟩ := readFrame_live hd (f := serverKeyFrame key more)
    (by rw [serverKeyFrame, hlen]; exact hmax) hrx
  obtain ⟨hmagic, hkey⟩ := magic_key key more
  refine ⟨d₁, ?_, htook⟩
  rw [readServerKey, hread]
  simp only [serverKeyFrame, ne_eq, not_true_eq_false, if_false, hmagic, hlen, hkey, or_false]
  rw [if_neg (by omega)]

/-! ## The login -/

/-- A live connection that brings a head and a key frame is logged in to. -/
theorem connect_live {C : Crypto} {d : Derp} (hd : d.Live) (host : Bytes) {head : Bytes}
    (hhead : UpgradeHead head) (nodePriv nodePub key : Key) (nonce : Arr 24) (more : Bytes)
    {ct rest : Bytes} (hseal : C.boxSeal nodePriv key nonce clientInfoJson = some ct)
    (hmax : magic.length + 32 + more.length ≤ maxFrame)
    (hrx : d.rx = head ++ (frameBytes (serverKeyFrame key more) ++ rest)) :
    ∃ d', connect C (.ok d) host nodePriv nodePub nonce = .ok d' ∧ d'.rx = rest ∧ d'.Live ∧
      d'.tx = d.tx ++ upgradeRequest host ++ frameBytes (clientInfoFrame nodePub nonce ct) := by
  obtain ⟨d₁, hup, hrx₁, htx₁, hlive₁⟩ := httpUpgrade_live hhead hd host hrx
  obtain ⟨d₂, hkey, htook⟩ := readServerKey_complete hlive₁ hmax hrx₁
  obtain ⟨d₃, hwrite, hsent⟩ := writeFrame_live htook.live frameClientInfo
    (nodePub.1 ++ nonce.1 ++ ct)
  refine ⟨d₃, ?_, ?_, hsent.live, ?_⟩
  · simp only [connect, hup, hkey, sendClientInfo, hseal]
    exact hwrite
  · rw [hsent.rx]
    exact List.append_cancel_left (htook.rx.symm.trans hrx₁)
  · rw [hsent.tx, htook.tx, htx₁]
    rfl

/-- Whatever the connection does: a login that succeeds has read a head that
switches protocols and the key frame of a server, and not a byte more, and
has written the request and one frame with the box for that key. -/
theorem connect_gave {C : Crypto} {d d' : Derp} {host : Bytes} {nodePriv nodePub : Key}
    {nonce : Arr 24} (h : connect C (.ok d) host nodePriv nodePub nonce = .ok d') :
    ∃ head key more ct, UpgradeHead head ∧ magic.length + 32 + more.length ≤ maxFrame ∧
      d.rx = head ++ (frameBytes (serverKeyFrame key more) ++ d'.rx) ∧
      C.boxSeal nodePriv key nonce clientInfoJson = some ct ∧
      d'.tx = d.tx ++ upgradeRequest host ++ frameBytes (clientInfoFrame nodePub nonce ct) := by
  rw [connect] at h
  split at h
  · cases h
  · next d₁ hup =>
      obtain ⟨head, hhead, hrx, htx⟩ := httpUpgrade_gave hup
      split at h
      · cases h
      · next key d₂ hkey =>
          obtain ⟨more, hmax, hgave⟩ := readServerKey_gave hkey
          rw [sendClientInfo] at h
          split at h
          · cases h
          · next ct hseal =>
              have hsent := writeFrame_accepted h
              refine ⟨head, key, more, ct, hhead, hmax, ?_, hseal, ?_⟩
              · rw [hrx, hgave.rx, hsent.rx]
              · rw [hsent.tx, hgave.tx, htx]
                rfl

/-- Under every schedule that does not fail, a login succeeds exactly on the
streams that start with a head that switches protocols and a frame with the
key of a server we can make a box for. It has then read that much and no
more, and written the request and the frame with the box. -/
theorem login_iff (C : Crypto) (d : Derp) (hd : d.Live) (host : Bytes) (nodePriv nodePub : Key)
    (nonce : Arr 24) (rest written : Bytes) :
    (∃ d', connect C (.ok d) host nodePriv nodePub nonce = .ok d' ∧ d'.rx = rest ∧
      d'.tx = d.tx ++ written) ↔
    ∃ head key more ct, UpgradeHead head ∧ magic.length + 32 + more.length ≤ maxFrame ∧
      d.rx = head ++ (frameBytes (serverKeyFrame key more) ++ rest) ∧
      C.boxSeal nodePriv key nonce clientInfoJson = some ct ∧
      written = upgradeRequest host ++ frameBytes (clientInfoFrame nodePub nonce ct) := by
  refine ⟨?_, ?_⟩
  · rintro ⟨d', h, rfl, htx⟩
    obtain ⟨head, key, more, ct, hhead, hmax, hrx, hseal, htx'⟩ := connect_gave h
    refine ⟨head, key, more, ct, hhead, hmax, hrx, hseal, ?_⟩
    rw [htx, List.append_assoc] at htx'
    exact List.append_cancel_left htx'
  · rintro ⟨head, key, more, ct, hhead, hmax, hrx, hseal, rfl⟩
    obtain ⟨d', hok, hrest, -, htx⟩ :=
      connect_live hd host hhead nodePriv nodePub key nonce more hseal hmax hrx
    exact ⟨d', hok, hrest, by rw [htx, List.append_assoc]⟩

/-- A relay that opens with a head and a key frame, under any schedule that
does not fail: the login succeeds with the stream at what comes next, and the
server opens the box we sent to the version. -/
theorem login_succeeds (C : Crypto) (hC : C.BoxLawful) (d : Derp) (hd : d.Live)
    (host head : Bytes) (hhead : UpgradeHead head) (serverPriv nodePriv : Key) (nonce : Arr 24)
    (more rest : Bytes) (hmax : magic.length + 32 + more.length ≤ maxFrame)
    (hrx : d.rx =
      head ++ (frameBytes (serverKeyFrame (C.x25519Public serverPriv) more) ++ rest)) :
    ∃ d' ct, connect C (.ok d) host nodePriv (C.x25519Public nodePriv) nonce = .ok d' ∧
      d'.rx = rest ∧ d'.Live ∧
      d'.tx = d.tx ++ upgradeRequest host ++
        frameBytes (clientInfoFrame (C.x25519Public nodePriv) nonce ct) ∧
      C.boxOpen serverPriv (C.x25519Public nodePriv) nonce ct = some clientInfoJson := by
  obtain ⟨ct, hseal, -, hopen⟩ := hC.open_seal nodePriv serverPriv nonce clientInfoJson
  obtain ⟨d', hok, hrest, hlive, htx⟩ := connect_live hd host hhead nodePriv
    (C.x25519Public nodePriv) (C.x25519Public serverPriv) nonce more hseal hmax hrx
  exact ⟨d', ct, hok, hrest, hlive, htx, hopen⟩

section Example

/-- Every call but the third of a turn asks to be tried again, and that one
moves a single byte. -/
private def crawling (rx : Bytes) : Derp :=
  { rx, tx := [], turns := fun _ => ⟨[.write, .read], .moves 0⟩ }

private theorem crawling_live (rx : Bytes) : (crawling rx).Live := fun _ => ⟨0, rfl⟩

private def shortHead : Bytes := ascii "HTTP/1.1 101 S\r\n\r\n"

private theorem shortHead_login : UpgradeHead shortHead :=
  ⟨by decide, by decide, by decide, by decide⟩

/-- The bytes of a relay, with a word behind its key and a frame behind both. -/
private def openingBytes : Bytes :=
  shortHead ++ (frameBytes (serverKeyFrame (transparent.x25519Public (byteKey 5)) [1, 2]) ++
    frameBytes (6, []))

private def loginNonce : Arr 24 := ⟨List.replicate 24 7, rfl⟩

theorem login_iff_crawling :
    ∃ d' ct, connect transparent (.ok (crawling openingBytes)) (ascii "derp") (byteKey 3)
        (transparent.x25519Public (byteKey 3)) loginNonce = .ok d' ∧
      d'.rx = frameBytes (6, []) ∧
      d'.tx = upgradeRequest (ascii "derp") ++
        frameBytes (clientInfoFrame (transparent.x25519Public (byteKey 3)) loginNonce ct) := by
  obtain ⟨d', hok, hrest, htx⟩ := (login_iff transparent (crawling openingBytes)
    (crawling_live openingBytes) (ascii "derp") (byteKey 3) (transparent.x25519Public (byteKey 3))
    loginNonce (frameBytes (6, [])) _).mpr ⟨shortHead, transparent.x25519Public (byteKey 5),
      [1, 2], _, shortHead_login, by decide, rfl, rfl, rfl⟩
  exact ⟨d', _, hok, hrest, htx⟩

theorem login_succeeds_crawling :
    ∃ d' ct, connect transparent (.ok (crawling openingBytes)) (ascii "derp") (byteKey 3)
        (transparent.x25519Public (byteKey 3)) loginNonce = .ok d' ∧
      d'.rx = frameBytes (6, []) ∧
      transparent.boxOpen (byteKey 5) (transparent.x25519Public (byteKey 3)) loginNonce ct =
        some clientInfoJson := by
  obtain ⟨d', ct, hok, hrest, -, -, hopen⟩ := login_succeeds transparent transparent_boxLawful
    (crawling openingBytes) (crawling_live openingBytes) (ascii "derp") shortHead shortHead_login
    (byteKey 5) (byteKey 3) loginNonce [1, 2] (frameBytes (6, [])) (by decide) rfl
  exact ⟨d', ct, hok, hrest, hopen⟩

end Example

end TailscaleRust.Proofs.DerpLogin
