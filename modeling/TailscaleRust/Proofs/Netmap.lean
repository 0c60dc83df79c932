import Mathlib.Data.List.TakeWhile
import TailscaleRust.Core.H2
import TailscaleRust.Firmware.Control

/-!
# When the netmap's filter is in force

`fetch_peers` turns a body that carries a packet filter into `None`, which
its callers read as "no filter", whenever it cannot make out our own
address. The address comes from a scan for the first `"100.` anywhere in the
body, so what decides is the text at that one place (`OwnAddressFirst`): if
it is a dotted quad up to the next slash or quote the filter is in force,
and otherwise it is off, whatever the rules say.

The body itself may come with its length in front. `strip_wire_prefix` takes
the length off by looking for the brace that opens the JSON text in two
places, and the length is the one text that can have a brace in the first.
-/

namespace TailscaleRust.Proofs

open TailscaleRust.Lib TailscaleRust.Core TailscaleRust.Core.Peers
open TailscaleRust.Firmware.Control

/-! ## The dotted quad -/

/-- A byte an address is made of. -/
def isAddressByte (c : UInt8) : Bool := isDigit c ∨ c = 46

theorem splitOn_ne_nil (sep : UInt8) (s : Bytes) : splitOn sep s ≠ [] := by
  cases s with
  | nil => simp [splitOn]
  | cons b rest =>
      rw [splitOn]
      split
      · simp
      · split <;> simp

/-- The pieces and the separators make up the whole. -/
theorem splitOn_spec (sep : UInt8) (s : Bytes) :
    ((splitOn sep s).map fun piece => piece.length + 1).sum = s.length + 1 ∧
    ∀ c ∈ s, c = sep ∨ ∃ piece ∈ splitOn sep s, c ∈ piece := by
  induction s with
  | nil => simp [splitOn]
  | cons b rest ih =>
      obtain ⟨hlen, hmem⟩ := ih
      rw [splitOn]
      split
      · next hb =>
          refine ⟨by simp [hlen]; omega, fun c hc => ?_⟩
          rcases List.mem_cons.mp hc with rfl | hc
          · exact .inl hb
          · rcases hmem c hc with h | ⟨piece, hp, hcp⟩
            · exact .inl h
            · exact .inr ⟨piece, List.mem_cons_of_mem _ hp, hcp⟩
      · cases hs : splitOn sep rest with
        | nil => exact absurd hs (splitOn_ne_nil sep rest)
        | cons piece pieces =>
            rw [hs] at hlen hmem
            refine ⟨?_, fun c hc => ?_⟩
            · simp only [List.map_cons, List.sum_cons, List.length_cons] at hlen ⊢
              omega
            · rcases List.mem_cons.mp hc with rfl | hc
              · exact .inr ⟨_, List.mem_cons_self, List.mem_cons_self⟩
              · rcases hmem c hc with h | ⟨q, hq, hcq⟩
                · exact .inl h
                · rcases List.mem_cons.mp hq with rfl | hq
                  · exact .inr ⟨_, List.mem_cons_self, List.mem_cons_of_mem _ hcq⟩
                  · exact .inr ⟨q, List.mem_cons_of_mem _ hq, hcq⟩

theorem parseOctet_some {s : Bytes} {v : UInt8} (h : parseOctet s = some v) :
    s ≠ [] ∧ s.all isDigit = true := by
  rw [parseOctet] at h
  split at h
  · cases h
  · next hno =>
      simp only [not_or, not_not] at hno
      exact ⟨hno.1, hno.2.2.1⟩

/-- A dotted quad passes the scan's loose check. -/
theorem parseIpv4_some {s : Bytes} {v : Ipv4Addr} (h : parseIpv4 s = some v) :
    s.all isAddressByte = true ∧ 7 ≤ s.length := by
  obtain ⟨hlen, hmem⟩ := splitOn_spec 46 s
  rw [parseIpv4] at h
  split at h
  · next a b c d hfour =>
      have hoctet : ∀ piece ∈ splitOn 46 s, piece ≠ [] ∧ piece.all isDigit = true := by
        intro piece hp
        have hin := List.mem_map_of_mem (f := parseOctet) hp
        rw [hfour] at hin
        simp only [List.mem_cons, List.not_mem_nil, or_false] at hin
        rcases hin with ho | ho | ho | ho
        all_goals exact parseOctet_some ho
      refine ⟨?_, ?_⟩
      · rw [List.all_eq_true]
        intro c hc
        rcases hmem c hc with hdot | ⟨piece, hp, hcp⟩
        · simp [isAddressByte, hdot]
        · have hd := List.all_eq_true.mp (hoctet piece hp).2 c hcp
          simp [isAddressByte, hd]
      · have hcount : (splitOn 46 s).length = 4 := by
          have := congrArg List.length hfour
          simpa using this
        match hs : splitOn 46 s, hcount with
        | [p, q, r, t], _ =>
            rw [hs] at hlen hoctet
            have hpos : ∀ piece ∈ [p, q, r, t], 0 < piece.length := fun piece hp =>
              List.length_pos_iff.mpr (hoctet piece hp).1
            have h1 := hpos p (by simp)
            have h2 := hpos q (by simp)
            have h3 := hpos r (by simp)
            have h4 := hpos t (by simp)
            simp at hlen
            omega
  · cases h

theorem splitOnce_append {sep : UInt8} {s : Bytes} (t : Bytes) (h : ∀ c ∈ s, c ≠ sep) :
    splitOnce sep (s ++ sep :: t) = some (s, t) := by
  induction s with
  | nil => simp [splitOnce]
  | cons b rest ih =>
      have hb := h b List.mem_cons_self
      have hrest := ih fun c hc => h c (List.mem_cons_of_mem b hc)
      rw [List.cons_append, splitOnce, if_neg hb, hrest]
      rfl

/-- Our address with its `/32` is our address and the full mask. -/
theorem parseCidr_slash32 {s : Bytes} (h : s.all isAddressByte = true) :
    parseCidr (s ++ ascii "/32") = (parseIpv4 s).map fun v => (u32be v.1 0, maskOf 32) := by
  have hslash : ∀ c ∈ s, c ≠ 47 := by
    rintro c hc rfl
    exact absurd (List.all_eq_true.mp h 47 hc) (by decide)
  have hsplit : splitOnce 47 (s ++ ascii "/32") = some (s, ascii "32") :=
    splitOnce_append (ascii "32") hslash
  have hbits : parseU32 (ascii "32") = some 32 := by decide
  rw [parseCidr, hsplit]
  simp only [hbits, Option.map_some]

theorem parseCidr_own {s : Bytes} (h : s.all isAddressByte = true) :
    (parseCidr (s ++ ascii "/32")).isSome = (parseIpv4 s).isSome := by
  rw [parseCidr_slash32 h, Option.isSome_map]

/-! ## Our own address -/

/-- The first `"100.` of the body starts a dotted quad that ends at a slash,
a quote or the end of the body. -/
def OwnAddressFirst (body : Bytes) : Prop :=
  ∃ pre addr post, body = pre ++ 34 :: (addr ++ post) ∧
    addr.take 4 = [49, 48, 48, 46] ∧
    (∀ m < pre.length, (body.drop m).take 5 ≠ pat) ∧
    (post = [] ∨ post.head? = some 47 ∨ post.head? = some 34) ∧
    (parseIpv4 addr).isSome = true

theorem addressText_append {addr post : Bytes} (haddr : addr.all isAddressByte = true)
    (hpost : post = [] ∨ post.head? = some 47 ∨ post.head? = some 34) :
    addressText (addr ++ post) = addr := by
  have hstop : addressText post = [] := by
    cases post with
    | nil => rfl
    | cons b rest =>
        rcases hpost with h | h | h
        · cases h
        · cases h
          rfl
        · cases h
          rfl
  have hrun : ∀ c ∈ addr, (decide (c ≠ 47 ∧ c ≠ 34)) = true := by
    intro c hc
    have hbyte := List.all_eq_true.mp haddr c hc
    rw [decide_eq_true_eq]
    refine ⟨?_, ?_⟩
    · intro heq
      subst heq
      exact absurd hbyte (by decide)
    · intro heq
      subst heq
      exact absurd hbyte (by decide)
  rw [addressText, List.takeWhile_append_of_pos hrun]
  rw [addressText] at hstop
  rw [hstop, List.append_nil]

/-- The text taken, and what stopped it. -/
theorem addressText_split (raw : Bytes) :
    ∃ post, raw = addressText raw ++ post ∧
      (post = [] ∨ post.head? = some 47 ∨ post.head? = some 34) := by
  induction raw with
  | nil => exact ⟨[], rfl, .inl rfl⟩
  | cons b rest ih =>
      rw [addressText, List.takeWhile_cons]
      split
      · obtain ⟨post, hsplit, hpost⟩ := ih
        exact ⟨post, congrArg (b :: ·) hsplit, hpost⟩
      · next hstop =>
          refine ⟨b :: rest, rfl, .inr ?_⟩
          simp only [decide_eq_true_eq, not_and, not_not] at hstop
          by_cases hb : b = 47
          · exact .inl (by rw [hb]; rfl)
          · exact .inr (by rw [hstop hb]; rfl)

theorem scan_all {body s : Bytes} (h : scanTailscaleIp body = some s) :
    s.all isAddressByte = true := by
  rw [scanTailscaleIp] at h
  split at h
  · cases h
  · simp only [] at h
    split at h
    · next hcheck =>
        cases h
        exact hcheck.1
    · cases h

theorem scan_of_ownAddressFirst {body : Bytes} (h : OwnAddressFirst body) :
    ∃ s, scanTailscaleIp body = some s ∧ (parseIpv4 s).isSome = true := by
  obtain ⟨pre, addr, post, hbody, hhead, hfirst, hpost, hip⟩ := h
  obtain ⟨v, hv⟩ := Option.isSome_iff_exists.mp hip
  obtain ⟨hall, hlen⟩ := parseIpv4_some hv
  have hdrop : body.drop pre.length = 34 :: (addr ++ post) := by
    rw [hbody, List.drop_left]
  have hdrop1 : body.drop (pre.length + 1) = addr ++ post := by
    rw [← List.drop_drop, hdrop]
    rfl
  have hpat : (body.drop pre.length).take 5 = pat := by
    rw [hdrop, List.take_succ_cons, List.take_append_of_le_length (by omega), hhead]
    rfl
  have hpos : position pat body = some pre.length :=
    (position_eq_some_iff (by decide)).mpr ⟨hpat, hfirst⟩
  refine ⟨addr, ?_, hip⟩
  rw [scanTailscaleIp, hpos]
  simp only [hdrop1, addressText_append hall hpost]
  exact if_pos ⟨hall, hlen⟩

theorem ownAddressFirst_of_scan {body s : Bytes} (h : scanTailscaleIp body = some s)
    (hip : (parseIpv4 s).isSome = true) : OwnAddressFirst body := by
  rw [scanTailscaleIp] at h
  split at h
  · cases h
  · next n hpos =>
      obtain ⟨hpat, hfirst⟩ := (position_eq_some_iff (by decide)).mp hpos
      simp only [] at h
      split at h
      · cases h
        have hdrop : body.drop n = pat ++ body.drop (n + 5) := by
          rw [← List.take_append_drop 5 (body.drop n), List.drop_drop]
          exact congrArg (· ++ body.drop (n + 5)) hpat
        have hn : n ≤ body.length := by
          by_contra hlong
          rw [List.drop_eq_nil_of_le (by omega)] at hdrop
          cases hdrop
        have hdrop1 : body.drop (n + 1) = [49, 48, 48, 46] ++ body.drop (n + 5) := by
          rw [← List.drop_drop, hdrop]
          rfl
        have htext : (addressText (body.drop (n + 1))).take 4 = [49, 48, 48, 46] := by
          rw [hdrop1]
          rfl
        obtain ⟨post, hsplit, hpost⟩ := addressText_split (body.drop (n + 1))
        refine ⟨body.take n, _, post, ?_, htext, ?_, hpost, hip⟩
        · rw [← hsplit, hdrop1]
          rw [show (34 : UInt8) :: ([49, 48, 48, 46] ++ body.drop (n + 5)) =
            pat ++ body.drop (n + 5) from rfl, ← hdrop, List.take_append_drop]
        · intro m hm
          rw [List.length_take] at hm
          exact hfirst m (by omega)
      · cases h

/-- A body that carries a packet filter yields one exactly when our own
address is the first text in it that looks like a Tailscale address. -/
theorem acl_present_iff (S : Serde) {body : Bytes} {rules : List FilterRule}
    (hfilter : S.filterResp body = some ⟨some rules⟩) {ip : Option Bytes}
    {peers : List PeerInfo} {allowed : Option (List Cidr)}
    (hok : fetchPeers S (.ok body) = .ok (ip, peers, allowed)) :
    allowed.isSome = true ↔ OwnAddressFirst body := by
  have hallowed : allowed = (scanTailscaleIp body).bind fun our =>
      parseAllowedSrcs S body our := by
    rw [fetchPeers] at hok
    split at hok
    · cases hok
    · cases hok
      rfl
  have hparse : ∀ our, our.all isAddressByte = true →
      (parseAllowedSrcs S body our).isSome = (parseIpv4 our).isSome := by
    intro our hall
    rw [← parseCidr_own hall, parseAllowedSrcs, hfilter]
    cases parseCidr (our ++ ascii "/32") <;> rfl
  rw [hallowed]
  refine ⟨?_, ?_⟩
  · intro hsome
    obtain ⟨a, ha⟩ := Option.isSome_iff_exists.mp hsome
    obtain ⟨our, hscan, hsrcs⟩ := Option.bind_eq_some_iff.mp ha
    refine ownAddressFirst_of_scan hscan ?_
    rw [← hparse our (scan_all hscan), hsrcs]
    rfl
  · intro hown
    obtain ⟨our, hscan, hip⟩ := scan_of_ownAddressFirst hown
    rw [hscan, Option.bind_some, hparse our (scan_all hscan)]
    exact hip

section Bodies

/-- What `serde_json` makes of the two bodies below: no peers, no rules. -/
def emptySerde : Serde := ⟨fun _ => some ⟨some []⟩, fun _ => some ⟨some []⟩⟩

/-- A map for a machine whose host name is `100`. -/
def hostname100 : Bytes :=
  ascii "\x7b\"Node\":\x7b\"Name\":\"100.tail.ts.net.\",\"Addresses\":[\"100.65.1.2/32\"]\x7d" ++
    ascii ",\"PacketFilter\":[],\"Peers\":[]\x7d"

/-- The filter is there, and it is off. -/
theorem hostname100_allows_all :
    emptySerde.filterResp hostname100 = some ⟨some []⟩ ∧
    fetchPeers emptySerde (.ok hostname100) = .ok (none, [], none) := by
  have hscan : scanTailscaleIp hostname100 = none := by decide +kernel
  refine ⟨rfl, ?_⟩
  rw [fetchPeers, hscan]
  rfl

/-- The same map for a machine with another name. -/
def hostnameBox : Bytes :=
  ascii "\x7b\"Node\":\x7b\"Name\":\"box.tail.ts.net.\",\"Addresses\":[\"100.65.1.2/32\"]\x7d" ++
    ascii ",\"PacketFilter\":[],\"Peers\":[]\x7d"

theorem acl_present_iff_box :
    fetchPeers emptySerde (.ok hostnameBox) = .ok (some (ascii "100.65.1.2"), [], some []) ∧
    OwnAddressFirst hostnameBox := by
  have hscan : scanTailscaleIp hostnameBox = some (ascii "100.65.1.2") := by decide +kernel
  have hsrcs : parseAllowedSrcs emptySerde hostnameBox (ascii "100.65.1.2") = some [] := by
    decide +kernel
  have hok : fetchPeers emptySerde (.ok hostnameBox) =
      .ok (some (ascii "100.65.1.2"), [], some []) := by
    rw [fetchPeers, hscan, Option.bind_some, hsrcs]
    rfl
  exact ⟨hok, (acl_present_iff emptySerde rfl hok).mp rfl⟩

end Bodies

/-! ## The length in front of the body -/

section WirePrefix

variable {b : Bytes}

/-- A body is told from four bytes and a body by the first of the four. -/
theorem stripWirePrefix_iff {four : Bytes} (hfour : four.length = 4)
    (hb : b.head? = some H2.openBrace) :
    H2.stripWirePrefix (four ++ b) = b ↔ byteAt four 0 ≠ H2.openBrace := by
  obtain ⟨rest, rfl⟩ : ∃ rest, b = H2.openBrace :: rest := List.head?_eq_some_iff.mp hb
  obtain ⟨x, more, rfl⟩ : ∃ x more, four = x :: more :=
    List.exists_cons_of_length_pos (by omega)
  have hmore : more.length = 3 := by simpa using hfour
  have hbrace : byteAt (x :: more ++ H2.openBrace :: rest) 4 = H2.openBrace := by
    simp [byteAt, hmore]
  rw [H2.stripWirePrefix]
  split
  · next h =>
      refine iff_of_true ?_ h.2.1
      rw [← hfour]
      exact List.drop_left
  · next h =>
      have hx : byteAt (x :: more) 0 = H2.openBrace := by
        by_contra hne
        exact h ⟨by simp [hmore]; omega, hne, hbrace⟩
      refine iff_of_false (fun heq => ?_) (not_not.mpr hx)
      have hlen := congrArg List.length heq
      simp only [List.length_append, hfour] at hlen
      omega

/-- The first byte of a length, in either order. -/
theorem byteAt_length_first (n : Nat) :
    byteAt (leBytes 4 n) 0 = UInt8.ofNat n ∧
    byteAt (beBytes 4 n) 0 = UInt8.ofNat (n / 2 ^ 24) := by
  refine ⟨rfl, ?_⟩
  simp [beBytes, leBytes, byteAt, Nat.div_div_eq_div_mul]

theorem ofNat_ne_openBrace_iff (n : Nat) : UInt8.ofNat n ≠ H2.openBrace ↔ n % 256 ≠ 123 :=
  not_congr (UInt8.ofNat_eq_iff_mod_eq_toNat n H2.openBrace)

/-- A JSON object gets through with its length in front exactly if the byte
of the length that comes first is no brace, and always without. -/
theorem wire_prefix_removed_iff (b : Bytes) (hb : b.head? = some H2.openBrace) :
    (H2.stripWirePrefix (leBytes 4 b.length ++ b) = b ↔ b.length % 256 ≠ 123) ∧
    (H2.stripWirePrefix (beBytes 4 b.length ++ b) = b ↔ b.length / 2 ^ 24 % 256 ≠ 123) ∧
    H2.stripWirePrefix b = b := by
  obtain ⟨hle, hbe⟩ := byteAt_length_first b.length
  refine ⟨?_, ?_, ?_⟩
  · rw [stripWirePrefix_iff length_leBytes hb, hle, ofNat_ne_openBrace_iff]
  · rw [stripWirePrefix_iff length_beBytes hb, hbe, ofNat_ne_openBrace_iff]
  · obtain ⟨rest, rfl⟩ : ∃ rest, b = H2.openBrace :: rest := List.head?_eq_some_iff.mp hb
    rw [H2.stripWirePrefix, if_neg]
    intro h
    exact h.2.1 rfl

/-- An object of 123 bytes, nearly all of them blanks. -/
def object123 : Bytes := H2.openBrace :: (List.replicate 121 32 ++ [0x7d])

theorem object123_keeps_prefix :
    object123.head? = some H2.openBrace ∧
    H2.stripWirePrefix (leBytes 4 object123.length ++ object123) ≠ object123 := by
  decide +kernel

theorem wire_prefix_removed_short :
    ∃ b : Bytes, b.head? = some H2.openBrace ∧
      H2.stripWirePrefix (leBytes 4 b.length ++ b) = b ∧
      H2.stripWirePrefix (beBytes 4 b.length ++ b) = b ∧ H2.stripWirePrefix b = b := by
  obtain ⟨hle, hbe, halone⟩ := wire_prefix_removed_iff [H2.openBrace, 0x7d] rfl
  exact ⟨_, rfl, hle.mpr (by decide), hbe.mpr (by decide), halone⟩

end WirePrefix

end TailscaleRust.Proofs
