import TailscaleRust.Firmware.Startup
import TailscaleRust.Proofs.Netmap

/-!
# The targets of the own LAN

`build_lan_targets` looks at text: it keeps the endpoints that begin with the
first three parts of our own address. That this is the /24 rests on the parser
of the standard library, which takes an address in one notation only, without
superfluous zeros. So the text of an endpoint begins with our three numbers
exactly if the endpoint it parses to has our three bytes, and nothing that
parses as IPv6 begins with a digit.
-/

namespace TailscaleRust.Proofs.LanTargets

open TailscaleRust.Lib TailscaleRust.Core TailscaleRust.Core.Wg TailscaleRust.Core.AddrText
open TailscaleRust.Core.Peers TailscaleRust.Core.Tcp
open TailscaleRust.Firmware TailscaleRust.Firmware.Dataplane TailscaleRust.Firmware.Startup

/-! ## What parses as an address -/

theorem decimal_eq (n : Nat) : decimal n = decimalDigits n := by
  rw [decimal, ascii, decimalDigits]
  show (String.ofList (Nat.toDigits 10 n)).toList.map _ = _
  rw [String.toList_ofList]

theorem readOctet_some {s rest : Bytes} {a : UInt8} (h : readOctet s = some (a, rest)) :
    s = decimal a.toNat ++ rest ∧ NoDigit 10 rest := by
  rw [readOctet, Option.map_eq_some_iff] at h
  obtain ⟨⟨n, rest'⟩, hread, heq⟩ := h
  cases heq
  obtain ⟨hs, hmax, hrest⟩ := (readNumber_ten_iff (by decide) (by decide)).mp hread
  rw [decimal_eq, UInt8.toNat_ofNat_of_lt' (by rw [UInt8.size]; omega)]
  exact ⟨hs, hrest⟩

theorem readGivenChar_some {c : UInt8} {s rest : Bytes} (h : readGivenChar c s = some rest) :
    s = c :: rest := by
  cases s with
  | nil => cases h
  | cons b s =>
      rw [readGivenChar] at h
      obtain ⟨hb, heq⟩ := Option.ite_none_right_eq_some.mp h
      cases heq
      rw [hb]

theorem readSeparator_succ {α : Type} {sep : UInt8} {i : Nat} {inner : Bytes → Option (α × Bytes)}
    {s rest : Bytes} {a : α} (h : readSeparator sep (i + 1) inner s = some (a, rest)) :
    ∃ s', s = sep :: s' ∧ inner s' = some (a, rest) := by
  rw [readSeparator, if_pos (Nat.succ_pos i)] at h
  obtain ⟨s', hsep, hinner⟩ := Option.bind_eq_some_iff.mp h
  exact ⟨s', readGivenChar_some hsep, hinner⟩

theorem ascii_dot : ascii "." = [46] := by decide

/-- An address is read in its own notation only. -/
theorem readIpv4Addr_some {s rest : Bytes} {ip : Ipv4Addr} (h : readIpv4Addr s = some (ip, rest)) :
    s = dotted ip ++ rest := by
  simp only [readIpv4Addr, bind, Option.bind_eq_some_iff, Prod.exists] at h
  obtain ⟨a, s₁, ha, b, s₂, hb, c, s₃, hc, d, s₄, hd, heq⟩ := h
  cases heq
  obtain ⟨hs, -⟩ := readOctet_some ha
  obtain ⟨s₁', rfl, hb⟩ := readSeparator_succ hb
  obtain ⟨hs₁, -⟩ := readOctet_some hb
  obtain ⟨s₂', rfl, hc⟩ := readSeparator_succ hc
  obtain ⟨hs₂, -⟩ := readOctet_some hc
  obtain ⟨s₃', rfl, hd⟩ := readSeparator_succ hd
  obtain ⟨hs₃, -⟩ := readOctet_some hd
  rw [hs, hs₁, hs₂, hs₃, dotted, ascii_dot]
  simp only [List.append_assoc, List.cons_append, List.nil_append]
  rfl

/-- What parses is an IPv4 address in front of a colon, or begins with a
bracket. -/
theorem parseSocketAddr_some {e : Bytes} {a : SocketAddr} (h : parseSocketAddr e = some a) :
    (∃ ip port rest, a = .v4 ip port ∧ e = dotted ip ++ 58 :: rest) ∨
    (∃ ip port flowinfo scopeId, a = .v6 ip port flowinfo scopeId ∧ e.head? = some 91) := by
  rw [parseSocketAddr] at h
  split at h
  · next a' hread =>
      cases h
      rw [readSocketAddr, Option.or_eq_some_iff] at hread
      rcases hread with hv4 | ⟨-, hv6⟩
      · simp only [readSocketAddrV4, readPort, bind, Option.bind_eq_some_iff, Prod.exists] at hv4
        obtain ⟨ip, s₁, hip, port, s₂, ⟨s₃, hcolon, -⟩, heq⟩ := hv4
        cases heq
        refine .inl ⟨ip, port, s₃, rfl, ?_⟩
        rw [readIpv4Addr_some hip, readGivenChar_some hcolon]
      · simp only [readSocketAddrV6, bind, Option.bind_eq_some_iff, Prod.exists] at hv6
        obtain ⟨s₁, hbracket, ip, s₂, -, s₃, -, port, s₄, -, heq⟩ := hv6
        cases heq
        refine .inr ⟨ip, port, 0, _, rfl, ?_⟩
        rw [readGivenChar_some hbracket]
        rfl
  · cases h

/-! ## The text filter is the /24 -/

/-- The address is in the /24 of ours. -/
def OnLan (our : Ipv4Addr) : SocketAddr → Prop
  | .v4 ip _ => slice ip.1 0 3 = slice our.1 0 3
  | .v6 .. => False

instance (our : Ipv4Addr) : DecidablePred (OnLan our) := fun a =>
  match a with
  | .v4 ip _ => inferInstanceAs (Decidable (slice ip.1 0 3 = slice our.1 0 3))
  | .v6 .. => inferInstanceAs (Decidable False)

/-- The first three numbers of an address, with their dots. -/
def lanText (ip : Ipv4Addr) : Bytes :=
  decimal (byteAt ip.1 0).toNat ++ 46 :: (decimal (byteAt ip.1 1).toNat ++
    46 :: (decimal (byteAt ip.1 2).toNat ++ [46]))

theorem dotted_eq (ip : Ipv4Addr) : dotted ip = lanText ip ++ decimal (byteAt ip.1 3).toNat := by
  rw [dotted, lanText, ascii_dot]
  simp only [List.append_assoc, List.cons_append, List.nil_append]

theorem dot_not_mem (n : Nat) : (46 : UInt8) ∉ decimal n := by
  rw [decimal_eq]
  exact not_mem_decimalDigits (by decide) n

theorem decimal_byte_inj {a b : UInt8} (h : decimal a.toNat = decimal b.toNat) : a = b := by
  rw [decimal_eq, decimal_eq] at h
  exact UInt8.toNat_inj.mp (decimalDigits_inj h)

theorem slice_three (ip : Ipv4Addr) :
    slice ip.1 0 3 = [byteAt ip.1 0, byteAt ip.1 1, byteAt ip.1 2] := by
  obtain ⟨b, hb⟩ := ip
  match b, hb with
  | [_, _, _, _], _ => rfl

/-- The text of an address begins with the three numbers of another exactly if
it has its three bytes. -/
theorem lanText_prefix_iff (our ip : Ipv4Addr) (rest : Bytes) :
    lanText our <+: dotted ip ++ rest ↔ slice ip.1 0 3 = slice our.1 0 3 := by
  rw [dotted_eq, slice_three, slice_three, lanText, lanText]
  simp only [List.append_assoc, List.cons_append, List.nil_append]
  rw [prefix_separated_iff (dot_not_mem _) (dot_not_mem _),
    prefix_separated_iff (dot_not_mem _) (dot_not_mem _),
    prefix_separated_iff (dot_not_mem _) (dot_not_mem _)]
  simp only [List.cons.injEq, and_true, List.nil_prefix]
  refine ⟨?_, ?_⟩
  · rintro ⟨h0, h1, h2⟩
    exact ⟨(decimal_byte_inj h0).symm, (decimal_byte_inj h1).symm, (decimal_byte_inj h2).symm⟩
  · rintro ⟨h0, h1, h2⟩
    rw [h0, h1, h2]
    exact ⟨rfl, rfl, rfl⟩

/-- Where an endpoint parses, its text passes the filter exactly if it is on
our /24. -/
theorem lanText_iff_onLan (our : Ipv4Addr) {e : Bytes} {a : SocketAddr}
    (h : parseSocketAddr e = some a) : lanText our <+: e ↔ OnLan our a := by
  rcases parseSocketAddr_some h with ⟨ip, port, rest, rfl, htext⟩ | ⟨ip, port, _, _, rfl, hhead⟩
  · rw [htext]
    exact lanText_prefix_iff our ip (58 :: rest)
  · -- a bracket is no digit
    refine ⟨?_, fun hlan => hlan.elim⟩
    rintro ⟨rest, hrest⟩
    have hne : lanText our ≠ [] := by
      rw [lanText]
      exact List.append_ne_nil_of_right_ne_nil _ (List.cons_ne_nil _ _)
    have hdigit := decimalDigits_digits (byteAt our.1 0).toNat
    rw [← hrest, List.head?_append_of_ne_nil _ hne, lanText, decimal_eq,
      List.head?_append_of_ne_nil _ (decimalDigits_ne_nil _)] at hhead
    have h91 := hdigit 91 (List.mem_of_head? hhead)
    exact absurd h91 (by decide)

/-! ## The targets -/

/-- The part of our address before its last dot, with the dot. -/
theorem rsplitOnce_dotted (our : Ipv4Addr) :
    ∃ net last, rsplitOnce 46 (dotted our) = some (net, last) ∧ net ++ ascii "." = lanText our := by
  obtain ⟨net, hnet⟩ : ∃ net, lanText our = net ++ [46] :=
    ⟨decimal (byteAt our.1 0).toNat ++ 46 :: (decimal (byteAt our.1 1).toNat ++
        46 :: decimal (byteAt our.1 2).toNat), by
      rw [lanText]
      simp only [List.append_assoc, List.cons_append]⟩
  have hreverse : (dotted our).reverse =
      (decimal (byteAt our.1 3).toNat).reverse ++ 46 :: net.reverse := by
    rw [dotted_eq, hnet]
    simp only [List.reverse_append, List.reverse_singleton, List.singleton_append]
  have hsplit : ∀ c ∈ (decimal (byteAt our.1 3).toNat).reverse, c ≠ 46 := by
    intro c hc heq
    rw [List.mem_reverse, heq] at hc
    exact dot_not_mem _ hc
  refine ⟨net, decimal (byteAt our.1 3).toNat, ?_, ?_⟩
  · rw [rsplitOnce, hreverse, splitOnce_append _ hsplit, Option.map_some, List.reverse_reverse,
      List.reverse_reverse]
  · rw [hnet, ascii_dot]

/-- The endpoints of a peer on our /24. -/
def lanEndpoints (our : Ipv4Addr) (p : PeerInfo) : List SocketAddr :=
  (p.endpoints.filterMap parseSocketAddr).filter fun a => OnLan our a

/-- The target that reaches a peer by them, if there are any. -/
def lanTarget (our : Ipv4Addr) (p : PeerInfo) : Option Target :=
  if lanEndpoints our p = [] then none
  else some
    { name := String.ofList (lossy p.hostname), discoPub := p.discoKey, nodePub := p.nodeKey
      endpoints := lanEndpoints our p, spray := false }

/-- Filtering the text and parsing is parsing and filtering the addresses. -/
theorem lanEndpoints_eq (our : Ipv4Addr) (eps : List Bytes) :
    (eps.filter fun e => (lanText our).isPrefixOf e).filterMap parseSocketAddr =
      (eps.filterMap parseSocketAddr).filter fun a => OnLan our a := by
  induction eps with
  | nil => rfl
  | cons e eps ih =>
      cases hparse : parseSocketAddr e with
      | none =>
          rw [List.filterMap_cons_none hparse, ← ih, List.filter_cons]
          split
          · rw [List.filterMap_cons_none hparse]
          · rfl
      | some a =>
          have hiff := lanText_iff_onLan our hparse
          rw [List.filterMap_cons_some hparse, List.filter_cons, List.filter_cons]
          by_cases hlan : OnLan our a
          · rw [if_pos (List.isPrefixOf_iff_prefix.mpr (hiff.mpr hlan)),
              if_pos (decide_eq_true hlan), List.filterMap_cons_some hparse, ih]
          · have hno : ¬(lanText our).isPrefixOf e = true := fun hpre =>
              hlan (hiff.mp (List.isPrefixOf_iff_prefix.mp hpre))
            rw [if_neg hno, if_neg (by rwa [decide_eq_true_eq]), ih]

/-- The targets `main` starts the data plane with are, for every peer list and
every address of ours, the peers with an endpoint on our /24, each with
exactly these endpoints, though they are told by their text. -/
theorem lan_targets_exact (peers : List PeerInfo) (our : Ipv4Addr) :
    buildLanTargets peers (dotted our) = peers.filterMap (lanTarget our) := by
  obtain ⟨net, last, hsplit, hnet⟩ := rsplitOnce_dotted our
  rw [buildLanTargets, hsplit]
  simp only [hnet, lanEndpoints_eq]
  rfl

end TailscaleRust.Proofs.LanTargets
