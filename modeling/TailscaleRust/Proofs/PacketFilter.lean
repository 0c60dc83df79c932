import TailscaleRust.Proofs.Netmap
import TailscaleRust.Strict.Peers

/-!
# What the packet filter admits

The rules of the netmap have a plain meaning: a rule lets a source in if one
of its destinations covers us and one of its sources covers the source, and
an address pattern covers what agrees with it on the bits of its prefix.
`parse_allowed_srcs` computes something else, one flat list of networks and
masks without the rules they came from, and `cidr_match` compares under the
masks. The two agree on every source. Under its checks the same code never
panics, so no shift is out of range.
-/

namespace TailscaleRust.Proofs

open TailscaleRust.Lib TailscaleRust.Core TailscaleRust.Core.Peers

/-! ## The meaning of a rule -/

/-- The first `k` of the 32 bits agree. -/
def AgreeOn (k : Nat) (x a : UInt32) : Prop :=
  ∀ i < k, x.toNat.testBit (31 - i) = a.toNat.testBit (31 - i)

/-- An address, or an address with the length of a prefix; a text that is
neither covers nothing. -/
def PatternCovers (s : Bytes) (x : UInt32) : Prop :=
  match splitOnce 47 s with
  | none => ∃ a, parseIpv4 s = some a ∧ AgreeOn 32 x (u32be a.1 0)
  | some (ip, len) => ∃ a n, parseIpv4 ip = some a ∧ parseU32 len = some n ∧
      AgreeOn (min n.toNat 32) x (u32be a.1 0)

def RuleCoversUs (rule : FilterRule) (our : UInt32) : Prop :=
  ∃ d ∈ rule.dstPorts.getD [], ∃ ip, d.ip = some ip ∧ (ip = star ∨ PatternCovers ip our)

def RuleCoversSource (rule : FilterRule) (src : UInt32) : Prop :=
  ∃ s ∈ rule.srcIps.getD [], s = star ∨ PatternCovers s src

/-! ## Masks -/

theorem toNat_min32 (n : UInt32) : (min n 32).toNat = min n.toNat 32 := by
  show (if n ≤ 32 then n else 32).toNat = _
  split
  · next h =>
      have hle : n.toNat ≤ 32 := UInt32.le_iff_toNat_le.mp h
      omega
  · next h =>
      have hgt : ¬n.toNat ≤ 32 := fun hle => h (UInt32.le_iff_toNat_le.mpr hle)
      show 32 = _
      omega

/-- The shift that makes a mask: neither the subtraction nor the shift is
out of range. -/
theorem mask_shift {n : UInt32} (h : n ≠ 0) :
    min n 32 ≤ 32 ∧ (32 - min n 32).toNat = 32 - min n.toNat 32 ∧
      (32 - min n 32).toNat < 32 := by
  have hpos : n.toNat ≠ 0 := fun h0 => h (UInt32.toNat_inj.mp h0)
  have hle : min n 32 ≤ 32 := by
    rw [UInt32.le_iff_toNat_le, toNat_min32]
    exact Nat.min_le_right _ _
  have hsub : (32 - min n 32).toNat = 32 - min n.toNat 32 := by
    rw [UInt32.toNat_sub_of_le _ _ hle, toNat_min32]
    rfl
  refine ⟨hle, hsub, ?_⟩
  omega

theorem testBit_maskOf (n : UInt32) {j : Nat} (hj : j < 32) :
    (maskOf n).toNat.testBit j = decide (32 - min n.toNat 32 ≤ j) := by
  rw [maskOf]
  split
  · next h =>
      subst h
      rw [UInt32.toNat_zero, Nat.zero_testBit, Nat.zero_min]
      exact (decide_eq_false (by omega)).symm
  · next h =>
      obtain ⟨-, hsub, hlt⟩ := mask_shift h
      have hones : (0xffffffff : UInt32).toNat = 2 ^ 32 - 1 := rfl
      rw [UInt32.toNat_shiftLeft, Nat.mod_eq_of_lt (a := (32 - min n 32).toNat) hlt, hsub,
        Nat.testBit_mod_two_pow, Nat.testBit_shiftLeft, decide_eq_true hj, Bool.true_and,
        hones, Nat.testBit_two_pow_sub_one, decide_eq_true (show j - _ < 32 by omega),
        Bool.and_true]

/-- Comparing under a mask is comparing the bits of the prefix. -/
theorem mask_agree_iff (n x a : UInt32) :
    x &&& maskOf n = a &&& maskOf n ↔ AgreeOn (min n.toNat 32) x a := by
  have hbit : ∀ (y : UInt32) {j : Nat}, j < 32 → (y &&& maskOf n).toNat.testBit j =
      (y.toNat.testBit j && decide (32 - min n.toNat 32 ≤ j)) := by
    intro y j hj
    rw [UInt32.toNat_and, Nat.testBit_and, testBit_maskOf n hj]
  refine ⟨?_, ?_⟩
  · intro heq i hi
    have hj := congrArg (fun y : UInt32 => y.toNat.testBit (31 - i)) heq
    simp only [hbit x (show 31 - i < 32 by omega), hbit a (show 31 - i < 32 by omega)] at hj
    rwa [decide_eq_true (show 32 - min n.toNat 32 ≤ 31 - i by omega), Bool.and_true,
      Bool.and_true] at hj
  · intro hagree
    apply UInt32.toNat_inj.mp
    apply Nat.eq_of_testBit_eq
    intro j
    by_cases hj : j < 32
    · rw [hbit x hj, hbit a hj]
      by_cases hle : 32 - min n.toNat 32 ≤ j
      · have hi := hagree (31 - j) (by omega)
        rw [show 31 - (31 - j) = j by omega] at hi
        rw [hi]
      · rw [decide_eq_false hle, Bool.and_false, Bool.and_false]
    · have hhigh : ∀ y : UInt32, y.toNat.testBit j = false := by
        intro y
        have hpow : 2 ^ 32 ≤ 2 ^ j := Nat.pow_le_pow_right (by omega) (by omega)
        exact Nat.testBit_lt_two_pow (Nat.lt_of_lt_of_le y.toNat_lt hpow)
      rw [hhigh, hhigh]

/-! ## Patterns, sources and destinations -/

theorem cidrContains_iff (s : Bytes) (x : UInt32) :
    cidrContains (parseCidr s) x = true ↔ PatternCovers s x := by
  rw [parseCidr, PatternCovers]
  cases splitOnce 47 s with
  | none =>
      simp only []
      cases parseIpv4 s with
      | none => simp [cidrContains]
      | some a =>
          simp only [Option.map_some, cidrContains, decide_eq_true_eq, mask_agree_iff]
          refine ⟨fun h => ⟨a, rfl, h⟩, fun h => ?_⟩
          obtain ⟨a', ha, h⟩ := h
          cases ha
          exact h
  | some parts =>
      obtain ⟨ip, len⟩ := parts
      simp only []
      cases parseU32 len with
      | none => simp [cidrContains]
      | some n =>
          simp only [Option.map_some]
          cases parseIpv4 ip with
          | none => simp [cidrContains]
          | some a =>
              simp only [Option.map_some, cidrContains, decide_eq_true_eq, mask_agree_iff]
              refine ⟨fun h => ⟨a, n, rfl, rfl, h⟩, fun h => ?_⟩
              obtain ⟨a', n', ha, hn, h⟩ := h
              cases ha
              cases hn
              exact h

theorem coversUs_iff (rule : FilterRule) (our : UInt32) :
    coversUs rule our = true ↔ RuleCoversUs rule our := by
  rw [coversUs, RuleCoversUs, List.any_eq_true]
  refine ⟨?_, ?_⟩
  · intro h
    obtain ⟨ip, hip, hcov⟩ := h
    obtain ⟨d, hd, hdip⟩ := List.mem_filterMap.mp hip
    refine ⟨d, hd, ip, hdip, ?_⟩
    rwa [decide_eq_true_eq, cidrContains_iff] at hcov
  · intro h
    obtain ⟨d, hd, ip, hdip, hcov⟩ := h
    refine ⟨ip, List.mem_filterMap.mpr ⟨d, hd, hdip⟩, ?_⟩
    rwa [decide_eq_true_eq, cidrContains_iff]

/-- The networks of a rule match what its sources cover. -/
theorem cidrMatch_ruleSrcs_iff (rule : FilterRule) (src : UInt32) :
    cidrMatch (ruleSrcs rule) src = true ↔ RuleCoversSource rule src := by
  have hone : ∀ s : Bytes, (∃ c, (if s = star then some (0, 0) else parseCidr s) = some c ∧
      src &&& c.2 = c.1 &&& c.2) ↔ s = star ∨ PatternCovers s src := by
    intro s
    rw [← cidrContains_iff]
    split
    · next hstar =>
        refine iff_of_true ⟨_, rfl, ?_⟩ (.inl hstar)
        rw [UInt32.and_zero, UInt32.and_zero]
    · next hstar =>
        cases parseCidr s with
        | none => simp [cidrContains, hstar]
        | some c => simp [cidrContains, hstar]
  rw [cidrMatch, ruleSrcs, RuleCoversSource, List.any_eq_true]
  refine ⟨?_, ?_⟩
  · intro h
    obtain ⟨c, hc, hmatch⟩ := h
    obtain ⟨s, hs, hsc⟩ := List.mem_filterMap.mp hc
    exact ⟨s, hs, (hone s).mp ⟨c, hsc, of_decide_eq_true hmatch⟩⟩
  · intro h
    obtain ⟨s, hs, hcov⟩ := h
    obtain ⟨c, hsc, hmatch⟩ := (hone s).mpr hcov
    exact ⟨c, List.mem_filterMap.mpr ⟨s, hs, hsc⟩, decide_eq_true hmatch⟩

/-! ## No check fails -/

theorem maskOf_checked (n : UInt32) : Strict.maskOf n = .ok (Peers.maskOf n) := by
  rw [Strict.maskOf, Peers.maskOf]
  split
  · rfl
  · next h =>
      obtain ⟨hle, -, hlt⟩ := mask_shift h
      rw [Checked.subU32_ok hle, Checked.ok_bind,
        Checked.shlU32_ok (UInt32.lt_iff_toNat_lt.mpr hlt)]

theorem parseCidr_checked (s : Bytes) : Strict.parseCidr s = .ok (Peers.parseCidr s) := by
  have hmask : ∀ (v : Ipv4Addr) (bits : UInt32),
      (do return some (u32be v.1 0, ← Strict.maskOf bits) : Checked (Option Cidr)) =
        .ok (some (u32be v.1 0, Peers.maskOf bits)) := by
    intro v bits
    rw [maskOf_checked, Checked.ok_bind]
    rfl
  rw [Strict.parseCidr, Peers.parseCidr]
  cases splitOnce 47 s with
  | none =>
      simp only []
      cases parseIpv4 s with
      | none => rfl
      | some v => exact hmask v 32
  | some parts =>
      obtain ⟨ip, len⟩ := parts
      simp only []
      cases parseU32 len with
      | none => rfl
      | some bits =>
          simp only [Option.map_some]
          cases parseIpv4 ip with
          | none => rfl
          | some v => exact hmask v bits

theorem coversAny_checked (our : UInt32) (ips : List Bytes) :
    Strict.coversAny our ips =
      .ok (ips.any fun ip => ip = star ∨ cidrContains (Peers.parseCidr ip) our) := by
  induction ips with
  | nil => rfl
  | cons ip rest ih =>
      rw [Strict.coversAny, List.any_cons]
      by_cases hstar : ip = star
      · rw [if_pos hstar, decide_eq_true (.inl hstar), Bool.true_or]
        rfl
      · rw [if_neg hstar, parseCidr_checked, Checked.ok_bind]
        cases hcov : cidrContains (Peers.parseCidr ip) our with
        | true =>
            rw [if_pos rfl, decide_eq_true (.inr rfl), Bool.true_or]
            rfl
        | false =>
            rw [if_neg Bool.false_ne_true, ih,
              decide_eq_false (by simp [hstar]), Bool.false_or]

theorem ruleSrcs_checked (srcs : List Bytes) :
    Strict.ruleSrcs srcs =
      .ok (srcs.filterMap fun s => if s = star then some (0, 0) else Peers.parseCidr s) := by
  induction srcs with
  | nil => rfl
  | cons s rest ih =>
      rw [Strict.ruleSrcs, List.filterMap_cons]
      by_cases hstar : s = star
      · rw [if_pos hstar, if_pos hstar, ih]
        rfl
      · rw [if_neg hstar, if_neg hstar, parseCidr_checked, Checked.ok_bind]
        cases Peers.parseCidr s with
        | none => exact ih
        | some c =>
            simp only [ih, Checked.ok_bind]
            rfl

theorem allowedLoop_checked (our : UInt32) (rules : List FilterRule) :
    Strict.allowedLoop our rules =
      .ok ((rules.filter fun rule => coversUs rule our).flatMap Peers.ruleSrcs) := by
  induction rules with
  | nil => rfl
  | cons rule rest ih =>
      have hcov : Strict.coversAny our ((rule.dstPorts.getD []).filterMap NetPortRange.ip) =
          .ok (coversUs rule our) := coversAny_checked our _
      rw [Strict.allowedLoop, hcov, Checked.ok_bind, List.filter_cons]
      split
      · rw [ruleSrcs_checked, Checked.ok_bind, ih, List.flatMap_cons]
        rfl
      · exact ih

theorem parseAllowedSrcs_checked (S : Serde) (raw ourIp : Bytes) :
    Strict.parseAllowedSrcs S raw ourIp = .ok (Peers.parseAllowedSrcs S raw ourIp) := by
  rw [Strict.parseAllowedSrcs, Peers.parseAllowedSrcs]
  cases S.filterResp raw with
  | none => rfl
  | some f =>
      cases hrules : f.packetFilter with
      | none =>
          simp only [hrules]
          rfl
      | some rules =>
          simp only [hrules, parseCidr_checked, Checked.ok_bind]
          cases Peers.parseCidr (ourIp ++ ascii "/32") with
          | none => rfl
          | some our =>
              simp only [allowedLoop_checked, Checked.ok_bind]
              rfl

/-! ## The whole filter -/

/-- The filter of the source is present and admits exactly what the rules
say. Whatever the length of a prefix, no shift is out of range, and so the
code with its checks computes the same masks and the same filter. -/
theorem filter_admits_iff (S : Serde) (raw ourIp : Bytes) (rules : List FilterRule)
    (our : Ipv4Addr) (hfilter : S.filterResp raw = some ⟨some rules⟩)
    (hour : parseIpv4 ourIp = some our) :
    (∃ c, parseAllowedSrcs S raw ourIp = some c ∧
      ∀ src : UInt32, cidrMatch c src = true ↔
        ∃ rule ∈ rules, RuleCoversUs rule (u32be our.1 0) ∧ RuleCoversSource rule src) ∧
    (∀ n : UInt32, Strict.maskOf n = .ok (maskOf n)) ∧
    Strict.parseAllowedSrcs S raw ourIp = .ok (parseAllowedSrcs S raw ourIp) := by
  refine ⟨?_, maskOf_checked, parseAllowedSrcs_checked S raw ourIp⟩
  have hown := parseCidr_slash32 (parseIpv4_some hour).1
  rw [hour, Option.map_some] at hown
  refine ⟨(rules.filter fun rule => coversUs rule (u32be our.1 0)).flatMap ruleSrcs, ?_, ?_⟩
  · rw [parseAllowedSrcs, hfilter]
    simp only [hown]
  · intro src
    rw [cidrMatch, List.any_flatMap, List.any_filter, List.any_eq_true]
    refine exists_congr fun rule => and_congr_right fun _ => ?_
    rw [Bool.and_eq_true, coversUs_iff]
    exact and_congr_right fun _ => cidrMatch_ruleSrcs_iff rule src

/-- One rule lets the private class A network in to us, one only IPv6, and
one lets everybody in to another address. -/
def threeRules : List FilterRule :=
  [⟨some [ascii "10.0.0.0/8"], some [⟨some star⟩]⟩,
    ⟨some [ascii "fd7a::/48"], some [⟨some star⟩]⟩,
    ⟨some [star], some [⟨some (ascii "100.64.0.2/40")⟩]⟩]

/-- 10.1.2.3 is let in, and 192.168.1.8 is not. -/
theorem filter_admits_ten :
    ∃ c, parseAllowedSrcs ⟨fun _ => none, fun _ => some ⟨some threeRules⟩⟩ []
        (ascii "100.64.0.1") = some c ∧
      cidrMatch c 0x0a010203 = true ∧ cidrMatch c 0xc0a80108 = false := by
  obtain ⟨c, hc, hiff⟩ := (filter_admits_iff ⟨fun _ => none, fun _ => some ⟨some threeRules⟩⟩
    [] (ascii "100.64.0.1") threeRules ⟨[100, 64, 0, 1], rfl⟩ rfl (by decide)).1
  have hten : RuleCoversUs ⟨some [ascii "10.0.0.0/8"], some [⟨some star⟩]⟩ 0x64400001 ∧
      RuleCoversSource ⟨some [ascii "10.0.0.0/8"], some [⟨some star⟩]⟩ 0x0a010203 := by
    refine ⟨⟨_, List.mem_cons_self, _, rfl, .inl rfl⟩, _, List.mem_cons_self,
      .inr ⟨⟨[10, 0, 0, 0], rfl⟩, 8, by decide, by decide, ?_⟩⟩
    unfold AgreeOn
    decide
  refine ⟨c, hc, (hiff 0x0a010203).mpr ⟨_, List.mem_cons_self, hten⟩, ?_⟩
  rw [show c = [(0x0a000000, 0xff000000)] from Option.some.inj (hc.symm.trans (by decide))]
  decide

end TailscaleRust.Proofs
