import TailscaleRust.Core.Icmp
import TailscaleRust.Lib.OnesComplement

/-!
# The checksum loops compute one's-complement sums

The loops add the words of a packet in 32 bits and fold the carries at the
end, in at most three passes. As long as the packet is no longer than an IP
packet can be, nothing is lost on the way, and `finish` is the complement of
the one's-complement sum. A checksum written into a field that was zero then
makes the whole verify.
-/

namespace TailscaleRust.Proofs

open TailscaleRust.Lib TailscaleRust.Lib.OnesComplement TailscaleRust.Core

/-- The sum of the words of a byte string, without any carry folded. -/
def wordSum (b : Bytes) : Nat := (words b).sum

theorem wordSum_le (b : Bytes) : wordSum b ≤ (b.length + 1) / 2 * 65535 := sum_words_le b

theorem wordSum_append {a : Bytes} (h : a.length % 2 = 0) (b : Bytes) :
    wordSum (a ++ b) = wordSum a + wordSum b := by
  rw [wordSum, words_append h, List.sum_append]
  rfl

theorem sum16_toNat {data : Bytes} {sum : UInt32} (h : sum.toNat + wordSum data < 2 ^ 32) :
    (sum16 data sum).toNat = sum.toNat + wordSum data := by
  induction data, sum using sum16.induct with
  | case1 a b rest sum ih =>
      have ha := a.toNat_lt
      have hb := b.toNat_lt
      have hword : wordSum (a :: b :: rest) = a.toNat * 256 + b.toNat + wordSum rest := by
        rw [wordSum, words, List.sum_cons]
        rfl
      have hstep : (sum + (a.toUInt32 <<< 8) + b.toUInt32).toNat =
          sum.toNat + (a.toNat * 256 + b.toNat) := by
        rw [hword] at h
        simp [Nat.shiftLeft_eq]
        omega
      rw [hword] at h
      rw [sum16, ih (by rw [hstep]; omega), hstep, hword]
      omega
  | case2 a sum =>
      have ha := a.toNat_lt
      have hword : wordSum [a] = a.toNat * 256 := by simp [wordSum, words]
      rw [hword] at h ⊢
      rw [sum16]
      simp [Nat.shiftLeft_eq]
      omega
  | case3 sum => rw [sum16, wordSum, words, List.sum_nil, Nat.add_zero]

/-- A whole word count may be summed in two parts. -/
theorem sum16_append {a : Bytes} (h : a.length % 2 = 0) (b : Bytes) (sum : UInt32) :
    sum16 (a ++ b) sum = sum16 b (sum16 a sum) := by
  induction a, sum using sum16.induct with
  | case1 x y rest sum ih =>
      rw [List.length_cons, List.length_cons] at h
      rw [List.cons_append, List.cons_append, sum16, sum16, ih (by omega)]
  | case2 x sum => simp at h
  | case3 sum => rfl

theorem foldCarry_toNat (sum : UInt32) :
    (foldCarry sum).toNat = sum.toNat % 65536 + sum.toNat / 65536 := by
  have hs := sum.toNat_lt
  have hlow : (sum &&& (0xffff : UInt32)).toNat = sum.toNat % 65536 := by
    rw [UInt32.toNat_and]
    exact Nat.and_two_pow_sub_one_eq_mod sum.toNat 16
  have hhigh : (sum >>> 16).toNat = sum.toNat / 65536 := by
    simp [Nat.shiftRight_eq_div_pow]
  rw [foldCarry, UInt32.toNat_add, hlow, hhigh]
  omega

theorem shiftRight_ne_zero_iff (sum : UInt32) : sum >>> 16 ≠ 0 ↔ 65536 ≤ sum.toNat := by
  have hhigh : (sum >>> 16).toNat = sum.toNat / 65536 := by
    simp [Nat.shiftRight_eq_div_pow]
  rw [ne_eq, ← UInt32.toNat_inj, hhigh, UInt32.toNat_zero]
  omega

/-- A pass of the carry loop does not change what the sum folds to. -/
theorem residue_foldCarry (sum : UInt32) :
    residue 65535 (foldCarry sum).toNat = residue 65535 sum.toNat := by
  rw [foldCarry_toNat]
  by_cases hzero : sum.toNat % 65536 + sum.toNat / 65536 = 0
  · rw [show sum.toNat = 0 by omega]
  · rw [← residue_add_mul hzero (sum.toNat / 65536)]
    congr 1
    omega

theorem residue_foldCarries (fuel : Nat) (sum : UInt32) :
    residue 65535 (foldCarries fuel sum).toNat = residue 65535 sum.toNat := by
  induction fuel generalizing sum with
  | zero => rfl
  | succ fuel ih =>
      rw [foldCarries]
      split
      · rw [ih, residue_foldCarry]
      · rfl

/-- The loop stops where there is no carry. -/
theorem foldCarries_of_lt {sum : UInt32} (fuel : Nat) (h : sum.toNat < 65536) :
    foldCarries fuel sum = sum := by
  cases fuel with
  | zero => rfl
  | succ fuel => rw [foldCarries, if_neg (by rw [shiftRight_ne_zero_iff]; omega)]

/-- One pass leaves at most one carry more than fits, and every pass after it
one less. -/
theorem foldCarries_lt (sum : UInt32) : (foldCarries 3 sum).toNat < 65536 := by
  have hs := sum.toNat_lt
  have hpass : ∀ (fuel : Nat) (s : UInt32), 65536 ≤ s.toNat →
      foldCarries (fuel + 1) s = foldCarries fuel (foldCarry s) := by
    intro fuel s hle
    rw [foldCarries, if_pos ((shiftRight_ne_zero_iff s).mpr hle)]
  have h1 := foldCarry_toNat sum
  have h2 := foldCarry_toNat (foldCarry sum)
  have h3 := foldCarry_toNat (foldCarry (foldCarry sum))
  rcases Nat.lt_or_ge sum.toNat 65536 with hlt | hge
  · rwa [foldCarries_of_lt 3 hlt]
  rw [hpass 2 sum hge]
  rcases Nat.lt_or_ge (foldCarry sum).toNat 65536 with hlt | hge
  · rwa [foldCarries_of_lt 2 hlt]
  rw [hpass 1 _ hge]
  rcases Nat.lt_or_ge (foldCarry (foldCarry sum)).toNat 65536 with hlt | hge
  · rwa [foldCarries_of_lt 1 hlt]
  rw [hpass 0 _ hge, foldCarries_of_lt 0 (by omega)]
  omega

theorem foldCarries_add (n m : Nat) (sum : UInt32) :
    foldCarries (n + m) sum = foldCarries m (foldCarries n sum) := by
  induction n generalizing sum with
  | zero => rw [Nat.zero_add, foldCarries]
  | succ n ih =>
      rw [Nat.succ_add, foldCarries, foldCarries]
      split
      · exact ih (foldCarry sum)
      · next hno =>
          rw [shiftRight_ne_zero_iff] at hno
          exact (foldCarries_of_lt m (by omega)).symm

/-- `finish` is the complement of what the sum folds to. -/
theorem finish_toNat (sum : UInt32) : (finish sum).toNat = 65535 - residue 65535 sum.toNat := by
  have hlt := foldCarries_lt sum
  have hfold : (foldCarries 3 sum).toNat = residue 65535 sum.toNat := by
    rw [← residue_foldCarries 3 sum, residue_of_le (by omega)]
  have hnot : (~~~ (foldCarries 3 sum).toUInt16).toNat =
      65535 - (foldCarries 3 sum).toNat % 65536 := by
    rw [UInt16.toNat_not, UInt32.toNat_toUInt16]
    rfl
  rw [finish, hnot, Nat.mod_eq_of_lt hlt, hfold]

theorem length_pseudoHeader (src dst : Ipv4Addr) (proto : UInt8) (len : Nat) :
    (pseudoHeader src dst proto len).length = 12 := by
  simp [pseudoHeader, src.2, dst.2]

/-- The checksum in its place makes the whole verify. The field is at an even
offset, and the whole is no longer than a packet with its pseudo-header. -/
theorem verifies_finish {a b : Bytes} (ha : a.length % 2 = 0)
    (hlen : a.length + 2 + b.length ≤ 131000) :
    Verifies (a ++ be16 (finish (sum16 (a ++ [0, 0] ++ b) 0)) ++ b) := by
  apply verifies_of_complement ha
  have hle := wordSum_le (a ++ [0, 0] ++ b)
  have hlength : (a ++ [0, 0] ++ b).length = a.length + 2 + b.length := by
    simp only [List.length_append, List.length_cons, List.length_nil]
  rw [hlength] at hle
  rw [finish_toNat, sum16_toNat (by rw [UInt32.toNat_zero]; omega), UInt32.toNat_zero,
    Nat.zero_add, wordSum]

end TailscaleRust.Proofs
