import TailscaleRust.Lib.Bytes
import Mathlib.Algebra.BigOperators.Group.List.Basic
import Mathlib.Algebra.Order.BigOperators.Group.List

/-!
# One's-complement sums

Numbers up to an all-ones value `m`, added with end-around carry: what
overflows past `m` is added back at the low end. A sum of any length folds
to one of these numbers, `residue`, which is zero only if every summand is
and otherwise the one from `1` to `m` that is congruent to the sum modulo
`m`. So it does not matter when the carries are folded, and the complement
of a sum, added to it, gives all ones.
-/

namespace TailscaleRust.Lib.OnesComplement

section Fold

variable {m : Nat}

/-- Addition with end-around carry. -/
def add (m a b : Nat) : Nat := if a + b ≤ m then a + b else a + b - m

/-- The sum of a list, the carry folded at every step. -/
def sum (m : Nat) (ws : List Nat) : Nat := ws.foldl (add m) 0

/-- What a number folds to. -/
def residue (m n : Nat) : Nat := if n = 0 then 0 else (n - 1) % m + 1

theorem residue_le (hm : 0 < m) (n : Nat) : residue m n ≤ m := by
  rw [residue]
  split
  · omega
  · exact Nat.mod_lt _ hm

theorem residue_of_le {n : Nat} (h : n ≤ m) : residue m n = n := by
  rw [residue]
  split
  · omega
  · rw [Nat.mod_eq_of_lt (by omega)]
    omega

theorem residue_add_self {n : Nat} (h : n ≠ 0) : residue m (n + m) = residue m n := by
  rw [residue, residue, if_neg h, if_neg (by omega), show n + m - 1 = n - 1 + m by omega,
    Nat.add_mod_right]

/-- A number and what it folds to differ by a multiple of `m`. -/
theorem eq_residue_add (m n : Nat) : ∃ k, n = residue m n + k * m := by
  rw [residue]
  split
  · exact ⟨0, by omega⟩
  · refine ⟨(n - 1) / m, ?_⟩
    have hdiv := Nat.mod_add_div (n - 1) m
    rw [Nat.mul_comm m] at hdiv
    omega

theorem residue_add_mul {n : Nat} (h : n ≠ 0) (k : Nat) :
    residue m (n + k * m) = residue m n := by
  induction k with
  | zero => rw [Nat.zero_mul, Nat.add_zero]
  | succ k ih =>
      rw [Nat.succ_mul, ← Nat.add_assoc, residue_add_self (by omega), ih]

/-- Folding before or after an addition makes no difference. -/
theorem residue_residue_add (a b : Nat) : residue m (residue m a + b) = residue m (a + b) := by
  by_cases ha : a = 0
  · subst ha
    rfl
  · obtain ⟨k, hk⟩ := eq_residue_add m a
    have hpos : residue m a ≠ 0 := by
      rw [residue, if_neg ha]
      omega
    calc residue m (residue m a + b)
        = residue m (residue m a + b + k * m) := (residue_add_mul (by omega) k).symm
      _ = residue m (a + b) := by rw [Nat.add_right_comm, ← hk]

theorem add_eq_residue {a b : Nat} (ha : a ≤ m) (hb : b ≤ m) : add m a b = residue m (a + b) := by
  rw [add]
  split
  · next h => exact (residue_of_le h).symm
  · next h =>
      have hsub : a + b = a + b - m + m := by omega
      rw [hsub, residue_add_self (by omega), residue_of_le (by omega)]
      omega

theorem foldl_add_eq (hm : 0 < m) {ws : List Nat} (h : ∀ w ∈ ws, w ≤ m) (a : Nat) :
    ws.foldl (add m) (residue m a) = residue m (a + ws.sum) := by
  induction ws generalizing a with
  | nil => rw [List.foldl_nil, List.sum_nil, Nat.add_zero]
  | cons w ws ih =>
      rw [List.foldl_cons, add_eq_residue (residue_le hm a) (h w List.mem_cons_self),
        residue_residue_add, ih (fun x hx => h x (List.mem_cons_of_mem w hx)), List.sum_cons,
        Nat.add_assoc]

/-- The carries can all be folded at the end. -/
theorem sum_eq_residue (hm : 0 < m) {ws : List Nat} (h : ∀ w ∈ ws, w ≤ m) :
    sum m ws = residue m ws.sum := by
  have hfold := foldl_add_eq hm h 0
  rwa [Nat.zero_add] at hfold

/-- The complement of a sum makes it all ones. -/
theorem residue_add_complement (hm : 0 < m) (n : Nat) :
    residue m (n + (m - residue m n)) = m := by
  have hle := residue_le hm n
  rw [← residue_residue_add, Nat.add_sub_cancel' hle, residue_of_le (Nat.le_refl m)]

end Fold

/-! ## Words -/

/-- The big-endian 16-bit words of a byte string, an odd last byte being the
high half of a word. -/
def words : Bytes → List Nat
  | a :: b :: rest => (a.toNat * 256 + b.toNat) :: words rest
  | [a] => [a.toNat * 256]
  | [] => []

theorem le_of_mem_words {b : Bytes} {w : Nat} (h : w ∈ words b) : w ≤ 65535 := by
  induction b using words.induct with
  | case1 x y rest ih =>
      have hx := x.toNat_lt
      have hy := y.toNat_lt
      rcases List.mem_cons.mp h with rfl | h
      · omega
      · exact ih h
  | case2 x =>
      have hx := x.toNat_lt
      rw [List.mem_singleton.mp h]
      omega
  | case3 => cases h

theorem words_append {a : Bytes} (h : a.length % 2 = 0) (b : Bytes) :
    words (a ++ b) = words a ++ words b := by
  induction a using words.induct with
  | case1 x y rest ih =>
      rw [List.length_cons, List.length_cons] at h
      rw [List.cons_append, List.cons_append, words, words, ih (by omega), List.cons_append]
  | case2 x => simp at h
  | case3 => rfl

theorem sum_words_le (b : Bytes) : (words b).sum ≤ (b.length + 1) / 2 * 65535 := by
  induction b using words.induct with
  | case1 x y rest ih =>
      have hx := x.toNat_lt
      have hy := y.toNat_lt
      rw [words, List.sum_cons, List.length_cons, List.length_cons]
      omega
  | case2 x =>
      have hx := x.toNat_lt
      simp only [words, List.sum_cons, List.sum_nil, List.length_singleton]
      omega
  | case3 => simp [words]

theorem words_be16 (x : UInt16) : words (be16 x) = [x.toNat] := by
  have hx := x.toNat_lt
  have hbytes : be16 x = [UInt8.ofNat (x.toNat / 256), UInt8.ofNat x.toNat] := rfl
  rw [hbytes, words, words]
  simp
  omega

/-- The check a receiver makes: the words add up to all ones. -/
def Verifies (b : Bytes) : Prop := sum 65535 (words b) = 65535

instance (b : Bytes) : Decidable (Verifies b) := inferInstanceAs (Decidable (_ = _))

/-- The complement of a sum, written where the sum was taken over zero, makes
the whole verify. -/
theorem verifies_of_complement {a b : Bytes} (ha : a.length % 2 = 0) {x : UInt16}
    (hx : x.toNat = 65535 - residue 65535 (words (a ++ [0, 0] ++ b)).sum) :
    Verifies (a ++ be16 x ++ b) := by
  have hlen : ∀ c : Bytes, c.length = 2 → (a ++ c).length % 2 = 0 := by
    intro c hc
    rw [List.length_append, hc]
    omega
  have hsum : (words (a ++ be16 x ++ b)).sum =
      (words (a ++ [0, 0] ++ b)).sum + x.toNat := by
    rw [words_append (hlen _ (length_be16 x)), words_append (hlen _ rfl), words_append ha,
      words_append ha, words_be16]
    simp only [List.sum_append, List.sum_cons, List.sum_nil, words, UInt8.toNat_zero]
    omega
  rw [Verifies, sum_eq_residue (by decide) fun w hw => le_of_mem_words hw, hsum, hx]
  exact residue_add_complement (by decide) _

end TailscaleRust.Lib.OnesComplement
