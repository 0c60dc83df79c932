import Mathlib.Data.List.Basic
import Mathlib.Data.List.Induction
import Mathlib.Data.List.TakeWhile
import Mathlib.Data.Nat.Digits.Defs
import TailscaleRust.Lib.Bytes

/-!
# Numbers as text

Digits of a radix up to 36 in ASCII, the value of a run of digits, and the
decimal digits of a number. `readNumber` is the reader of the standard
library's address parser: it takes the longest run of digits in front and
refuses it if it is empty, too long, too large, or, on request, if it has a
superfluous zero in front.

Refusing that zero makes the text of a number unique: `readNumber` in radix
ten accepts the decimal digits of a number and nothing else, so a reader built
from it is the inverse of the printer in both directions
(`readNumber_ten_iff`).
-/

namespace TailscaleRust.Lib

/-! ## Digits -/

/-- The value of a digit, `char::to_digit`; 36 for what is none. -/
def digitValue (b : UInt8) : Nat :=
  if 48 ≤ b ∧ b ≤ 57 then b.toNat - 48
  else if 97 ≤ b ∧ b ≤ 122 then b.toNat - 87
  else if 65 ≤ b ∧ b ≤ 90 then b.toNat - 55
  else 36

/-- The value of a run of digits. -/
def numeralValue (radix : Nat) (digits : Bytes) : Nat :=
  digits.foldl (fun n b => n * radix + digitValue b) 0

/-- The decimal digits of a number. -/
def decimalDigits (n : Nat) : Bytes := (Nat.toDigits 10 n).map fun c => UInt8.ofNat c.toNat

/-- A number in front of a text: its value and the rest. -/
def readNumber (radix : Nat) (maxDigits : Option Nat) (allowZeroPrefix : Bool) (max : Nat)
    (s : Bytes) : Option (Nat × Bytes) :=
  let digits := s.takeWhile fun b => digitValue b < radix
  let value := numeralValue radix digits
  if digits = [] ∨ maxDigits.any (fun m => m < digits.length)
      ∨ (!allowZeroPrefix ∧ digits.head? = some 48 ∧ 1 < digits.length) ∨ max < value then none
  else some (value, s.dropWhile fun b => digitValue b < radix)

/-! ## Decimal -/

theorem digitValue_lt_ten {b : UInt8} (h : digitValue b < 10) :
    48 ≤ b.toNat ∧ b.toNat ≤ 57 ∧ digitValue b = b.toNat - 48 := by
  rw [digitValue] at h ⊢
  simp only [UInt8.le_iff_toNat_le] at h ⊢
  have h48 : (48 : UInt8).toNat = 48 := rfl
  have h57 : (57 : UInt8).toNat = 57 := rfl
  have h65 : (65 : UInt8).toNat = 65 := rfl
  have h90 : (90 : UInt8).toNat = 90 := rfl
  have h97 : (97 : UInt8).toNat = 97 := rfl
  have h122 : (122 : UInt8).toNat = 122 := rfl
  split at h
  · next hdigit =>
      rw [if_pos hdigit]
      omega
  · split at h
    · omega
    · split at h
      · omega
      · omega

/-- The byte of a decimal digit. -/
def digitByte (d : Nat) : UInt8 := UInt8.ofNat (Nat.digitChar d).toNat

theorem digitValue_digitByte {d : Nat} (h : d < 10) : digitValue (digitByte d) = d := by
  have hall : ∀ d < 10, digitValue (digitByte d) = d := by decide
  exact hall d h

theorem digitByte_digitValue {b : UInt8} (h : digitValue b < 10) :
    digitByte (digitValue b) = b := by
  obtain ⟨hlow, hhigh, hvalue⟩ := digitValue_lt_ten h
  have hall : ∀ n < 58, 48 ≤ n → digitByte (n - 48) = UInt8.ofNat n := by decide
  rw [hvalue, hall b.toNat (by omega) hlow, UInt8.ofNat_toNat]

theorem numeralValue_concat (radix : Nat) (ds : Bytes) (b : UInt8) :
    numeralValue radix (ds ++ [b]) = numeralValue radix ds * radix + digitValue b := by
  rw [numeralValue, numeralValue, List.foldl_append]
  rfl

theorem decimalDigits_of_lt {n : Nat} (h : n < 10) : decimalDigits n = [digitByte n] := by
  rw [decimalDigits, Nat.toDigits_of_lt_base h]
  rfl

theorem decimalDigits_of_ge {n : Nat} (h : 10 ≤ n) :
    decimalDigits n = decimalDigits (n / 10) ++ [digitByte (n % 10)] := by
  rw [decimalDigits, decimalDigits, Nat.toDigits_of_base_le (by decide) h, List.map_append]
  rfl

theorem decimalDigits_ne_nil (n : Nat) : decimalDigits n ≠ [] := by
  by_cases h : n < 10
  · rw [decimalDigits_of_lt h]
    exact List.cons_ne_nil _ _
  · rw [decimalDigits_of_ge (by omega)]
    exact List.append_ne_nil_of_right_ne_nil _ (List.cons_ne_nil _ _)

theorem decimalDigits_digits (n : Nat) : ∀ b ∈ decimalDigits n, digitValue b < 10 := by
  induction n using Nat.strongRecOn with
  | ind n ih =>
      intro b hb
      by_cases h : n < 10
      · rw [decimalDigits_of_lt h] at hb
        rw [List.mem_singleton.mp hb, digitValue_digitByte h]
        exact h
      · rw [decimalDigits_of_ge (by omega)] at hb
        rcases List.mem_append.mp hb with hb | hb
        · exact ih (n / 10) (by omega) b hb
        · rw [List.mem_singleton.mp hb, digitValue_digitByte (Nat.mod_lt n (by omega))]
          exact Nat.mod_lt n (by omega)

theorem numeralValue_decimalDigits (n : Nat) : numeralValue 10 (decimalDigits n) = n := by
  induction n using Nat.strongRecOn with
  | ind n ih =>
      by_cases h : n < 10
      · rw [decimalDigits_of_lt h]
        show 0 * 10 + digitValue (digitByte n) = n
        rw [digitValue_digitByte h]
        omega
      · rw [decimalDigits_of_ge (by omega), numeralValue_concat, ih (n / 10) (by omega),
          digitValue_digitByte (Nat.mod_lt n (by omega))]
        omega

theorem decimalDigits_inj {m n : Nat} (h : decimalDigits m = decimalDigits n) : m = n := by
  rw [← numeralValue_decimalDigits m, h, numeralValue_decimalDigits]

/-- Only zero is printed with a zero in front. -/
theorem decimalDigits_head {n : Nat} (h : (decimalDigits n).head? = some 48) : n = 0 := by
  induction n using Nat.strongRecOn with
  | ind n ih =>
      by_cases hsmall : n < 10
      · rw [decimalDigits_of_lt hsmall] at h
        have hbyte : digitByte n = 48 := Option.some.inj h
        rw [← digitValue_digitByte hsmall, hbyte]
        rfl
      · rw [decimalDigits_of_ge (by omega),
          List.head?_append_of_ne_nil (decimalDigits (n / 10)) (decimalDigits_ne_nil (n / 10))] at h
        have hzero := ih (n / 10) (by omega) h
        omega

/-- A run of digits without a superfluous zero is the text of its value. -/
theorem decimalDigits_numeralValue {ds : Bytes} (hne : ds ≠ []) (hds : ∀ b ∈ ds, digitValue b < 10)
    (hzero : ds.head? = some 48 → ds.length ≤ 1) : decimalDigits (numeralValue 10 ds) = ds := by
  induction ds using List.reverseRecOn with
  | nil => exact absurd rfl hne
  | append_singleton ds b ih =>
      have hb : digitValue b < 10 := hds b (List.mem_append_right _ List.mem_cons_self)
      rw [numeralValue_concat]
      by_cases hnil : ds = []
      · subst hnil
        rw [show numeralValue 10 [] = 0 from rfl, Nat.zero_mul, Nat.zero_add,
          decimalDigits_of_lt hb, digitByte_digitValue hb, List.nil_append]
      · have hhead : ds.head? ≠ some 48 := by
          intro h
          have hshort := hzero (by rw [List.head?_append_of_ne_nil ds hnil]; exact h)
          rw [List.length_append, List.length_singleton] at hshort
          have := List.length_pos_of_ne_nil hnil
          omega
        have hprefix := ih hnil (fun b hb => hds b (List.mem_append_left _ hb))
          (fun h => absurd h hhead)
        have hpos : numeralValue 10 ds ≠ 0 := by
          intro hz
          rw [hz] at hprefix
          exact hhead (by rw [← hprefix]; rfl)
        rw [decimalDigits_of_ge (by omega),
          show (numeralValue 10 ds * 10 + digitValue b) / 10 = numeralValue 10 ds by omega,
          show (numeralValue 10 ds * 10 + digitValue b) % 10 = digitValue b by omega, hprefix,
          digitByte_digitValue hb]

theorem length_decimalDigits_le {n e : Nat} (he : 0 < e) (h : n < 10 ^ e) :
    (decimalDigits n).length ≤ e := by
  have hrepr := Nat.repr_length n e he h
  rwa [Nat.repr, String.length_ofList, ← List.length_map] at hrepr

/-! ## Reading -/

/-- The text does not go on with a digit. -/
def NoDigit (radix : Nat) (s : Bytes) : Prop := ∀ b, s.head? = some b → radix ≤ digitValue b

theorem takeWhile_digits {radix : Nat} {ds rest : Bytes} (hds : ∀ b ∈ ds, digitValue b < radix)
    (hrest : NoDigit radix rest) :
    (ds ++ rest).takeWhile (fun b => digitValue b < radix) = ds ∧
      (ds ++ rest).dropWhile (fun b => digitValue b < radix) = rest := by
  have hall : ∀ b ∈ ds, decide (digitValue b < radix) = true :=
    fun b hb => decide_eq_true (hds b hb)
  have hstop : rest.takeWhile (fun b => digitValue b < radix) = [] ∧
      rest.dropWhile (fun b => digitValue b < radix) = rest := by
    cases rest with
    | nil => exact ⟨rfl, rfl⟩
    | cons b rest =>
        have hb : ¬digitValue b < radix := Nat.not_lt.mpr (hrest b rfl)
        rw [List.takeWhile_cons, List.dropWhile_cons, decide_eq_false hb]
        exact ⟨rfl, rfl⟩
  rw [List.takeWhile_append_of_pos hall, List.dropWhile_append_of_pos hall, hstop.1, hstop.2,
    List.append_nil]
  exact ⟨rfl, rfl⟩

/-- What is accepted without a superfluous zero is the text of the number. -/
theorem readNumber_ten_iff {maxDigits max : Nat} {s rest : Bytes} {n : Nat}
    (hfits : max < 10 ^ maxDigits) (hpos : 0 < maxDigits) :
    readNumber 10 (some maxDigits) false max s = some (n, rest) ↔
      s = decimalDigits n ++ rest ∧ n ≤ max ∧ NoDigit 10 rest := by
  refine ⟨?_, ?_⟩
  · intro h
    rw [readNumber] at h
    obtain ⟨hguard, heq⟩ := Option.ite_none_left_eq_some.mp h
    simp only [not_or, Bool.not_false, true_and, not_and, Nat.not_lt] at hguard
    obtain ⟨hne, -, hzero, hmax⟩ := hguard
    cases heq
    have hds : ∀ b ∈ s.takeWhile fun b => digitValue b < 10, digitValue b < 10 := by
      intro b hb
      have hdigit := List.mem_takeWhile_imp hb
      exact of_decide_eq_true hdigit
    refine ⟨?_, hmax, ?_⟩
    · rw [decimalDigits_numeralValue hne hds hzero, List.takeWhile_append_dropWhile]
    · intro b hb
      have hfail := List.head?_dropWhile_not (fun b => digitValue b < 10) s
      rw [hb] at hfail
      exact Nat.not_lt.mp (of_decide_eq_false hfail)
  · rintro ⟨rfl, hmax, hrest⟩
    obtain ⟨htake, hdrop⟩ := takeWhile_digits (decimalDigits_digits n) hrest
    have hlen := length_decimalDigits_le hpos (Nat.lt_of_le_of_lt hmax hfits)
    have hguard : ¬(decimalDigits n = [] ∨ (some maxDigits).any (fun m => m <
        (decimalDigits n).length) ∨ ((!false) ∧ (decimalDigits n).head? = some 48 ∧
          1 < (decimalDigits n).length) ∨ max < numeralValue 10 (decimalDigits n)) := by
      rintro (hnil | hlong | ⟨-, hzero, hlong⟩ | hlarge)
      · exact decimalDigits_ne_nil n hnil
      · exact absurd (of_decide_eq_true hlong) (Nat.not_lt.mpr hlen)
      · rw [decimalDigits_head hzero, decimalDigits_of_lt (by omega)] at hlong
        exact absurd hlong (by decide)
      · rw [numeralValue_decimalDigits] at hlarge
        omega
    rw [readNumber, htake, hdrop, if_neg hguard, numeralValue_decimalDigits]

/-- Zeros in front or not, the text of a number is read as the number. -/
theorem readNumber_decimalDigits {max n : Nat} {rest : Bytes} (hmax : n ≤ max)
    (hrest : NoDigit 10 rest) :
    readNumber 10 none true max (decimalDigits n ++ rest) = some (n, rest) := by
  obtain ⟨htake, hdrop⟩ := takeWhile_digits (decimalDigits_digits n) hrest
  have hguard : ¬(decimalDigits n = [] ∨ (none : Option Nat).any (fun m => m <
      (decimalDigits n).length) ∨ ((!true) ∧ (decimalDigits n).head? = some 48 ∧
        1 < (decimalDigits n).length) ∨ max < numeralValue 10 (decimalDigits n)) := by
    rintro (hnil | hlong | ⟨hno, -⟩ | hlarge)
    · exact decimalDigits_ne_nil n hnil
    · cases hlong
    · cases hno
    · rw [numeralValue_decimalDigits] at hlarge
      omega
  rw [readNumber, htake, hdrop, if_neg hguard, numeralValue_decimalDigits]

/-! ## Separated texts -/

/-- Of two texts cut at their first separators, one is in front of the other
if the first pieces are the same and the rest of the one is in front of the
rest of the other. -/
theorem prefix_separated_iff {α : Type} {sep : α} {a b xs ys : List α} (ha : sep ∉ a)
    (hb : sep ∉ b) : a ++ sep :: xs <+: b ++ sep :: ys ↔ a = b ∧ xs <+: ys := by
  induction a generalizing b with
  | nil =>
      cases b with
      | nil =>
          rw [List.nil_append, List.nil_append, List.cons_prefix_cons]
          exact and_congr_left fun _ => ⟨fun _ => rfl, fun _ => rfl⟩
      | cons y b =>
          rw [List.nil_append, List.cons_append, List.cons_prefix_cons]
          refine ⟨fun h => ?_, fun h => by cases h.1⟩
          exact absurd (h.1 ▸ List.mem_cons_self) hb
  | cons x a ih =>
      have ha' : sep ∉ a := fun h => ha (List.mem_cons_of_mem x h)
      cases b with
      | nil =>
          rw [List.nil_append, List.cons_append, List.cons_prefix_cons]
          refine ⟨fun h => ?_, fun h => by cases h.1⟩
          exact absurd (h.1 ▸ List.mem_cons_self) ha
      | cons y b =>
          have hb' : sep ∉ b := fun h => hb (List.mem_cons_of_mem y h)
          rw [List.cons_append, List.cons_append, List.cons_prefix_cons, ih ha' hb',
            List.cons.injEq, and_assoc]

/-- A separator is no digit of a number. -/
theorem not_mem_decimalDigits {b : UInt8} (h : 10 ≤ digitValue b) (n : Nat) :
    b ∉ decimalDigits n := by
  intro hb
  have := decimalDigits_digits n b hb
  omega

end TailscaleRust.Lib
