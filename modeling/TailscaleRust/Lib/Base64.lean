import TailscaleRust.Lib.Bytes

/-!
# Base64, read as RFC 4648 writes it

The decoder of the standard alphabet with padding. It goes over the text four
characters at a time. Each group is a 24-bit number written in base 64;
only the last group may end in padding, and then the bits that no byte takes
are zero, so that every byte string has one spelling.
-/

namespace TailscaleRust.Lib.Base64

/-- The value of a character of the alphabet: the capitals, the small
letters, the digits, `+` and `/`. -/
def digitValue (c : UInt8) : Option Nat :=
  if 65 ≤ c ∧ c ≤ 90 then some (c.toNat - 65)
  else if 97 ≤ c ∧ c ≤ 122 then some (c.toNat - 71)
  else if 48 ≤ c ∧ c ≤ 57 then some (c.toNat + 4)
  else if c = 43 then some 62
  else if c = 47 then some 63
  else none

/-- The padding character, `=`. -/
def pad : UInt8 := 61

/-- A group with nothing missing. -/
def decodeFull (a b c d : UInt8) : Option Bytes := do
  let n := ((← digitValue a) * 64 + (← digitValue b)) * 4096 +
    ((← digitValue c) * 64 + (← digitValue d))
  return [UInt8.ofNat (n / 65536), UInt8.ofNat (n / 256), UInt8.ofNat n]

/-- A last group of three characters and one padding. -/
def decodeTwo (a b c : UInt8) : Option Bytes := do
  let n := ((← digitValue a) * 64 + (← digitValue b)) * 64 + (← digitValue c)
  if n % 4 = 0 then return [UInt8.ofNat (n / 1024), UInt8.ofNat (n / 4)] else none

/-- A last group of two characters and two paddings. -/
def decodeOne (a b : UInt8) : Option Bytes := do
  let n := (← digitValue a) * 64 + (← digitValue b)
  if n % 16 = 0 then return [UInt8.ofNat (n / 16)] else none

def decode : Bytes → Option Bytes
  | [] => some []
  | a :: b :: c :: d :: rest =>
      if d = pad ∧ rest = [] then
        if c = pad then decodeOne a b else decodeTwo a b c
      else do
        let group ← decodeFull a b c d
        return group ++ (← decode rest)
  | _ => none

/-! ## Groups of digits -/

section Groups

variable {a b c d : UInt8} {x y z w : Nat}

theorem digitValue_ne_pad (h : digitValue a = some x) : a ≠ pad := by
  rintro rfl
  have hpad : digitValue pad = none := by decide
  rw [hpad] at h
  cases h

theorem decodeFull_of_digits (ha : digitValue a = some x) (hb : digitValue b = some y)
    (hc : digitValue c = some z) (hd : digitValue d = some w) {n : Nat}
    (hn : n = (x * 64 + y) * 4096 + (z * 64 + w)) :
    decodeFull a b c d =
      some [UInt8.ofNat (n / 65536), UInt8.ofNat (n / 256), UInt8.ofNat n] := by
  rw [decodeFull, ha, hb, hc, hd, hn]
  rfl

theorem decodeTwo_of_digits (ha : digitValue a = some x) (hb : digitValue b = some y)
    (hc : digitValue c = some z) {n : Nat} (hn : n * 4 = (x * 64 + y) * 64 + z) :
    decodeTwo a b c = some [UInt8.ofNat (n / 256), UInt8.ofNat n] := by
  have h4 : ((x * 64 + y) * 64 + z) % 4 = 0 := by omega
  have h1 : ((x * 64 + y) * 64 + z) / 1024 = n / 256 := by omega
  have h2 : ((x * 64 + y) * 64 + z) / 4 = n := by omega
  rw [decodeTwo, ha, hb, hc]
  simp only [Option.bind_eq_bind, Option.bind_some, h4, h1, h2, if_true]
  rfl

theorem decodeOne_of_digits (ha : digitValue a = some x) (hb : digitValue b = some y) {n : Nat}
    (hn : n * 16 = x * 64 + y) : decodeOne a b = some [UInt8.ofNat n] := by
  have h16 : (x * 64 + y) % 16 = 0 := by omega
  have h1 : (x * 64 + y) / 16 = n := by omega
  rw [decodeOne, ha, hb]
  simp only [Option.bind_eq_bind, Option.bind_some, h16, h1, if_true]
  rfl

/-- A group that does not end in padding is followed by more text. -/
theorem decode_cons {group rest tail : Bytes} (hd : d ≠ pad)
    (hg : decodeFull a b c d = some group) (hr : decode rest = some tail) :
    decode (a :: b :: c :: d :: rest) = some (group ++ tail) := by
  have hno : ¬(d = pad ∧ rest = []) := fun h => hd h.1
  rw [decode, if_neg hno, hg, hr]
  rfl

end Groups

end TailscaleRust.Lib.Base64
