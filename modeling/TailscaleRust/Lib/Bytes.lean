import Mathlib.Algebra.Ring.Nat
import Mathlib.Data.List.TakeDrop
import Mathlib.Data.List.GetD

/-!
# Byte strings, fixed-size arrays and their integer fields

A wire format is a byte string read and written at fixed offsets. Three
notions cover every format: `slice`, the bytes between two offsets;
`copyAt`, the in-place write of a shorter string over a longer one, which
never changes the length; and the little- and big-endian numerals, defined
once over an arbitrary width so that one induction serves every field.

The rules at the end say how a read meets a write: at the written range it
returns what was written, and a range before it does not see the write at
all. Together with the numerals' round trip they are all a parser
needs to recover the fields a builder put down.
-/

namespace TailscaleRust.Lib

/-- A byte string of any length. -/
abbrev Bytes := List UInt8

/-- A byte string of a length known to the type, `[u8; n]`. -/
abbrev Arr (n : Nat) := { b : Bytes // b.length = n }

/-- `n` zero bytes. -/
def zeros (n : Nat) : Bytes := List.replicate n 0

@[simp] theorem length_zeros {n : Nat} : (zeros n).length = n := by
  simp [zeros]

/-- The all-zero array. -/
def Arr.zero (n : Nat) : Arr n := ⟨zeros n, length_zeros⟩

/-- The bytes of a string literal; every literal given to it is ASCII. -/
def ascii (s : String) : Bytes := s.toList.map fun c => UInt8.ofNat c.toNat

/-- The byte at offset `i`. Callers have checked the length, so the default
is never read. -/
def byteAt (b : Bytes) (i : Nat) : UInt8 := b.getD i 0

/-- The half-open range `b[i..j]`. -/
def slice (b : Bytes) (i j : Nat) : Bytes := (b.drop i).take (j - i)

/-- `b[off..off + n]` as an array; zero filled where `b` is too short, which
a caller that checked the length never sees. -/
def arrAt (b : Bytes) (off n : Nat) : Arr n :=
  ⟨(b.drop off).takeD n 0, List.takeD_length ..⟩

/-- `b.try_into()`: the array of exactly this length, or nothing. -/
def tryInto (n : Nat) (b : Bytes) : Option (Arr n) :=
  if h : b.length = n then some ⟨b, h⟩ else none

/-- `b[off..off + src.len()].copy_from_slice(src)`. Bytes of `src` that
would land past the end are dropped, so the length never changes. -/
def copyAt : Bytes → Nat → Bytes → Bytes
  | [], _, _ => []
  | b :: bs, 0, [] => b :: bs
  | _ :: bs, 0, s :: ss => s :: copyAt bs 0 ss
  | b :: bs, off + 1, src => b :: copyAt bs off src

@[simp] theorem length_copyAt (b : Bytes) (off : Nat) (src : Bytes) :
    (copyAt b off src).length = b.length := by
  induction b, off, src using copyAt.induct with
  | case1 => rfl
  | case2 => rfl
  | case3 b bs s ss ih => simp [copyAt, ih]
  | case4 b bs off src ih => simp [copyAt, ih]

/-- `copyAt` on an array. -/
def Arr.copyAt {n : Nat} (b : Arr n) (off : Nat) (src : Bytes) : Arr n :=
  ⟨Lib.copyAt b.1 off src, by rw [length_copyAt, b.2]⟩

/-- An in-range write replaces exactly its range. -/
theorem copyAt_eq {b : Bytes} {off : Nat} {src : Bytes}
    (h : off + src.length ≤ b.length) :
    copyAt b off src = b.take off ++ src ++ b.drop (off + src.length) := by
  induction b, off, src using copyAt.induct with
  | case1 off src =>
      have hs : src = [] := by simp at h; exact h.2
      simp [copyAt, hs]
  | case2 b bs => simp [copyAt]
  | case3 b bs s ss ih =>
      have hle : 0 + ss.length ≤ bs.length := by simp at h; omega
      simpa [copyAt] using ih hle
  | case4 b bs off src ih =>
      have hle : off + src.length ≤ bs.length := by simp at h; omega
      simp [copyAt, ih hle, Nat.add_right_comm off 1]

theorem slice_slice_append {b : Bytes} {i j k : Nat} (hij : i ≤ j) (hjk : j ≤ k) :
    slice b i j ++ slice b j k = slice b i k := by
  have hj : b.drop j = (b.drop i).drop (j - i) := by
    rw [List.drop_drop]; congr 1; omega
  have hk : k - i = (j - i) + (k - j) := by omega
  rw [slice, slice, slice, hj, hk, List.take_add]

theorem length_slice {b : Bytes} {i j : Nat} (h : j ≤ b.length) :
    (slice b i j).length = j - i := by
  rw [slice, List.length_take, List.length_drop]
  omega

/-- A slice of a slice is a slice of the whole. -/
theorem slice_slice {b : Bytes} {i j k l : Nat} (h : i + l ≤ j) :
    slice (slice b i j) k l = slice b (i + k) (i + l) := by
  rw [slice, slice, slice, List.drop_take, List.drop_drop, List.take_take]
  congr 1
  omega

/-! ## Numerals

`to_le_bytes` and `to_be_bytes` of a width are the low `k` digits in base
256, in the one order or the other. -/

/-- The `k` low base-256 digits of `n`, least significant first. -/
def leBytes : Nat → Nat → Bytes
  | 0, _ => []
  | k + 1, n => UInt8.ofNat n :: leBytes k (n / 256)

/-- The number whose base-256 digits are `b`, least significant first. -/
def leNat : Bytes → Nat
  | [] => 0
  | b :: bs => b.toNat + 256 * leNat bs

/-- The `k` low base-256 digits of `n`, most significant first. -/
def beBytes (k n : Nat) : Bytes := (leBytes k n).reverse

/-- The number whose base-256 digits are `b`, most significant first. -/
def beNat (b : Bytes) : Nat := leNat b.reverse

@[simp] theorem length_leBytes {k n : Nat} : (leBytes k n).length = k := by
  induction k generalizing n with
  | zero => rfl
  | succ k ih => simp [leBytes, ih]

@[simp] theorem length_beBytes {k n : Nat} : (beBytes k n).length = k := by
  simp [beBytes]

theorem leNat_leBytes {k n : Nat} : leNat (leBytes k n) = n % 256 ^ k := by
  induction k generalizing n with
  | zero => simp [leBytes, leNat, Nat.mod_one]
  | succ k ih =>
      rw [leBytes, leNat, ih, Nat.pow_succ', Nat.mod_mul]
      simp

theorem beNat_beBytes {k n : Nat} : beNat (beBytes k n) = n % 256 ^ k := by
  simp [beNat, beBytes, leNat_leBytes]

theorem leNat_lt (b : Bytes) : leNat b < 256 ^ b.length := by
  induction b with
  | nil => simp [leNat]
  | cons x xs ih =>
      have hx := x.toNat_lt
      rw [leNat, List.length_cons, Nat.pow_succ']
      omega

/-- Digits of a known count read back as themselves. -/
theorem leBytes_leNat {k : Nat} {b : Bytes} (h : b.length = k) :
    leBytes k (leNat b) = b := by
  subst h
  induction b with
  | nil => rfl
  | cons x xs ih =>
      have hx := x.toNat_lt
      have hlow : UInt8.ofNat (x.toNat + 256 * leNat xs) = x := by
        apply UInt8.toNat_inj.mp
        simp only [UInt8.toNat_ofNat']
        omega
      have hrest : (x.toNat + 256 * leNat xs) / 256 = leNat xs := by omega
      rw [List.length_cons, leBytes, leNat, hlow, hrest, ih]

def u16be (b : Bytes) (i : Nat) : UInt16 := UInt16.ofNat (beNat (slice b i (i + 2)))
def u32be (b : Bytes) (i : Nat) : UInt32 := UInt32.ofNat (beNat (slice b i (i + 4)))
def u32le (b : Bytes) (i : Nat) : UInt32 := UInt32.ofNat (leNat (slice b i (i + 4)))
def u64le (b : Bytes) (i : Nat) : UInt64 := UInt64.ofNat (leNat (slice b i (i + 8)))

def le32 (x : UInt32) : Bytes := leBytes 4 x.toNat
def le64 (x : UInt64) : Bytes := leBytes 8 x.toNat
def be16 (x : UInt16) : Bytes := beBytes 2 x.toNat
def be32 (x : UInt32) : Bytes := beBytes 4 x.toNat
def be64 (x : UInt64) : Bytes := beBytes 8 x.toNat

@[simp] theorem length_le32 (x : UInt32) : (le32 x).length = 4 := length_leBytes
@[simp] theorem length_le64 (x : UInt64) : (le64 x).length = 8 := length_leBytes
@[simp] theorem length_be16 (x : UInt16) : (be16 x).length = 2 := length_beBytes
@[simp] theorem length_be32 (x : UInt32) : (be32 x).length = 4 := length_beBytes
@[simp] theorem length_be64 (x : UInt64) : (be64 x).length = 8 := length_beBytes

theorem u32le_of_slice {b : Bytes} {i : Nat} {x : UInt32}
    (h : slice b i (i + 4) = le32 x) : u32le b i = x := by
  have hx := x.toNat_lt
  rw [u32le, h, le32, leNat_leBytes, Nat.mod_eq_of_lt (by simpa using hx)]
  exact UInt32.ofNat_toNat

theorem u64le_of_slice {b : Bytes} {i : Nat} {x : UInt64}
    (h : slice b i (i + 8) = le64 x) : u64le b i = x := by
  have hx := x.toNat_lt
  rw [u64le, h, le64, leNat_leBytes, Nat.mod_eq_of_lt (by simpa using hx)]
  exact UInt64.ofNat_toNat

theorem u16be_of_slice {b : Bytes} {i : Nat} {x : UInt16}
    (h : slice b i (i + 2) = be16 x) : u16be b i = x := by
  have hx := x.toNat_lt
  rw [u16be, h, be16, beNat_beBytes, Nat.mod_eq_of_lt (by simpa using hx)]
  exact UInt16.ofNat_toNat

theorem u32be_of_slice {b : Bytes} {i : Nat} {x : UInt32}
    (h : slice b i (i + 4) = be32 x) : u32be b i = x := by
  have hx := x.toNat_lt
  rw [u32be, h, be32, beNat_beBytes, Nat.mod_eq_of_lt (by simpa using hx)]
  exact UInt32.ofNat_toNat

/-- A four-byte string and the number it spells determine each other. -/
theorem ofNat_leNat_eq_iff {b : Bytes} {x : UInt32} (h : b.length = 4) :
    UInt32.ofNat (leNat b) = x ↔ b = le32 x := by
  have hlt := leNat_lt b
  rw [h] at hlt
  refine ⟨?_, ?_⟩
  · intro heq
    subst heq
    rw [le32, UInt32.toNat_ofNat_of_lt' (by simpa using hlt), leBytes_leNat h]
  · intro heq
    subst heq
    have hx := x.toNat_lt
    rw [le32, leNat_leBytes, Nat.mod_eq_of_lt (by simpa using hx)]
    exact UInt32.ofNat_toNat

theorem u32le_eq_iff {b : Bytes} {i : Nat} {x : UInt32} (h : i + 4 ≤ b.length) :
    u32le b i = x ↔ slice b i (i + 4) = le32 x :=
  ofNat_leNat_eq_iff (by rw [length_slice h, Nat.add_sub_cancel_left])

theorem u32be_eq_iff {b : Bytes} {i : Nat} {x : UInt32} (h : i + 4 ≤ b.length) :
    u32be b i = x ↔ slice b i (i + 4) = be32 x := by
  have hrev : (slice b i (i + 4)).reverse.length = 4 := by
    rw [List.length_reverse, length_slice h, Nat.add_sub_cancel_left]
  rw [u32be, beNat, ofNat_leNat_eq_iff hrev, be32, beBytes, List.reverse_eq_iff]
  rfl

/-- Reading two bytes and writing them back. -/
theorem be16_u16be {b : Bytes} {i : Nat} (h : i + 2 ≤ b.length) :
    be16 (u16be b i) = slice b i (i + 2) := by
  have hlen : (slice b i (i + 2)).reverse.length = 2 := by
    rw [List.length_reverse, length_slice h, Nat.add_sub_cancel_left]
  have hlt := leNat_lt (slice b i (i + 2)).reverse
  rw [hlen] at hlt
  rw [be16, u16be, UInt16.toNat_ofNat_of_lt' (by simpa [beNat] using hlt), beBytes, beNat,
    leBytes_leNat hlen, List.reverse_reverse]

theorem le64_inj {x y : UInt64} (h : le64 x = le64 y) : x = y := by
  have hx := x.toNat_lt
  have hy := y.toNat_lt
  have hn := congrArg leNat h
  rw [le64, le64, leNat_leBytes, leNat_leBytes, Nat.mod_eq_of_lt (by simpa using hx),
    Nat.mod_eq_of_lt (by simpa using hy)] at hn
  exact UInt64.toNat_inj.mp hn

theorem be64_inj {x y : UInt64} (h : be64 x = be64 y) : x = y := by
  rw [be64, be64, beBytes, beBytes] at h
  exact le64_inj (List.reverse_inj.mp h)

/-! ## Reads over writes -/

theorem slice_copyAt_self {b : Bytes} {off j : Nat} {src : Bytes}
    (hj : j = off + src.length) (h : j ≤ b.length) :
    slice (copyAt b off src) off j = src := by
  subst hj
  have htake : (b.take off).length = off := by
    rw [List.length_take]; omega
  rw [copyAt_eq h, slice, List.append_assoc, List.drop_append, htake,
    List.drop_eq_nil_of_le (by omega)]
  simp

/-- What stands before a write stays, however long the write is. -/
theorem take_copyAt {b : Bytes} {off n : Nat} {src : Bytes} (h : n ≤ off) :
    (copyAt b off src).take n = b.take n := by
  induction b, off, src using copyAt.induct generalizing n with
  | case1 off src => rfl
  | case2 b bs => rfl
  | case3 b bs s ss ih =>
      have hn : n = 0 := by omega
      rw [hn, List.take_zero, List.take_zero]
  | case4 b bs off src ih =>
      rw [copyAt]
      cases n with
      | zero => rfl
      | succ n => rw [List.take_succ_cons, List.take_succ_cons, ih (by omega)]

theorem copyAt_append {a b : Bytes} {off : Nat} {src : Bytes} (h : off + src.length ≤ a.length) :
    copyAt (a ++ b) off src = copyAt a off src ++ b := by
  rw [copyAt_eq (by rw [List.length_append]; omega), copyAt_eq h,
    List.take_append_of_le_length (by omega), List.drop_append_of_le_length h, List.append_assoc,
    List.append_assoc, List.append_assoc]

/-- Two bytes written one after the other. -/
theorem copyAt_pair (b : Bytes) (off : Nat) (x y : UInt8) :
    copyAt (copyAt b off [x]) (off + 1) [y] = copyAt b off [x, y] := by
  have hnil : ∀ bs : Bytes, copyAt bs 0 [] = bs := by
    intro bs
    cases bs <;> rfl
  induction b generalizing off with
  | nil => rfl
  | cons z bs ih =>
      cases off with
      | zero => rw [copyAt, hnil, copyAt, copyAt]
      | succ off => rw [copyAt, copyAt, ih, copyAt]

theorem copyAt_append_right (a b : Bytes) (k : Nat) (src : Bytes) :
    copyAt (a ++ b) (a.length + k) src = a ++ copyAt b k src := by
  induction a with
  | nil => simp
  | cons x a ih =>
      rw [List.cons_append, List.length_cons, Nat.add_right_comm, copyAt, ih, List.cons_append]

/-- A write from an offset to the end. -/
theorem copyAt_tail (a : Bytes) {b src : Bytes} (h : src.length = b.length) :
    copyAt (a ++ b) a.length src = a ++ src := by
  rw [copyAt_eq (by rw [List.length_append]; omega), List.take_left,
    List.drop_eq_nil_of_le (by rw [List.length_append]; omega), List.append_nil]

theorem slice_copyAt_before {b : Bytes} {off i j : Nat} {src : Bytes} (hj : j ≤ off) :
    slice (copyAt b off src) i j = slice b i j := by
  rw [slice, slice, ← List.drop_take, ← List.drop_take, take_copyAt hj]

/-- What stands behind a write stays. -/
theorem drop_copyAt {b : Bytes} {off n : Nat} {src : Bytes} (h : off + src.length ≤ n) :
    (copyAt b off src).drop n = b.drop n := by
  induction b, off, src using copyAt.induct generalizing n with
  | case1 off src => rfl
  | case2 b bs => rfl
  | case3 b bs s ss ih =>
      rw [List.length_cons] at h
      obtain ⟨n, rfl⟩ := Nat.exists_eq_add_of_le' (show 1 ≤ n by omega)
      rw [copyAt, List.drop_succ_cons, List.drop_succ_cons, ih (by omega)]
  | case4 b bs off src ih =>
      obtain ⟨n, rfl⟩ := Nat.exists_eq_add_of_le' (show 1 ≤ n by omega)
      rw [copyAt, List.drop_succ_cons, List.drop_succ_cons, ih (by omega)]

theorem slice_copyAt_after {b : Bytes} {off i j : Nat} {src : Bytes} (hi : off + src.length ≤ i) :
    slice (copyAt b off src) i j = slice b i j := by
  rw [slice, slice, drop_copyAt hi]

theorem byteAt_eq_of_drop {a b : Bytes} {i : Nat} (h : a.drop i = b.drop i) :
    byteAt a i = byteAt b i := by
  have hhead := congrArg (fun l => l[0]?) h
  simp only [List.getElem?_drop, Nat.add_zero] at hhead
  rw [byteAt, byteAt, List.getD_eq_getElem?_getD, List.getD_eq_getElem?_getD, hhead]

theorem byteAt_eq_of_take {a b : Bytes} {i n : Nat} (h : a.take n = b.take n) (hi : i < n) :
    byteAt a i = byteAt b i := by
  have hget := congrArg (fun l => l[i]?) h
  simp only [List.getElem?_take_of_lt hi] at hget
  rw [byteAt, byteAt, List.getD_eq_getElem?_getD, List.getD_eq_getElem?_getD, hget]

/-- Strings of one length agree from an offset on if their bytes there do. -/
theorem drop_eq_of_byteAt {a b : Bytes} {n : Nat} (hlen : a.length = b.length)
    (h : ∀ i, n ≤ i → i < a.length → byteAt a i = byteAt b i) : a.drop n = b.drop n := by
  apply List.ext_getElem
  · rw [List.length_drop, List.length_drop, hlen]
  · intro i ha hb
    rw [List.length_drop] at ha hb
    have hbyte := h (n + i) (by omega) (by omega)
    rw [byteAt, byteAt, List.getD_eq_getElem _ _ (by omega),
      List.getD_eq_getElem _ _ (by omega)] at hbyte
    rw [List.getElem_drop, List.getElem_drop]
    exact hbyte

theorem byteAt_copyAt_other {b : Bytes} {off i : Nat} {src : Bytes}
    (h : i < off ∨ off + src.length ≤ i) : byteAt (copyAt b off src) i = byteAt b i := by
  rcases h with h | h
  · exact byteAt_eq_of_take (take_copyAt h) (Nat.lt_succ_self i)
  · exact byteAt_eq_of_drop (drop_copyAt h)

theorem byteAt_slice {b : Bytes} {i j k : Nat} (h : i + k < j) :
    byteAt (slice b i j) k = byteAt b (i + k) := by
  rw [byteAt, byteAt, List.getD_eq_getElem?_getD, List.getD_eq_getElem?_getD, slice,
    List.getElem?_take_of_lt (by omega), List.getElem?_drop]

theorem slice_append_left {a b : Bytes} {i j : Nat} (h : j ≤ a.length) :
    slice (a ++ b) i j = slice a i j := by
  rcases Nat.lt_or_ge i j with hij | hij
  · rw [slice, slice, List.drop_append_of_le_length (by omega),
      List.take_append_of_le_length (by rw [List.length_drop]; omega)]
  · simp [slice, Nat.sub_eq_zero_of_le hij]

theorem slice_append_right {a b : Bytes} {i j : Nat} (h : a.length ≤ i) :
    slice (a ++ b) i j = slice b (i - a.length) (j - a.length) := by
  rw [slice, slice, List.drop_append, List.drop_eq_nil_of_le h, List.nil_append]
  congr 1
  omega

theorem slice_self {b : Bytes} {n : Nat} (h : b.length ≤ n) : slice b 0 n = b := by
  rw [slice, List.drop_zero, List.take_of_length_le (by omega)]

/-- An array read is the slice it names, when the string reaches that far. -/
theorem arrAt_eq {b : Bytes} {off n : Nat} {a : Arr n}
    (h : slice b off (off + n) = a.1) : arrAt b off n = a := by
  apply Subtype.ext
  have hlen : n ≤ (b.drop off).length := by
    have hl := congrArg List.length h
    rw [a.2, slice, List.length_take] at hl
    omega
  rw [← h, arrAt, slice, Nat.add_sub_cancel_left]
  exact List.takeD_eq_take 0 hlen

theorem tryInto_val {n : Nat} (a : Arr n) : tryInto n a.1 = some a := by
  rw [tryInto, dif_pos a.2]

theorem byteAt_append_left {a b : Bytes} {i : Nat} (h : i < a.length) :
    byteAt (a ++ b) i = byteAt a i := by
  simp [byteAt, List.getD_eq_getElem?_getD, List.getElem?_append_left h]

theorem byteAt_eq_slice {b : Bytes} {i : Nat} (h : i < b.length) :
    slice b i (i + 1) = [byteAt b i] := by
  rw [slice, Nat.add_sub_cancel_left, List.drop_eq_getElem_cons h,
    List.take_succ_cons, List.take_zero]
  simp [byteAt, List.getD_eq_getElem?_getD, List.getElem?_eq_getElem h]

theorem byteAt_copyAt_self {b : Bytes} {off : Nat} {x : UInt8} (h : off < b.length) :
    byteAt (copyAt b off [x]) off = x := by
  have hslice := slice_copyAt_self (show off + 1 = off + [x].length from rfl) h
  rw [byteAt_eq_slice (by rwa [length_copyAt])] at hslice
  exact List.singleton_inj.mp hslice

/-- The four bytes of an array of four. -/
theorem arr4_bytes (a : Arr 4) : ∃ w x y z, a.1 = [w, x, y, z] := by
  obtain ⟨l, hl⟩ := a
  match l, hl with
  | [w, x, y, z], _ => exact ⟨w, x, y, z, rfl⟩

theorem be16_bytes (x : UInt16) : ∃ a b, be16 x = [a, b] := by
  have hlen := length_be16 x
  match be16 x, hlen with
  | [a, b], _ => exact ⟨a, b, rfl⟩

theorem be32_bytes (x : UInt32) : ∃ a b c d, be32 x = [a, b, c, d] :=
  arr4_bytes ⟨be32 x, length_be32 x⟩

theorem head?_eq_byteAt {b : Bytes} (h : 0 < b.length) : b.head? = some (byteAt b 0) := by
  cases b with
  | nil => exact absurd h (Nat.lt_irrefl 0)
  | cons x xs => rfl

/-! ## Byte order -/

/-- Two strings of one length are told apart by the same byte with anything
behind them. -/
theorem append_lt_append {a b : Bytes} (h : a < b) (hlen : a.length = b.length) (c d : Bytes) :
    a ++ c < b ++ d := by
  induction a generalizing b with
  | nil =>
      cases b with
      | nil => exact absurd h (List.not_lt_nil _)
      | cons y b => cases hlen
  | cons x a ih =>
      cases b with
      | nil => cases hlen
      | cons y b =>
          rw [List.cons_append, List.cons_append, List.cons_lt_cons_iff]
          rcases List.cons_lt_cons_iff.mp h with hxy | ⟨hxy, hrest⟩
          · exact .inl hxy
          · exact .inr ⟨hxy, ih hrest (Nat.succ.inj hlen)⟩

theorem beBytes_succ (k n : Nat) : beBytes (k + 1) n = beBytes k (n / 256) ++ [UInt8.ofNat n] := by
  rw [beBytes, leBytes, List.reverse_cons, beBytes]

/-- Big-endian numerals are ordered as the numbers are. -/
theorem beBytes_lt {k n m : Nat} (h : n < m) (hm : m < 256 ^ k) : beBytes k n < beBytes k m := by
  induction k generalizing n m with
  | zero =>
      rw [Nat.pow_zero] at hm
      omega
  | succ k ih =>
      rw [beBytes_succ, beBytes_succ]
      rcases Nat.lt_or_ge (n / 256) (m / 256) with hdiv | hdiv
      · have hm' : m / 256 < 256 ^ k := by
          rw [Nat.pow_succ] at hm
          exact Nat.div_lt_of_lt_mul (by omega)
        exact append_lt_append (ih hdiv hm') (by simp) _ _
      · have hsame : n / 256 = m / 256 := by omega
        have hlow : UInt8.ofNat n < UInt8.ofNat m := by
          rw [UInt8.lt_iff_toNat_lt, UInt8.toNat_ofNat', UInt8.toNat_ofNat']
          omega
        rw [hsame]
        exact List.append_left_lt (List.cons_lt_cons_iff.mpr (.inl hlow))

end TailscaleRust.Lib
