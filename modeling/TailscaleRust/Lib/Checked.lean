import TailscaleRust.Lib.Bytes

/-!
# Computations that may panic

A Rust slice is read and written under checks: an index or a range outside
it panics, a write from a slice of another length panics, and in a build
with overflow checks so does an addition that does not fit its type. A
computation in `Checked` makes these checks visible. Each operation has one
rule, which says under what condition it succeeds and what it then is among
the total operations on byte strings. A program written with them cannot
panic if the rules rewrite it to `.ok`.

`usize` is that of a 32-bit target.
-/

namespace TailscaleRust.Lib

/-- Why a thread panics. -/
inductive Panic where
  | index
  | slice
  | unwrap
  | overflow
  deriving DecidableEq

/-- A computation that may panic. -/
abbrev Checked := Except Panic

namespace Checked

section Monad

variable {α β : Type}

@[simp] theorem ok_bind (a : α) (f : α → Checked β) : (Except.ok a >>= f) = f a := rfl

@[simp] theorem pure_eq (a : α) : (pure a : Checked α) = .ok a := rfl

theorem mapM_ok {f : α → Checked β} {g : α → β} {l : List α} (h : ∀ a ∈ l, f a = .ok (g a)) :
    l.mapM f = .ok (l.map g) := by
  induction l with
  | nil => rfl
  | cons a l ih =>
      rw [List.mapM_cons, h a List.mem_cons_self, ok_bind,
        ih fun b hb => h b (List.mem_cons_of_mem a hb), ok_bind, pure_eq, List.map_cons]

/-- `o.unwrap()`. -/
def unwrap : Option α → Checked α
  | some a => .ok a
  | none => .error .unwrap

end Monad

/-! ## Arithmetic -/

/-- `a + b` in `usize`. -/
def addUsize (a b : Nat) : Checked Nat :=
  if a + b < 2 ^ 32 then .ok (a + b) else .error .overflow

/-- `a * b` in `usize`. -/
def mulUsize (a b : Nat) : Checked Nat :=
  if a * b < 2 ^ 32 then .ok (a * b) else .error .overflow

/-- `a - b` in `usize`. -/
def subUsize (a b : Nat) : Checked Nat :=
  if b ≤ a then .ok (a - b) else .error .overflow

/-- `a + b` in `u32`. -/
def addU32 (a b : UInt32) : Checked UInt32 :=
  if a.toNat + b.toNat < 2 ^ 32 then .ok (a + b) else .error .overflow

/-- `a - b` in `u32`. -/
def subU32 (a b : UInt32) : Checked UInt32 :=
  if b ≤ a then .ok (a - b) else .error .overflow

/-- `a << k` in `u32`, whose shift is less than the width. -/
def shlU32 (a k : UInt32) : Checked UInt32 :=
  if k < 32 then .ok (a <<< k) else .error .overflow

/-- `a + b` in `u64`. -/
def addU64 (a b : UInt64) : Checked UInt64 :=
  if a.toNat + b.toNat < 2 ^ 64 then .ok (a + b) else .error .overflow

/-- Is the number an `i32`? -/
def FitsI32 (x : Int) : Prop := -2147483648 ≤ x ∧ x ≤ 2147483647

instance (x : Int) : Decidable (FitsI32 x) := inferInstanceAs (Decidable (_ ∧ _))

/-- The result of an operation on `i32`. -/
def toI32 (x : Int) : Checked Int := if FitsI32 x then .ok x else .error .overflow

theorem toI32_ok {x : Int} (h : -2147483648 ≤ x) (h' : x ≤ 2147483647) : toI32 x = .ok x :=
  if_pos ⟨h, h'⟩

theorem addUsize_ok {a b : Nat} (h : a + b < 2 ^ 32) : addUsize a b = .ok (a + b) := if_pos h

theorem mulUsize_ok {a b : Nat} (h : a * b < 2 ^ 32) : mulUsize a b = .ok (a * b) := if_pos h

theorem subUsize_ok {a b : Nat} (h : b ≤ a) : subUsize a b = .ok (a - b) := if_pos h

theorem addU32_ok {a b : UInt32} (h : a.toNat + b.toNat < 2 ^ 32) :
    addU32 a b = .ok (a + b) := if_pos h

theorem subU32_ok {a b : UInt32} (h : b ≤ a) : subU32 a b = .ok (a - b) := if_pos h

theorem shlU32_ok {a k : UInt32} (h : k < 32) : shlU32 a k = .ok (a <<< k) := if_pos h

theorem addU64_ok {a b : UInt64} (h : a.toNat + b.toNat < 2 ^ 64) :
    addU64 a b = .ok (a + b) := if_pos h

/-! ## Reads -/

/-- `b[i]`. -/
def index (b : Bytes) (i : Nat) : Checked UInt8 :=
  if i < b.length then .ok (byteAt b i) else .error .index

/-- `&b[i..j]`. -/
def range (b : Bytes) (i j : Nat) : Checked Bytes :=
  if i ≤ j ∧ j ≤ b.length then .ok (slice b i j) else .error .slice

/-- `&b[i..]`. -/
def rangeFrom (b : Bytes) (i : Nat) : Checked Bytes :=
  if i ≤ b.length then .ok (b.drop i) else .error .slice

/-- A slice as an array: `copy_from_slice` over a whole array,
`clone_from_slice`, or `try_into().unwrap()`. -/
def toArray (n : Nat) (b : Bytes) : Checked (Arr n) :=
  if h : b.length = n then .ok ⟨b, h⟩ else .error .slice

/-- `u16::from_be_bytes([b[i], b[j]])`. -/
def u16Of (b : Bytes) (i j : Nat) : Checked UInt16 := do
  let x ← index b i
  let y ← index b j
  return UInt16.ofNat (beNat [x, y])

/-- `[b[i], b[i + 1], b[i + 2], b[i + 3]]`, for a constant `i`. -/
def bytes4 (b : Bytes) (i : Nat) : Checked Bytes := do
  let w ← index b i
  let x ← index b (i + 1)
  let y ← index b (i + 2)
  let z ← index b (i + 3)
  return [w, x, y, z]

/-- `u32::from_be_bytes` of four bytes. -/
def u32beOf (b : Bytes) (i : Nat) : Checked UInt32 := do
  let x ← bytes4 b i
  return UInt32.ofNat (beNat x)

/-- `u32::from_le_bytes` of four bytes. -/
def u32leOf (b : Bytes) (i : Nat) : Checked UInt32 := do
  let x ← bytes4 b i
  return UInt32.ofNat (leNat x)

theorem index_ok {b : Bytes} {i : Nat} (h : i < b.length) : index b i = .ok (byteAt b i) :=
  if_pos h

theorem range_ok {b : Bytes} {i j : Nat} (hij : i ≤ j) (hj : j ≤ b.length) :
    range b i j = .ok (slice b i j) :=
  if_pos ⟨hij, hj⟩

theorem rangeArr_ok {n : Nat} {a : Arr n} {i j : Nat} (hij : i ≤ j) (hj : j ≤ n) :
    range a.1 i j = .ok (slice a.1 i j) :=
  range_ok hij (by rw [a.2]; exact hj)

theorem rangeFrom_ok {b : Bytes} {i : Nat} (h : i ≤ b.length) :
    rangeFrom b i = .ok (b.drop i) :=
  if_pos h

theorem toArray_ok {n : Nat} {b : Bytes} (h : b.length = n) : toArray n b = .ok ⟨b, h⟩ :=
  dif_pos h

theorem toArray_slice {b : Bytes} {n off j : Nat} (hj : j = off + n) (h : j ≤ b.length) :
    toArray n (slice b off j) = .ok (arrAt b off n) := by
  subst hj
  have hlen : (slice b off (off + n)).length = n := by
    rw [length_slice h]
    omega
  have harr : arrAt b off n = ⟨slice b off (off + n), hlen⟩ := arrAt_eq rfl
  rw [toArray_ok hlen, harr]

theorem drop_eq_byteAt_cons {b : Bytes} {i : Nat} (h : i < b.length) :
    b.drop i = byteAt b i :: b.drop (i + 1) := by
  rw [List.drop_eq_getElem_cons h]
  simp [byteAt, List.getD_eq_getElem?_getD, List.getElem?_eq_getElem h]

/-- Two bytes in a row are the slice they make. -/
theorem slice_two {b : Bytes} {i : Nat} (h : i + 1 < b.length) :
    slice b i (i + 2) = [byteAt b i, byteAt b (i + 1)] := by
  rw [← slice_slice_append (Nat.le_succ i) (Nat.le_succ (i + 1)),
    byteAt_eq_slice (by omega), byteAt_eq_slice h]
  rfl

theorem u16Of_ok {b : Bytes} {i j : Nat} (hj : j = i + 1) (h : j < b.length) :
    u16Of b i j = .ok (u16be b i) := by
  subst hj
  rw [u16Of, index_ok (by omega), index_ok h, u16be, slice_two h]
  rfl

theorem bytes4_ok {b : Bytes} {i : Nat} (h : i + 4 ≤ b.length) :
    bytes4 b i = .ok (slice b i (i + 4)) := by
  rw [← slice_slice_append (show i ≤ i + 2 by omega) (show i + 2 ≤ i + 4 by omega),
    slice_two (by omega), slice_two (by omega), bytes4, index_ok (by omega), index_ok (by omega),
    index_ok (by omega), index_ok (by omega)]
  rfl

theorem u32beOf_ok {b : Bytes} {i : Nat} (h : i + 4 ≤ b.length) :
    u32beOf b i = .ok (u32be b i) := by
  rw [u32beOf, bytes4_ok h, u32be]
  rfl

theorem u32leOf_ok {b : Bytes} {i : Nat} (h : i + 4 ≤ b.length) :
    u32leOf b i = .ok (u32le b i) := by
  rw [u32leOf, bytes4_ok h, u32le]
  rfl

/-! ## Writes -/

/-- `b[i] = x`. -/
def setAt (b : Bytes) (i : Nat) (x : UInt8) : Checked Bytes :=
  if i < b.length then .ok (copyAt b i [x]) else .error .index

/-- `b[i..j].copy_from_slice(src)`. -/
def copyInto (b : Bytes) (i j : Nat) (src : Bytes) : Checked Bytes :=
  if i ≤ j ∧ j ≤ b.length ∧ src.length = j - i then .ok (copyAt b i src) else .error .slice

/-- The same in an array. -/
def copyArr {n : Nat} (b : Arr n) (i j : Nat) (src : Bytes) : Checked (Arr n) :=
  if i ≤ j ∧ j ≤ n ∧ src.length = j - i then .ok (b.copyAt i src) else .error .slice

theorem setAt_ok {b : Bytes} {i : Nat} {x : UInt8} (h : i < b.length) :
    setAt b i x = .ok (copyAt b i [x]) :=
  if_pos h

theorem copyInto_ok {b : Bytes} {i j : Nat} {src : Bytes} (hsrc : j = i + src.length)
    (hj : j ≤ b.length) : copyInto b i j src = .ok (copyAt b i src) :=
  if_pos ⟨by omega, hj, by omega⟩

theorem copyArr_ok {n : Nat} {b : Arr n} {i j : Nat} {src : Bytes} (hsrc : j = i + src.length)
    (hj : j ≤ n) : copyArr b i j src = .ok (b.copyAt i src) :=
  if_pos ⟨by omega, hj, by omega⟩

end Checked

end TailscaleRust.Lib
