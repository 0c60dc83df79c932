import TailscaleRust.Lib.Bytes
import Mathlib.Data.List.DropRight

/-!
# Searching and decoding byte strings

The text operations of Rust's standard library that the network code uses:
`windows(n).position` and `str::contains`, `String::from_utf8_lossy`, and
`str::trim`. A decoded string is the list of its characters.

`lossy` replaces every maximal ill-formed prefix of a UTF-8 sequence by
U+FFFD. ASCII bytes are never part of a longer sequence, so decoding can be
cut in front of one (`lossy_append_ascii`).
-/

namespace TailscaleRust.Lib

/-! ## Searching -/

theorem window_append_left {α : Type} {p a b : List α} {m : Nat} (h : m + p.length ≤ a.length) :
    ((a ++ b).drop m).take p.length = (a.drop m).take p.length := by
  rw [List.drop_append_of_le_length (by omega), List.take_append_of_le_length]
  rw [List.length_drop]
  omega

section Search

variable {α : Type} [DecidableEq α]

/-- The first offset at which a pattern occurs, `windows(n).position`. -/
def position (p : List α) : List α → Option Nat
  | [] => none
  | b :: rest =>
      if (b :: rest).take p.length = p then some 0 else (position p rest).map (· + 1)

/-- `str::contains`. -/
def contains (s p : List α) : Bool := (position p s).isSome

/-- `position` returns the first place where the pattern occurs. -/
theorem position_eq_some_iff {p : List α} (hp : p ≠ []) {raw : List α} {n : Nat} :
    position p raw = some n ↔
      (raw.drop n).take p.length = p ∧ ∀ m < n, (raw.drop m).take p.length ≠ p := by
  induction raw generalizing n with
  | nil =>
      rw [position]
      refine ⟨?_, ?_⟩
      · intro h
        cases h
      · intro hfirst
        obtain ⟨h, -⟩ := hfirst
        exact absurd (by simpa using h.symm) hp
  | cons b rest ih =>
      rw [position]
      split
      · next hhere =>
          refine ⟨?_, ?_⟩
          · intro h
            cases h
            exact ⟨hhere, fun m hm => absurd hm (Nat.not_lt_zero m)⟩
          · intro hfirst
            obtain ⟨-, hleast⟩ := hfirst
            cases n with
            | zero => rfl
            | succ n => exact absurd hhere (hleast 0 (Nat.succ_pos n))
      · next hhere =>
          cases n with
          | zero =>
              refine ⟨?_, ?_⟩
              · intro h
                cases hr : position p rest <;> rw [hr] at h <;> cases h
              · intro hfirst
                obtain ⟨h, -⟩ := hfirst
                exact absurd h hhere
          | succ n =>
              have hmap : (position p rest).map (· + 1) = some (n + 1) ↔
                  position p rest = some n := by
                simp [Option.map_eq_some_iff]
              rw [hmap, ih, List.drop_succ_cons]
              refine ⟨?_, ?_⟩
              · intro hfirst
                obtain ⟨h, hleast⟩ := hfirst
                refine ⟨h, fun m hm => ?_⟩
                cases m with
                | zero => exact hhere
                | succ m => exact hleast m (by omega)
              · intro hfirst
                obtain ⟨h, hleast⟩ := hfirst
                exact ⟨h, fun m hm => hleast (m + 1) (by omega)⟩

/-- A pattern in front of some text is found at the latest there. -/
theorem contains_append (a p b : List α) (hp : p ≠ []) : contains (a ++ p ++ b) p = true := by
  induction a with
  | nil =>
      obtain ⟨x, xs, rfl⟩ := List.exists_cons_of_ne_nil hp
      have hhere : (x :: xs ++ b).take (x :: xs).length = x :: xs := List.take_left
      rw [List.cons_append] at hhere
      simp only [contains, List.nil_append, List.cons_append, position, hhere, if_true,
        Option.isSome_some]
  | cons x a ih =>
      simp only [contains, List.cons_append, position]
      split
      · rfl
      · rw [Option.isSome_map]
        exact ih

/-- The place of a pattern that occurs within `a` does not depend on what
comes after `a`. -/
theorem position_append {p a b : List α} (hp : p ≠ []) {n : Nat}
    (h : position p (a ++ b) = some n) (hn : n + p.length ≤ a.length) :
    position p a = some n := by
  rw [position_eq_some_iff hp] at h ⊢
  refine ⟨?_, fun m hm => ?_⟩
  · rw [← window_append_left hn]
    exact h.1
  · rw [← window_append_left (by omega)]
    exact h.2 m hm

theorem position_append_right {p a b : List α} (hp : p ≠ []) {n : Nat}
    (h : position p a = some n) : position p (a ++ b) = some n := by
  rw [position_eq_some_iff hp] at h ⊢
  have hlen := congrArg List.length h.1
  rw [List.length_take, List.length_drop] at hlen
  have hpos : 0 < p.length := List.length_pos_iff.mpr hp
  refine ⟨?_, fun m hm => ?_⟩
  · rw [window_append_left (by omega)]
    exact h.1
  · rw [window_append_left (by omega)]
    exact h.2 m hm

/-- A text too short to hold the first occurrence holds none. -/
theorem position_prefix_none {p a b : List α} (hp : p ≠ []) {n : Nat}
    (h : position p (a ++ b) = some n) (hn : a.length < n + p.length) :
    position p a = none := by
  cases ha : position p a with
  | none => rfl
  | some k =>
      exfalso
      obtain ⟨hk, -⟩ := (position_eq_some_iff hp).mp ha
      have hlen := congrArg List.length hk
      rw [List.length_take, List.length_drop] at hlen
      have hpos : 0 < p.length := List.length_pos_iff.mpr hp
      refine ((position_eq_some_iff hp).mp h).2 k (by omega) ?_
      rw [window_append_left (by omega)]
      exact hk

/-- The first occurrence behind `a` is the first one of what follows `a`. -/
theorem position_append_drop {p a b : List α} (hp : p ≠ []) {n : Nat}
    (h : position p (a ++ b) = some n) (hn : a.length ≤ n) :
    position p b = some (n - a.length) := by
  rw [position_eq_some_iff hp] at h ⊢
  obtain ⟨hhere, hleast⟩ := h
  refine ⟨?_, ?_⟩
  · rw [List.drop_append, List.drop_eq_nil_of_le hn, List.nil_append] at hhere
    exact hhere
  · intro m hm hmatch
    refine hleast (a.length + m) (by omega) ?_
    rw [List.drop_length_add_append]
    exact hmatch

/-- An occurrence in a part is one in the whole. -/
theorem exists_position_append (p : List α) {b : List α} {k : Nat} (h : position p b = some k)
    (a : List α) : ∃ n, position p (a ++ b) = some n ∧ n ≤ a.length + k := by
  induction a with
  | nil => exact ⟨k, h, by omega⟩
  | cons x a ih =>
      obtain ⟨n, hn, hle⟩ := ih
      rw [List.cons_append, position]
      split
      · exact ⟨0, rfl, by omega⟩
      · rw [hn]
        exact ⟨n + 1, rfl, by rw [List.length_cons]; omega⟩

end Search

/-! ## Lossy UTF-8 -/

def replacement : Char := Char.ofNat 0xfffd

/-- A multi-byte sequence begun and not yet ended: the bits so far, how many
bytes are still wanted after the next one, and the range the next one must
be in. The range is narrower than that of all continuation bytes where those
would give an overlong form, a surrogate or a value past U+10FFFF. -/
structure Unfinished where
  acc : Nat
  left : Nat
  lo : UInt8
  hi : UInt8
  lo_ge : 0x80 ≤ lo
  deriving DecidableEq

/-- What a byte means at the start of a character. -/
def leadByte (b : UInt8) : List Char × Option Unfinished :=
  if b < 0x80 then ([Char.ofNat b.toNat], none)
  else if 0xc2 ≤ b ∧ b ≤ 0xdf then ([], some ⟨b.toNat % 32, 0, 0x80, 0xbf, by decide⟩)
  else if b = 0xe0 then ([], some ⟨0, 1, 0xa0, 0xbf, by decide⟩)
  else if b = 0xed then ([], some ⟨13, 1, 0x80, 0x9f, by decide⟩)
  else if 0xe1 ≤ b ∧ b ≤ 0xef then ([], some ⟨b.toNat % 16, 1, 0x80, 0xbf, by decide⟩)
  else if b = 0xf0 then ([], some ⟨0, 2, 0x90, 0xbf, by decide⟩)
  else if b = 0xf4 then ([], some ⟨4, 2, 0x80, 0x8f, by decide⟩)
  else if 0xf1 ≤ b ∧ b ≤ 0xf3 then ([], some ⟨b.toNat % 8, 2, 0x80, 0xbf, by decide⟩)
  else ([replacement], none)

/-- One byte of input. A byte that cannot continue the sequence ends it as
ill-formed and is then looked at afresh. -/
def decodeByte (s : Option Unfinished) (b : UInt8) : List Char × Option Unfinished :=
  match s with
  | none => leadByte b
  | some p =>
      if p.lo ≤ b ∧ b ≤ p.hi then
        let acc := p.acc * 64 + b.toNat % 64
        match p.left with
        | 0 => ([Char.ofNat acc], none)
        | n + 1 => ([], some ⟨acc, n, 0x80, 0xbf, by decide⟩)
      else (replacement :: (leadByte b).1, (leadByte b).2)

def lossyFrom : Option Unfinished → Bytes → List Char
  | none, [] => []
  | some _, [] => [replacement]
  | s, b :: rest => (decodeByte s b).1 ++ lossyFrom (decodeByte s b).2 rest

/-- `String::from_utf8_lossy`. -/
def lossy (b : Bytes) : List Char := lossyFrom none b

theorem lossyFrom_ascii {s : Option Unfinished} {b : UInt8} {rest : Bytes} (h : b < 0x80) :
    lossyFrom s (b :: rest) = lossyFrom s [] ++ Char.ofNat b.toNat :: lossy rest := by
  have hlead : leadByte b = ([Char.ofNat b.toNat], none) := by rw [leadByte, if_pos h]
  cases s with
  | none => simp only [lossyFrom, decodeByte, hlead, lossy, List.nil_append, List.cons_append]
  | some p =>
      have hout : ¬(p.lo ≤ b ∧ b ≤ p.hi) := fun hr =>
        absurd (UInt8.le_trans p.lo_ge hr.1) (UInt8.not_le.mpr h)
      simp only [lossyFrom, decodeByte, if_neg hout, hlead, lossy, List.nil_append,
        List.cons_append]

/-- An ASCII byte is never swallowed by what stands before it. -/
theorem lossy_append_ascii {x rest : Bytes} {b : UInt8} (h : b < 0x80) :
    lossy (x ++ b :: rest) = lossy x ++ Char.ofNat b.toNat :: lossy rest := by
  suffices hs : ∀ s, lossyFrom s (x ++ b :: rest) =
      lossyFrom s x ++ Char.ofNat b.toNat :: lossy rest from hs none
  induction x with
  | nil =>
      intro s
      exact lossyFrom_ascii h
  | cons a x ih =>
      intro s
      rw [List.cons_append, lossyFrom, ih, lossyFrom, List.append_assoc]

theorem lossy_ascii_append {a rest : Bytes} (h : ∀ b ∈ a, b < 0x80) :
    lossy (a ++ rest) = (a.map fun b => Char.ofNat b.toNat) ++ lossy rest := by
  induction a with
  | nil => rfl
  | cons b a ih =>
      have hb : lossy (b :: (a ++ rest)) = Char.ofNat b.toNat :: lossy (a ++ rest) :=
        lossy_append_ascii (x := []) (h b List.mem_cons_self)
      rw [List.cons_append, hb, ih fun c hc => h c (List.mem_cons_of_mem b hc)]
      rfl

/-! ## Trimming -/

/-- Unicode's `White_Space`, as `char::is_whitespace` has it. -/
def isWhitespace (c : Char) : Bool :=
  let n := c.toNat
  (9 ≤ n ∧ n ≤ 13) ∨ n = 0x20 ∨ n = 0x85 ∨ n = 0xa0 ∨ n = 0x1680 ∨
    (0x2000 ≤ n ∧ n ≤ 0x200a) ∨ n = 0x2028 ∨ n = 0x2029 ∨ n = 0x202f ∨ n = 0x205f ∨ n = 0x3000

def trimStart (s : List Char) : List Char := s.dropWhile isWhitespace

def trimEnd (s : List Char) : List Char := s.rdropWhile isWhitespace

/-- `str::trim`. -/
def trim (s : List Char) : List Char := trimEnd (trimStart s)

theorem trimStart_cons {c : Char} {s : List Char} (h : isWhitespace c = false) :
    trimStart (c :: s) = c :: s := by
  rw [trimStart, List.dropWhile_cons_of_neg (by simp [h])]

theorem trimEnd_append_blank {a b : List Char} (h : ∀ c ∈ b, isWhitespace c = true) :
    trimEnd (a ++ b) = trimEnd a := by
  rw [trimEnd, List.rdropWhile, List.reverse_append, List.dropWhile_append_of_pos,
    ← List.rdropWhile, trimEnd]
  intro c hc
  exact h c (List.mem_reverse.mp hc)

theorem trimEnd_append {a b : List Char} (h : ∃ c ∈ b, isWhitespace c = false) :
    trimEnd (a ++ b) = a ++ trimEnd b := by
  obtain ⟨c, hc, hblack⟩ := h
  have hrest : (b.reverse.dropWhile isWhitespace).isEmpty = false := by
    rw [← Bool.not_eq_true, List.isEmpty_iff, List.dropWhile_eq_nil_iff]
    intro hall
    rw [hall c (List.mem_reverse.mpr hc)] at hblack
    cases hblack
  rw [trimEnd, List.rdropWhile, List.reverse_append, List.dropWhile_append, hrest]
  rw [if_neg Bool.false_ne_true, List.reverse_append, List.reverse_reverse]
  rfl

end TailscaleRust.Lib
