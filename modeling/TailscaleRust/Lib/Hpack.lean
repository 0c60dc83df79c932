import TailscaleRust.Lib.Bytes

/-!
# HPACK header blocks

The grammar of a header block, as a decoder that makes no use of the dynamic
table and knows no Huffman coding: integers with a prefix of some bits in the
first byte, strings, the four representations of a header field and the
static table. A block is a list of representations, each of which stands for
a field.

A block is read one representation after the other, each of which takes a
byte at least, so that what is in it can be read off piece by piece
(`decodeReps_cons`).
-/

namespace TailscaleRust.Lib.Hpack

/-! ## Integers and strings -/

/-- The continuation bytes of an integer: seven bits each, lowest first, the
high bit set on all but the last. -/
def continuation : Bytes → Option (Nat × Bytes)
  | [] => none
  | b :: rest =>
      if b.toNat < 128 then some (b.toNat, rest)
      else
        match continuation rest with
        | none => none
        | some (n, rest) => some (b.toNat - 128 + 128 * n, rest)

/-- An integer in the `n` low bits of `b` and, if they are all ones, in the
bytes after it. -/
def decodeInt (n : Nat) (b : UInt8) (rest : Bytes) : Option (Nat × Bytes) :=
  let i := b.toNat % 2 ^ n
  if i < 2 ^ n - 1 then some (i, rest)
  else
    match continuation rest with
    | none => none
    | some (m, rest) => some (i + m, rest)

/-- A string literal; one in Huffman coding is not read. -/
def decodeString : Bytes → Option (Bytes × Bytes)
  | [] => none
  | b :: rest =>
      if 128 ≤ b.toNat then none
      else
        match decodeInt 7 b rest with
        | none => none
        | some (len, rest) =>
            if len ≤ rest.length then some (rest.take len, rest.drop len) else none

/-! ## Fields -/

/-- What a literal asks the receiver to do with its dynamic table. -/
inductive Indexing where
  | incremental
  | without
  | never
  deriving DecidableEq

inductive Name where
  | indexed (i : Nat)
  | new (name : Bytes)
  deriving DecidableEq

/-- A header field as it is represented in a block. -/
inductive Rep where
  | indexed (i : Nat)
  | literal (indexing : Indexing) (name : Name) (value : Bytes)
  deriving DecidableEq

/-- The rest of a literal behind the index of its name, zero for a new name. -/
def decodeLiteral (indexing : Indexing) (index : Nat) (b : Bytes) : Option (Rep × Bytes) :=
  if index = 0 then
    match decodeString b with
    | none => none
    | some (name, b) =>
        match decodeString b with
        | none => none
        | some (value, b) => some (.literal indexing (.new name) value, b)
  else
    match decodeString b with
    | none => none
    | some (value, b) => some (.literal indexing (.indexed index) value, b)

/-- A literal whose name index has a prefix of `n` bits. -/
def decodeNamed (n : Nat) (indexing : Indexing) (b : UInt8) (rest : Bytes) :
    Option (Rep × Bytes) :=
  match decodeInt n b rest with
  | none => none
  | some (index, rest) => decodeLiteral indexing index rest

/-- One representation. The first bits of its first byte say which; an update
of the size of the dynamic table is not a field. -/
def decodeRep : Bytes → Option (Rep × Bytes)
  | [] => none
  | b :: rest =>
      if 128 ≤ b.toNat then
        match decodeInt 7 b rest with
        | none => none
        | some (i, rest) => some (.indexed i, rest)
      else if 64 ≤ b.toNat then decodeNamed 6 .incremental b rest
      else if 32 ≤ b.toNat then none
      else if 16 ≤ b.toNat then decodeNamed 4 .never b rest
      else decodeNamed 4 .without b rest

/-! ## Progress -/

section Progress

theorem continuation_le {b rest : Bytes} {n : Nat} (h : continuation b = some (n, rest)) :
    rest.length ≤ b.length := by
  induction b generalizing n with
  | nil => cases h
  | cons x b ih =>
      rw [continuation] at h
      split at h
      · cases h
        exact Nat.le_succ _
      · split at h
        · cases h
        · next m r hr =>
            cases h
            exact Nat.le_succ_of_le (ih hr)

theorem decodeInt_le {n m : Nat} {x : UInt8} {b rest : Bytes}
    (h : decodeInt n x b = some (m, rest)) : rest.length ≤ b.length := by
  rw [decodeInt] at h
  split at h
  · cases h
    exact Nat.le_refl _
  · split at h
    · cases h
    · next hr =>
        cases h
        exact continuation_le hr

theorem decodeString_le {b s rest : Bytes} (h : decodeString b = some (s, rest)) :
    rest.length ≤ b.length := by
  cases b with
  | nil => cases h
  | cons x b =>
      rw [decodeString] at h
      split at h
      · cases h
      · split at h
        · cases h
        · next len r hr =>
            split at h
            · cases h
              have hle := decodeInt_le hr
              rw [List.length_drop, List.length_cons]
              omega
            · cases h

theorem decodeLiteral_le {ix : Indexing} {i : Nat} {b rest : Bytes} {r : Rep}
    (h : decodeLiteral ix i b = some (r, rest)) : rest.length ≤ b.length := by
  rw [decodeLiteral] at h
  split at h
  · split at h
    · cases h
    · next name b1 h1 =>
        split at h
        · cases h
        · next value b2 h2 =>
            cases h
            exact Nat.le_trans (decodeString_le h2) (decodeString_le h1)
  · split at h
    · cases h
    · next value b1 h1 =>
        cases h
        exact decodeString_le h1

theorem decodeNamed_le {n : Nat} {ix : Indexing} {x : UInt8} {b rest : Bytes} {r : Rep}
    (h : decodeNamed n ix x b = some (r, rest)) : rest.length ≤ b.length := by
  rw [decodeNamed] at h
  split at h
  · cases h
  · next i b1 h1 => exact Nat.le_trans (decodeLiteral_le h) (decodeInt_le h1)

/-- A representation takes at least a byte. -/
theorem decodeRep_lt {b rest : Bytes} {r : Rep} (h : decodeRep b = some (r, rest)) :
    rest.length < b.length := by
  cases b with
  | nil => cases h
  | cons x b =>
      rw [List.length_cons, Nat.lt_succ_iff]
      rw [decodeRep] at h
      split at h
      · split at h
        · cases h
        · next hr =>
            cases h
            exact decodeInt_le hr
      · split at h
        · exact decodeNamed_le h
        · split at h
          · cases h
          · split at h
            · exact decodeNamed_le h
            · exact decodeNamed_le h

end Progress

/-! ## Blocks -/

/-- All representations of a block. -/
def decodeReps (b : Bytes) : Option (List Rep) :=
  if b = [] then some []
  else
    match _h : decodeRep b with
    | none => none
    | some (r, rest) => (decodeReps rest).map (r :: ·)
termination_by b.length
decreasing_by exact decodeRep_lt (by assumption)

theorem decodeReps_nil : decodeReps [] = some [] := by
  rw [decodeReps, if_pos rfl]

theorem decodeReps_cons {b rest : Bytes} {r : Rep} (h : decodeRep b = some (r, rest)) :
    decodeReps b = (decodeReps rest).map (r :: ·) := by
  have hne : b ≠ [] := by
    rintro rfl
    cases h
  rw [decodeReps, if_neg hne]
  split
  · next hn =>
      rw [h] at hn
      cases hn
  · next hr =>
      rw [h] at hr
      cases hr
      rfl

/-- What a block that could be read starts with. -/
theorem decodeReps_eq_some {b : Bytes} {reps : List Rep} (h : decodeReps b = some reps) :
    b = [] ∧ reps = [] ∨
      ∃ r rest rs, decodeRep b = some (r, rest) ∧ decodeReps rest = some rs ∧ reps = r :: rs := by
  rw [decodeReps] at h
  split at h
  · next hnil =>
      cases h
      exact .inl ⟨hnil, rfl⟩
  · split at h
    · cases h
    · next r rest hr =>
        obtain ⟨rs, hrs, rfl⟩ := Option.map_eq_some_iff.mp h
        exact .inr ⟨r, rest, rs, hr, hrs, rfl⟩

/-- The static table: names and values by index, from one on. -/
def staticTable : List (Bytes × Bytes) :=
  [(":authority", ""), (":method", "GET"), (":method", "POST"), (":path", "/"),
    (":path", "/index.html"), (":scheme", "http"), (":scheme", "https"), (":status", "200"),
    (":status", "204"), (":status", "206"), (":status", "304"), (":status", "400"),
    (":status", "404"), (":status", "500"), ("accept-charset", ""),
    ("accept-encoding", "gzip, deflate"), ("accept-language", ""), ("accept-ranges", ""),
    ("accept", ""), ("access-control-allow-origin", ""), ("age", ""), ("allow", ""),
    ("authorization", ""), ("cache-control", ""), ("content-disposition", ""),
    ("content-encoding", ""), ("content-language", ""), ("content-length", ""),
    ("content-location", ""), ("content-range", ""), ("content-type", ""), ("cookie", ""),
    ("date", ""), ("etag", ""), ("expect", ""), ("expires", ""), ("from", ""), ("host", ""),
    ("if-match", ""), ("if-modified-since", ""), ("if-none-match", ""), ("if-range", ""),
    ("if-unmodified-since", ""), ("last-modified", ""), ("link", ""), ("location", ""),
    ("max-forwards", ""), ("proxy-authenticate", ""), ("proxy-authorization", ""), ("range", ""),
    ("referer", ""), ("refresh", ""), ("retry-after", ""), ("server", ""), ("set-cookie", ""),
    ("strict-transport-security", ""), ("transfer-encoding", ""), ("user-agent", ""),
    ("vary", ""), ("via", ""), ("www-authenticate", "")].map fun e => (ascii e.1, ascii e.2)

/-- The entry of an index; an index past the table would be a dynamic one. -/
def staticEntry (i : Nat) : Option (Bytes × Bytes) :=
  if i = 0 then none else staticTable[i - 1]?

/-- The field a representation stands for. -/
def Rep.field : Rep → Option (Bytes × Bytes)
  | .indexed i => staticEntry i
  | .literal _ (.indexed i) value => (staticEntry i).map fun e => (e.1, value)
  | .literal _ (.new name) value => some (name, value)

/-- The fields of representations, if all of them stand for one. -/
def fieldsOf : List Rep → Option (List (Bytes × Bytes))
  | [] => some []
  | r :: rs =>
      match r.field, fieldsOf rs with
      | some f, some fs => some (f :: fs)
      | _, _ => none

theorem fieldsOf_cons {r : Rep} {rs : List Rep} (h : (fieldsOf (r :: rs)).isSome) :
    r.field.isSome ∧ (fieldsOf rs).isSome := by
  rw [fieldsOf] at h
  split at h
  · next hf hfs =>
      rw [hf, hfs]
      exact ⟨rfl, rfl⟩
  · cases h

/-- The header list of a block. -/
def decodeBlock (b : Bytes) : Option (List (Bytes × Bytes)) :=
  match decodeReps b with
  | none => none
  | some reps => fieldsOf reps

end TailscaleRust.Lib.Hpack
