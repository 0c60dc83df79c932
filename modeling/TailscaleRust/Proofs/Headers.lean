import TailscaleRust.Core.H2Client
import TailscaleRust.Lib.Hpack

/-!
# Header blocks, written and read

`enc_header` writes one representation of HPACK, the literal without indexing
with a new name, and a decoder for the whole grammar reads every list of
headers back. `decode_status` reads two representations, that literal as long
as its strings are short and the indexed field. Any other literal stops it or,
where the name is an index, is read at the wrong length. Which blocks it reads
right is a condition on the representations in them.
-/

namespace TailscaleRust.Proofs

open TailscaleRust.Lib TailscaleRust.Lib.Hpack TailscaleRust.Core
open TailscaleRust.Core.Peers

/-! ## Encoding -/

theorem continuation_byte (rem : Nat) :
    (UInt8.ofNat ((rem &&& 0x7f) ||| 0x80)).toNat = rem % 128 + 128 := by
  have hand : rem &&& 0x7f = rem % 128 := Nat.and_two_pow_sub_one_eq_mod rem 7
  have hor : rem % 128 ||| 0x80 = 128 + rem % 128 := by
    rw [Nat.or_comm]
    exact (Nat.two_pow_add_eq_or_of_lt (i := 7) (Nat.mod_lt rem (by decide)) 1).symm
  rw [hand, hor, UInt8.toNat_ofNat']
  omega

/-- The continuation bytes are read back, whatever follows them. -/
theorem continuation_encRem (rem : Nat) (rest : Bytes) :
    continuation (H2.encRem rem ++ rest) = some (rem, rest) := by
  induction rem using Nat.strongRecOn with
  | ind rem ih =>
    rw [H2.encRem]
    split
    · next hge =>
        have hshift : rem >>> 7 = rem / 128 := Nat.shiftRight_eq_div_pow rem 7
        rw [List.cons_append, continuation, continuation_byte, if_neg (by omega), hshift,
          ih (rem / 128) (by omega)]
        simp only [Option.some.injEq, Prod.mk.injEq, and_true]
        omega
    · next hlt =>
        have hbyte : (UInt8.ofNat rem).toNat = rem := by
          rw [UInt8.toNat_ofNat']
          omega
        rw [List.cons_append, List.nil_append, continuation, hbyte, if_pos (by omega)]

theorem decodeString_encStr (s rest : Bytes) :
    decodeString (H2.encStr s ++ rest) = some (s, rest) := by
  have hcut : s.length ≤ (s ++ rest).length := by
    rw [List.length_append]
    omega
  rw [H2.encStr]
  split
  · next hlt =>
      have hbyte : (UInt8.ofNat s.length).toNat = s.length := by
        rw [UInt8.toNat_ofNat']
        omega
      rw [List.cons_append, decodeString, hbyte, if_neg (by omega), decodeInt, hbyte,
        Nat.mod_eq_of_lt (by omega), if_pos (by omega)]
      simp only [hcut, if_true, List.take_left, List.drop_left]
  · next hge =>
      have hbyte : ((0x7f : UInt8)).toNat = 127 := rfl
      rw [List.cons_append, List.append_assoc, decodeString, hbyte, if_neg (by omega), decodeInt,
        hbyte, if_neg (by decide), continuation_encRem]
      have hlen : 127 % 2 ^ 7 + (s.length - 127) = s.length := by omega
      simp only [hlen, hcut, if_true, List.take_left, List.drop_left]

theorem decodeRep_encHeader (name value rest : Bytes) :
    decodeRep (H2.encHeader name value ++ rest) =
      some (.literal .without (.new name) value, rest) := by
  have hzero : (0x00 : UInt8).toNat = 0 := rfl
  have hint : decodeInt 4 0x00 (H2.encStr name ++ (H2.encStr value ++ rest)) =
      some (0, H2.encStr name ++ (H2.encStr value ++ rest)) := rfl
  rw [H2.encHeader, List.cons_append, List.append_assoc, decodeRep, hzero, if_neg (by omega),
    if_neg (by omega), if_neg (by omega), if_neg (by omega), decodeNamed, hint]
  simp only [decodeLiteral, if_true, decodeString_encStr]

theorem decodeReps_encHeaders (hs : List (Bytes × Bytes)) :
    decodeReps (hs.flatMap fun h => H2.encHeader h.1 h.2) =
      some (hs.map fun h => .literal .without (.new h.1) h.2) := by
  induction hs with
  | nil => exact decodeReps_nil
  | cons h hs ih =>
      rw [List.flatMap_cons, decodeReps_cons (decodeRep_encHeader h.1 h.2 _), ih]
      rfl

/-- Every list of headers, with names and values of any lengths, is read back
from its encoding, and nothing is left over. -/
theorem decodeBlock_encHeaders (hs : List (Bytes × Bytes)) :
    decodeReps (hs.flatMap fun h => H2.encHeader h.1 h.2) =
        some (hs.map fun h => .literal .without (.new h.1) h.2) ∧
      decodeBlock (hs.flatMap fun h => H2.encHeader h.1 h.2) = some hs := by
  have hfields : fieldsOf (hs.map fun h => Rep.literal .without (.new h.1) h.2) = some hs := by
    induction hs with
    | nil => rfl
    | cons h hs ih => rw [List.map_cons, fieldsOf, ih, Rep.field]
  refine ⟨decodeReps_encHeaders hs, ?_⟩
  rw [decodeBlock, decodeReps_encHeaders]
  exact hfields

/-! ## What `decode_status` looks at -/

/-- The three tests it makes of a first byte, on all bytes. -/
theorem first_byte (b : UInt8) :
    (b &&& 0x80 ≠ 0 ↔ 128 ≤ b.toNat) ∧ (b &&& 0x7f).toNat = b.toNat % 128 ∧
      (b &&& 0xf0 = 0 ↔ b.toNat < 16) := by
  have hall : ∀ n : Fin 256, (UInt8.ofNat n &&& 0x80 ≠ 0 ↔ 128 ≤ (UInt8.ofNat n).toNat) ∧
      (UInt8.ofNat n &&& 0x7f).toNat = (UInt8.ofNat n).toNat % 128 ∧
      (UInt8.ofNat n &&& 0xf0 = 0 ↔ (UInt8.ofNat n).toNat < 16) := by
    decide +kernel
  have hb := hall ⟨b.toNat, b.toNat_lt⟩
  rwa [UInt8.ofNat_toNat] at hb

theorem decodeInt_small {n i : Nat} {x : UInt8} {b rest : Bytes}
    (h : decodeInt n x b = some (i, rest)) (hi : i < 2 ^ n - 1) :
    x.toNat % 2 ^ n = i ∧ rest = b := by
  rw [decodeInt] at h
  split at h
  · cases h
    exact ⟨rfl, rfl⟩
  · split at h
    · cases h
    · next m r hr =>
        cases h
        omega

/-- A string with its length in one byte is read as the grammar reads it,
and whatever follows it. -/
theorem shortStr_of_decodeString {b s rest : Bytes} (h : decodeString b = some (s, rest))
    (hs : s.length < 127) (more : Bytes) : H2.shortStr (b ++ more) = some (s, rest ++ more) := by
  cases b with
  | nil => cases h
  | cons x b =>
      rw [decodeString] at h
      split at h
      · cases h
      · next hlow =>
          split at h
          · cases h
          · next len r hint =>
              split at h
              · next hle =>
                  cases h
                  rw [List.length_take, Nat.min_eq_left hle] at hs
                  obtain ⟨hlen, rfl⟩ := decodeInt_small hint (by omega)
                  have hbyte : (x &&& 0x7f).toNat = len := (first_byte x).2.1.trans hlen
                  rw [List.cons_append, H2.shortStr, hbyte, if_neg
                    (by rw [List.length_append]; omega), List.take_append_of_le_length hle,
                    List.drop_append_of_le_length hle]
              · cases h

/-! ## Representations one by one -/

section Steps

variable {b rest : Bytes}

theorem decodeNamed_literal {n : Nat} {ix : Indexing} {x : UInt8} {r : Rep}
    (h : decodeNamed n ix x b = some (r, rest)) : ∃ nm v, r = .literal ix nm v := by
  rw [decodeNamed] at h
  split at h
  · cases h
  · rw [decodeLiteral] at h
    split at h
    · split at h
      · cases h
      · split at h
        · cases h
        · cases h
          exact ⟨_, _, rfl⟩
    · split at h
      · cases h
      · cases h
        exact ⟨_, _, rfl⟩

/-- What the first byte says about a representation. -/
theorem decodeRep_cases {r : Rep} (h : decodeRep b = some (r, rest)) :
    ∃ x b', b = x :: b' ∧
      ((128 ≤ x.toNat ∧ ∃ i, r = .indexed i ∧ decodeInt 7 x b' = some (i, rest)) ∨
      (16 ≤ x.toNat ∧ x.toNat < 128 ∧ ∃ ix nm v, ix ≠ .without ∧ r = .literal ix nm v) ∨
      (x.toNat < 16 ∧ (∃ nm v, r = .literal .without nm v) ∧ ∃ i b'',
        decodeInt 4 x b' = some (i, b'') ∧ decodeLiteral .without i b'' = some (r, rest))) := by
  cases b with
  | nil => cases h
  | cons x b =>
      refine ⟨x, b, rfl, ?_⟩
      rw [decodeRep] at h
      split at h
      · next hx =>
          split at h
          · cases h
          · next i r hint =>
              cases h
              exact .inl ⟨hx, i, rfl, hint⟩
      · next hx =>
          split at h
          · next hx' =>
              obtain ⟨nm, v, rfl⟩ := decodeNamed_literal h
              exact .inr (.inl ⟨by omega, by omega, .incremental, nm, v, by decide, rfl⟩)
          · split at h
            · cases h
            · split at h
              · next hx' =>
                  obtain ⟨nm, v, rfl⟩ := decodeNamed_literal h
                  exact .inr (.inl ⟨hx', by omega, .never, nm, v, by decide, rfl⟩)
              · next hx' =>
                  obtain ⟨nm, v, rfl⟩ := decodeNamed_literal h
                  refine .inr (.inr ⟨by omega, ⟨nm, v, rfl⟩, ?_⟩)
                  rw [decodeNamed] at h
                  split at h
                  · cases h
                  · next i b'' hint => exact ⟨i, b'', hint, h⟩

/-- An indexed field of the static table is one byte. -/
theorem decodeStatus_indexed {i : Nat} (h : decodeRep b = some (.indexed i, rest)) (hi : i < 127)
    (more : Bytes) :
    H2.decodeStatus (b ++ more) = if i = 8 then some 200 else H2.decodeStatus (rest ++ more) := by
  obtain ⟨x, b', rfl, ⟨hx, j, hj, hint⟩ | ⟨-, -, ix, nm, v, -, hr⟩ | ⟨-, ⟨nm, v, hr⟩, -⟩⟩ :=
    decodeRep_cases h
  · cases hj
    obtain ⟨hbits, rfl⟩ := decodeInt_small hint (by omega)
    obtain ⟨hhigh, hlow, -⟩ := first_byte x
    have height : x &&& 0x7f = 8 ↔ i = 8 := by
      rw [← UInt8.toNat_inj, hlow, show x.toNat % 128 = i from hbits]
      rfl
    rw [List.cons_append, H2.decodeStatus, if_pos (hhigh.mpr hx)]
    simp only [height]
  · cases hr
  · cases hr

/-- A literal with indexing or never to be indexed ends the scan. -/
theorem decodeStatus_stops {ix : Indexing} {nm : Name} {v : Bytes}
    (h : decodeRep b = some (.literal ix nm v, rest)) (hix : ix ≠ .without) (more : Bytes) :
    H2.decodeStatus (b ++ more) = none := by
  obtain ⟨x, b', rfl, ⟨-, j, hj, -⟩ | ⟨hge, hlt, -⟩ | ⟨-, ⟨nm, v, hr⟩, -⟩⟩ := decodeRep_cases h
  · cases hj
  · obtain ⟨hhigh, -, hnibble⟩ := first_byte x
    rw [List.cons_append, H2.decodeStatus, if_neg (by rw [hhigh]; omega),
      if_neg (by rw [hnibble]; omega)]
  · cases hr
    exact absurd rfl hix

theorem decodeStatus_low {x : UInt8} {name r : Bytes} (hx : x.toNat < 16)
    (h : H2.shortStr b = some (name, r)) :
    H2.decodeStatus (x :: b) =
      match H2.shortStr r with
      | none => none
      | some (val, r') => if name = H2.statusName then H2.parseU16 val else H2.decodeStatus r' := by
  obtain ⟨hhigh, -, hnibble⟩ := first_byte x
  rw [H2.decodeStatus, if_neg (by rw [hhigh]; omega), if_pos (hnibble.mpr hx)]
  split
  · next hnone =>
      rw [h] at hnone
      cases hnone
  · next name' r' hsome =>
      rw [h] at hsome
      cases hsome
      cases H2.shortStr r with
      | none => rfl
      | some p => rfl

/-- The literal the scan knows, with short strings. -/
theorem decodeStatus_literal {name v : Bytes}
    (h : decodeRep b = some (.literal .without (.new name) v, rest)) (hn : name.length < 127)
    (hv : v.length < 127) (more : Bytes) :
    H2.decodeStatus (b ++ more) =
      if name = H2.statusName then H2.parseU16 v else H2.decodeStatus (rest ++ more) := by
  obtain ⟨x, b', rfl, ⟨-, j, hj, -⟩ | ⟨-, -, ix, nm, w, hix, hr⟩ | ⟨hlt, -, i, b'', hint, hlit⟩⟩ :=
    decodeRep_cases h
  · cases hj
  · cases hr
    exact absurd rfl hix
  · rw [decodeLiteral] at hlit
    split at hlit
    · next hzero =>
        subst hzero
        obtain ⟨-, rfl⟩ := decodeInt_small hint (by omega)
        split at hlit
        · cases hlit
        · next name' b1 h1 =>
            split at hlit
            · cases hlit
            · next v' b2 h2 =>
                cases hlit
                rw [List.cons_append, decodeStatus_low hlt (shortStr_of_decodeString h1 hn more),
                  shortStr_of_decodeString h2 hv more]
    · split at hlit
      · cases hlit
      · cases hlit

/-- A literal with an indexed name at the end of a block: its value is taken
for the name, and there is no value. -/
theorem decodeStatus_indexedName {i : Nat} {v : Bytes}
    (h : decodeRep b = some (.literal .without (.indexed i) v, [])) (hi : i < 15)
    (hv : v.length < 127) : H2.decodeStatus b = none := by
  obtain ⟨x, b', rfl, ⟨-, j, hj, -⟩ | ⟨-, -, ix, nm, w, hix, hr⟩ | ⟨hlt, -, j, b'', hint, hlit⟩⟩ :=
    decodeRep_cases h
  · cases hj
  · cases hr
    exact absurd rfl hix
  · rw [decodeLiteral] at hlit
    split at hlit
    · split at hlit
      · cases hlit
      · split at hlit <;> cases hlit
    · split at hlit
      · cases hlit
      · next v' b1 h1 =>
          cases hlit
          obtain ⟨-, rfl⟩ := decodeInt_small hint (by omega)
          have hname := shortStr_of_decodeString h1 hv []
          rw [List.append_nil, List.append_nil] at hname
          rw [decodeStatus_low hlt hname]
          rfl

end Steps

/-! ## Status fields -/

/-- The representation of a `:status` field. -/
def IsStatusField (r : Rep) : Prop := ∃ v, r.field = some (H2.statusName, v)

/-- The representation of `:status` with this status, in fewer digits than a
length byte counts. -/
def HasStatus (r : Rep) (s : UInt16) : Prop :=
  ∃ v, r.field = some (H2.statusName, v) ∧ v.length < 127 ∧ H2.parseU16 v = some s

theorem staticEntry_lt {i : Nat} {f : Bytes × Bytes} (h : staticEntry i = some f) : i < 62 := by
  rw [staticEntry] at h
  split at h
  · cases h
  · have hlt := (List.getElem?_eq_some_iff.mp h).1
    have hlen : staticTable.length = 61 := by rfl
    omega

theorem staticEntry_status {i : Nat} {v : Bytes} (h : staticEntry i = some (H2.statusName, v)) :
    8 ≤ i ∧ i ≤ 14 := by
  have hall : ∀ i < 62, (staticEntry i).map Prod.fst = some H2.statusName → 8 ≤ i ∧ i ≤ 14 := by
    decide +kernel
  apply hall i (staticEntry_lt h)
  rw [h]
  rfl

/-- The forms of a status field that are read. -/
def ReadForm (r : Rep) : Prop :=
  r = .indexed 8 ∨ ∃ v, r = .literal .without (.new H2.statusName) v

/-- A status field is read in these forms, whatever follows, and in no other,
even if nothing follows. -/
theorem decodeStatus_field_iff {f : Bytes} {r : Rep} {s : UInt16}
    (hf : decodeRep f = some (r, [])) (hs : HasStatus r s) :
    (∀ rest, (decodeBlock rest).isSome → H2.decodeStatus (f ++ rest) = some s) ↔ ReadForm r := by
  obtain ⟨v, hfield, hlen, hparse⟩ := hs
  refine ⟨?_, ?_⟩
  · intro hall
    have hnil := hall [] (by rw [decodeBlock, decodeReps_nil]; rfl)
    cases r with
    | indexed i =>
        obtain ⟨hge, hle⟩ := staticEntry_status hfield
        rw [decodeStatus_indexed hf (by omega)] at hnil
        by_cases height : i = 8
        · exact .inl (by rw [height])
        · rw [if_neg height, List.append_nil, H2.decodeStatus] at hnil
          cases hnil
    | literal ix nm w =>
        by_cases hix : ix = .without
        · subst hix
          cases nm with
          | new name =>
              obtain ⟨hname, -⟩ := Prod.mk.inj (Option.some.inj hfield)
              exact .inr ⟨w, by rw [hname]⟩
          | indexed i =>
              obtain ⟨⟨name, x⟩, hentry, heq⟩ := Option.map_eq_some_iff.mp hfield
              obtain ⟨hname, hvalue⟩ := Prod.mk.inj heq
              obtain ⟨hge, hle⟩ := staticEntry_status (v := x) (by rw [hentry, ← hname])
              rw [List.append_nil, decodeStatus_indexedName hf (by omega) (by rwa [hvalue])] at hnil
              cases hnil
        · rw [decodeStatus_stops hf hix] at hnil
          cases hnil
  · rintro (rfl | ⟨w, rfl⟩) rest -
    · have htwo : v = ascii "200" := by
        have hentry : staticEntry 8 = some (H2.statusName, ascii "200") := rfl
        rw [Rep.field, hentry] at hfield
        exact (Prod.mk.inj (Option.some.inj hfield)).2.symm
      have hsum : H2.parseU16 (ascii "200") = some 200 := by decide
      rw [decodeStatus_indexed hf (by omega), if_pos rfl, ← hsum, ← htwo, hparse]
    · have hvalue : w = v := (Prod.mk.inj (Option.some.inj hfield)).2
      rw [hvalue] at hf
      rw [decodeStatus_literal hf (by decide) hlen, if_pos rfl, hparse]

/-! ## Whole blocks -/

/-- The representations the scan reads at their right length, and does not
take for another field. -/
def ReadsRep : Rep → Prop
  | .indexed i => i < 9 ∨ 14 < i
  | .literal .without (.new name) v => name.length < 127 ∧ v.length < 127
  | .literal _ _ _ => False

/-- Every field is read, up to the end or to a literal that ends the scan and
is not the status. -/
inductive ReadsBlock : List Rep → Prop
  | nil : ReadsBlock []
  | cons {r : Rep} {rs : List Rep} : ReadsRep r → ReadsBlock rs → ReadsBlock (r :: rs)
  | stop {ix : Indexing} {nm : Name} {v : Bytes} {rs : List Rep} : ix ≠ .without →
      ¬IsStatusField (.literal ix nm v) → ReadsBlock (.literal ix nm v :: rs)

/-- One field that is read. -/
theorem decodeStatus_read {b rest : Bytes} {r : Rep} (h : decodeRep b = some (r, rest))
    (hr : ReadsRep r) (hfield : r.field.isSome) :
    (∀ s, HasStatus r s → H2.decodeStatus b = some s) ∧
      (¬IsStatusField r → H2.decodeStatus b = H2.decodeStatus rest) := by
  match r, hr with
  | .indexed i, hi =>
      obtain ⟨⟨name, v⟩, hentry⟩ := Option.isSome_iff_exists.mp hfield
      have hlt := staticEntry_lt hentry
      have hstep := decodeStatus_indexed h (by omega) []
      rw [List.append_nil, List.append_nil] at hstep
      refine ⟨?_, ?_⟩
      · rintro s ⟨w, hw, -, hparse⟩
        obtain ⟨hge, hle⟩ := staticEntry_status hw
        have height : i = 8 := by
          rw [ReadsRep] at hi
          omega
        have hvalue : w = ascii "200" := by
          have height' : staticEntry 8 = some (H2.statusName, ascii "200") := rfl
          rw [height, Rep.field, height'] at hw
          exact (Prod.mk.inj (Option.some.inj hw)).2.symm
        have hsum : H2.parseU16 (ascii "200") = some 200 := by decide
        rw [hstep, if_pos height, ← hsum, ← hvalue, hparse]
      · intro hnot
        have hne : i ≠ 8 := by
          rintro rfl
          exact hnot ⟨_, rfl⟩
        rw [hstep, if_neg hne]
  | .literal .without (.new name) v, hlen =>
      have hstep := decodeStatus_literal h hlen.1 hlen.2 []
      rw [List.append_nil, List.append_nil] at hstep
      refine ⟨?_, ?_⟩
      · rintro s ⟨w, hw, -, hparse⟩
        obtain ⟨hname, hvalue⟩ := Prod.mk.inj (Option.some.inj hw)
        rw [hstep, if_pos hname, hvalue, hparse]
      · intro hnot
        have hne : name ≠ H2.statusName := by
          rintro rfl
          exact hnot ⟨v, rfl⟩
        rw [hstep, if_neg hne]

/-- In a block all of whose fields are read, the first field is found if it is
the status, and nothing is found if no field is. -/
theorem decodeStatus_covered {b : Bytes} {reps : List Rep} (h : decodeReps b = some reps)
    (hfields : (fieldsOf reps).isSome) (hc : ReadsBlock reps) :
    (∀ r rs s, reps = r :: rs → HasStatus r s → H2.decodeStatus b = some s) ∧
      ((∀ r ∈ reps, ¬IsStatusField r) → H2.decodeStatus b = none) := by
  induction hc generalizing b with
  | nil =>
      obtain ⟨rfl, -⟩ | ⟨r, rest, rs, -, -, hrs⟩ := decodeReps_eq_some h
      · exact ⟨fun r rs s hr => (by cases hr), fun _ => by rw [H2.decodeStatus]⟩
      · cases hrs
  | @cons r rs hread hcov ih =>
      obtain ⟨-, hnil⟩ | ⟨r', rest, rs', hrep, hrest, heq⟩ := decodeReps_eq_some h
      · cases hnil
      · cases heq
        obtain ⟨hfield, hmore⟩ := fieldsOf_cons hfields
        obtain ⟨hstatus, hskip⟩ := decodeStatus_read hrep hread hfield
        refine ⟨?_, ?_⟩
        · rintro _ _ s hr hs
          cases hr
          exact hstatus s hs
        · intro hno
          rw [hskip (hno r List.mem_cons_self)]
          exact (ih hrest hmore).2 fun x hx => hno x (List.mem_cons_of_mem r hx)
  | @stop ix nm v rs hix hnot =>
      obtain ⟨-, hnil⟩ | ⟨r', rest, rs', hrep, hrest, heq⟩ := decodeReps_eq_some h
      · cases hnil
      · cases heq
        have hstop := decodeStatus_stops hrep hix []
        rw [List.append_nil] at hstop
        refine ⟨?_, fun _ => hstop⟩
        rintro _ _ s hr ⟨w, hw, -⟩
        cases hr
        exact absurd ⟨w, hw⟩ hnot

/-- Which form of a status field is read, and which blocks are. -/
theorem decodeStatus_reads_iff (f b : Bytes) (r : Rep) (s : UInt16) (reps : List Rep) :
    (decodeRep f = some (r, []) → HasStatus r s →
      ((∀ rest, (decodeBlock rest).isSome → H2.decodeStatus (f ++ rest) = some s) ↔
        r = .indexed 8 ∨ ∃ v, r = .literal .without (.new H2.statusName) v)) ∧
    (decodeReps b = some reps → (fieldsOf reps).isSome → ReadsBlock reps →
      (∀ r rs s, reps = r :: rs → HasStatus r s → H2.decodeStatus b = some s) ∧
      ((∀ r ∈ reps, ¬IsStatusField r) → H2.decodeStatus b = none)) :=
  ⟨decodeStatus_field_iff, decodeStatus_covered⟩

/-- `:status: 404` by an indexed name, and a block of `:path: /`, `:method: GET`
and a name of one byte, which has no status. -/
theorem decodeStatus_misreads :
    (decodeReps [0x08, 0x03, 52, 48, 52] =
        some [.literal .without (.indexed 8) (ascii "404")] ∧
      HasStatus (.literal .without (.indexed 8) (ascii "404")) 404 ∧
      H2.decodeStatus [0x08, 0x03, 52, 48, 52] = none) ∧
    decodeBlock [0x04, 0x01, 47, 0x82, 0x00, 0x01, 0x88, 0x00] =
      some [(ascii ":path", [47]), (ascii ":method", ascii "GET"), ([0x88], [])] ∧
    H2.decodeStatus [0x04, 0x01, 47, 0x82, 0x00, 0x01, 0x88, 0x00] = some 200 := by
  have hrep : decodeRep [0x08, 0x03, 52, 48, 52] =
      some (.literal .without (.indexed 8) (ascii "404"), []) := by decide
  have hreps : decodeReps [0x04, 0x01, 47, 0x82, 0x00, 0x01, 0x88, 0x00] =
      some [.literal .without (.indexed 4) [47], .indexed 2,
        .literal .without (.new [0x88]) []] := by
    rw [decodeReps_cons (show decodeRep _ = some (_, [0x82, 0x00, 0x01, 0x88, 0x00]) from rfl),
      decodeReps_cons (show decodeRep _ = some (_, [0x00, 0x01, 0x88, 0x00]) from rfl),
      decodeReps_cons (show decodeRep _ = some (_, []) from rfl), decodeReps_nil]
    rfl
  refine ⟨⟨?_, ⟨ascii "404", rfl, by decide, by decide⟩, ?_⟩, ?_, ?_⟩
  · rw [decodeReps_cons hrep, decodeReps_nil]
    rfl
  · exact decodeStatus_indexedName hrep (by decide) (by decide)
  · rw [decodeBlock, hreps]
    rfl
  · rw [decodeStatus_low (by decide) (show H2.shortStr _ = some ([47], [0x82, 0x00, 0x01, 0x88,
      0x00]) from rfl)]
    show (if ([47] : Bytes) = H2.statusName then _ else H2.decodeStatus [0x88, 0x00]) = some 200
    rw [if_neg (by decide), H2.decodeStatus, if_pos (by decide), if_pos (by decide)]

private def serverField : Bytes := H2.encHeader (ascii "server") (ascii "control")

private def serverRep : Rep := .literal .without (.new (ascii "server")) (ascii "control")

private theorem statusBlock_reps :
    decodeReps ([0x88] ++ (serverField ++ [0x82])) = some [.indexed 8, serverRep, .indexed 2] := by
  rw [decodeReps_cons (show decodeRep _ = some (.indexed 8, serverField ++ [0x82]) from rfl),
    serverField, decodeReps_cons (decodeRep_encHeader _ _ _),
    decodeReps_cons (show decodeRep [0x82] = some (.indexed 2, []) from rfl), decodeReps_nil]
  rfl

private theorem plainBlock_reps :
    decodeReps ([0x82] ++ (serverField ++ serverField)) =
      some [.indexed 2, serverRep, serverRep] := by
  rw [decodeReps_cons (show decodeRep _ = some (.indexed 2, serverField ++ serverField) from rfl),
    serverField, decodeReps_cons (decodeRep_encHeader _ _ _), ← List.append_nil (H2.encHeader _ _),
    decodeReps_cons (decodeRep_encHeader _ _ _), decodeReps_nil]
  rfl

private theorem serverRep_reads : ReadsRep serverRep := ⟨by decide, by decide⟩

theorem decodeStatus_reads_status200 :
    (∀ rest, (decodeBlock rest).isSome → H2.decodeStatus ([0x88] ++ rest) = some 200) ∧
    H2.decodeStatus ([0x88] ++ (serverField ++ [0x82])) = some 200 ∧
    H2.decodeStatus ([0x82] ++ (serverField ++ serverField)) = none := by
  have hstatus : HasStatus (.indexed 8) 200 := ⟨ascii "200", rfl, by decide, by decide⟩
  obtain ⟨hfield, hblock⟩ := decodeStatus_reads_iff [0x88] ([0x88] ++ (serverField ++ [0x82]))
    (.indexed 8) 200 [.indexed 8, serverRep, .indexed 2]
  obtain ⟨-, hplain⟩ := decodeStatus_reads_iff [0x88] ([0x82] ++ (serverField ++ serverField))
    (.indexed 8) 200 [.indexed 2, serverRep, serverRep]
  refine ⟨(hfield rfl hstatus).mpr (.inl rfl), ?_, ?_⟩
  · exact (hblock statusBlock_reps (by decide) (.cons (.inl (by decide)) (.cons serverRep_reads
      (.cons (.inl (by decide)) .nil)))).1 _ _ _ rfl hstatus
  · refine (hplain plainBlock_reps (by decide) (.cons (.inl (by decide)) (.cons serverRep_reads
      (.cons serverRep_reads .nil)))).2 ?_
    rintro r hr ⟨v, hv⟩
    rcases List.mem_cons.mp hr with rfl | hr
    · exact absurd (staticEntry_status hv).1 (by decide)
    · have hserver : r = serverRep := by
        rcases List.mem_cons.mp hr with rfl | hr
        · rfl
        · exact List.mem_singleton.mp hr
      rw [hserver] at hv
      cases hv

end TailscaleRust.Proofs
