import TailscaleRust.Strict.Stun

/-!
# Reading a STUN response

The loop over the attributes takes the first of them that carries an address,
whichever of the two kinds it is. The document of the module prefers the
masked kind and falls back on the plain one. The two are the same unless a
plain address stands before the first masked one and differs from it.
-/

namespace TailscaleRust.Proofs

open TailscaleRust.Lib TailscaleRust.Lib.Checked TailscaleRust.Core TailscaleRust.Core.Stun

/-! ## No read is out of range -/

theorem isIpv4Value_safe (val : Bytes) :
    Strict.isIpv4Value val = .ok (decide (¬(val.length < 8 ∨ byteAt val 1 ≠ 0x01))) := by
  rw [Strict.isIpv4Value]
  split
  · next hshort =>
      rw [decide_eq_false (not_not.mpr (.inl hshort))]
      rfl
  · next hlong =>
      rw [index_ok (by omega), ok_bind, pure_eq]
      simp [hlong]

theorem parseXorMapped_safe (val : Bytes) :
    Strict.parseXorMapped val = .ok (parseXorMapped val) := by
  rw [Strict.parseXorMapped, isIpv4Value_safe, ok_bind, parseXorMapped]
  by_cases h : val.length < 8 ∨ byteAt val 1 ≠ 0x01
  · rw [if_pos h]
    simp [h]
  · have hlen : 8 ≤ val.length := by omega
    rw [if_neg h, u16Of_ok rfl (by omega), u32beOf_ok (by omega)]
    simp [h]

theorem parseMapped_safe (val : Bytes) : Strict.parseMapped val = .ok (parseMapped val) := by
  rw [Strict.parseMapped, isIpv4Value_safe, ok_bind, parseMapped]
  by_cases h : val.length < 8 ∨ byteAt val 1 ≠ 0x01
  · rw [if_pos h]
    simp [h]
  · have hlen : 8 ≤ val.length := by omega
    rw [if_neg h, u16Of_ok rfl (by omega), u32beOf_ok (by omega)]
    simp [h]

theorem attrAddress_safe (atype : UInt16) (val : Bytes) :
    Strict.attrAddress atype val = .ok (attrAddress atype val) := by
  rw [Strict.attrAddress, attrAddress]
  split
  · exact parseXorMapped_safe val
  · split
    · exact parseMapped_safe val
    · rfl

theorem attrLoop_safe {buf : Bytes} {stop : Nat} (hstop : stop ≤ buf.length)
    (hmax : stop ≤ 20 + 65535) {fuel i : Nat} (hi : i ≤ stop + 3) (hpos : 0 < fuel)
    (hfuel : stop < i + 4 * fuel) :
    Strict.attrLoop buf stop fuel i = .ok (attrLoop buf stop i) := by
  induction fuel generalizing i with
  | zero => omega
  | succ fuel ih =>
      have hlen := (u16be buf (i + 2)).toNat_lt
      rw [Strict.attrLoop, attrLoop, addUsize_ok (by omega), ok_bind]
      split
      · next hin =>
          have hand : (u16be buf (i + 2)).toNat &&& 3 ≤ 3 := Nat.and_le_right
          have hpad : (4 - ((u16be buf (i + 2)).toNat &&& 3)) &&& 3 ≤ 3 := Nat.and_le_right
          rw [addUsize_ok (by omega), ok_bind, u16Of_ok rfl (by omega), ok_bind,
            addUsize_ok (by omega), ok_bind, addUsize_ok (by omega), ok_bind,
            u16Of_ok rfl (by omega), ok_bind, ok_bind, addUsize_ok (by omega), ok_bind]
          simp only []
          split
          · rfl
          · next hend =>
              rw [range_ok (by omega) (by omega), ok_bind, attrAddress_safe, ok_bind]
              cases attrAddress (u16be buf i)
                (slice buf (i + 4) (i + 4 + (u16be buf (i + 2)).toNat)) with
              | some addr => rfl
              | none =>
                  simp only []
                  rw [subUsize_ok (by omega), ok_bind, addUsize_ok (by omega), ok_bind,
                    ih (by omega) (by omega) (by omega)]
      · rfl

/-- The parser cannot panic, whatever it is given. -/
theorem parseResponse_safe (buf : Bytes) (txid : Arr 12) :
    Strict.parseResponse buf txid = .ok (parseResponse buf txid) := by
  rw [Strict.parseResponse, parseResponse]
  split
  · rfl
  · next hlong =>
      have hmsg := (u16be buf 2).toNat_lt
      rw [u16Of_ok rfl (by omega), ok_bind]
      simp only []
      split
      · rfl
      · rw [u32beOf_ok (by omega), ok_bind]
        split
        · rfl
        · rw [range_ok (by omega) (by omega), ok_bind]
          split
          · rfl
          · rw [u16Of_ok rfl (by omega), ok_bind, addUsize_ok (by omega), ok_bind]
            exact attrLoop_safe (by omega) (by omega) (by omega) (by omega) (by omega)

/-! ## Attributes -/

/-- An attribute as it stands in a message, with whatever bytes pad it. -/
structure Attribute where
  typ : UInt16
  value : Bytes
  pad : Bytes
  value_lt : value.length < 2 ^ 16
  pad_length : pad.length = (4 - value.length % 4) % 4

namespace Attribute

def bytes (a : Attribute) : Bytes :=
  be16 a.typ ++ be16 (UInt16.ofNat a.value.length) ++ a.value ++ a.pad

/-- The value carries an IPv4 address, behind a reserved byte and the family;
port and address are masked with these. -/
def Carries (a : Attribute) (mask16 : UInt16) (mask32 : UInt32) (addr : SocketAddrV4) : Prop :=
  ∃ reserved rest ip, addr.1 = ipv4OfU32 ip ∧
    a.value = reserved :: 0x01 :: (be16 (addr.2 ^^^ mask16) ++ be32 (ip ^^^ mask32) ++ rest)

/-- A valid IPv4 XOR-MAPPED-ADDRESS with this address. -/
def IsXorMapped (a : Attribute) (addr : SocketAddrV4) : Prop :=
  a.typ = 0x0020 ∧ a.Carries 0x2112 0x2112a442 addr

/-- A valid IPv4 MAPPED-ADDRESS with this address. -/
def IsMapped (a : Attribute) (addr : SocketAddrV4) : Prop :=
  a.typ = 0x0001 ∧ a.Carries 0 0 addr

end Attribute

def responseHead (txid : Arr 12) (msgLen : Nat) : Bytes :=
  be16 bindingResponseType ++ be16 (UInt16.ofNat msgLen) ++ be32 magicCookie ++ txid.1

/-- A Binding Response with these attributes, followed by whatever else the
datagram has. -/
def bindingResponse (txid : Arr 12) (attrs : List Attribute) (trailing : Bytes) : Bytes :=
  responseHead txid (attrs.flatMap Attribute.bytes).length
    ++ (attrs.flatMap Attribute.bytes ++ trailing)

theorem carries_iff {a : Attribute} {mask16 : UInt16} {mask32 : UInt32} {addr : SocketAddrV4} :
    a.Carries mask16 mask32 addr ↔ ¬(a.value.length < 8 ∨ byteAt a.value 1 ≠ 0x01) ∧
      addr = (ipv4OfU32 (u32be a.value 4 ^^^ mask32), u16be a.value 2 ^^^ mask16) := by
  have hback16 : ∀ x : UInt16, x ^^^ mask16 ^^^ mask16 = x := by
    intro x
    rw [UInt16.xor_assoc, UInt16.xor_self, UInt16.xor_zero]
  have hback32 : ∀ x : UInt32, x ^^^ mask32 ^^^ mask32 = x := by
    intro x
    rw [UInt32.xor_assoc, UInt32.xor_self, UInt32.xor_zero]
  refine ⟨?_, ?_⟩
  · rintro ⟨reserved, rest, ip, hip, hvalue⟩
    obtain ⟨p, q, hport⟩ := be16_bytes (addr.2 ^^^ mask16)
    obtain ⟨w, x, y, z, haddr⟩ := be32_bytes (ip ^^^ mask32)
    have h16 : u16be a.value 2 = addr.2 ^^^ mask16 :=
      u16be_of_slice (by rw [hvalue, hport, haddr]; rfl)
    have h32 : u32be a.value 4 = ip ^^^ mask32 :=
      u32be_of_slice (by rw [hvalue, hport, haddr]; rfl)
    refine ⟨?_, ?_⟩
    · rw [hvalue, hport, haddr]
      simp [byteAt]
    · rw [h16, h32, hback16, hback32, ← hip]
  · rintro ⟨hvalid, rfl⟩
    have hlen : 8 ≤ a.value.length := by omega
    have hfamily : byteAt a.value 1 = 0x01 := by
      by_contra hne
      exact hvalid (.inr hne)
    refine ⟨byteAt a.value 0, a.value.drop 8, u32be a.value 4 ^^^ mask32, rfl, ?_⟩
    have h32 : slice a.value 4 8 = be32 (u32be a.value 4) := (u32be_eq_iff (by omega)).mp rfl
    have hsplit2 : a.value.drop 2 = slice a.value 2 4 ++ a.value.drop 4 := by
      rw [slice, ← List.drop_drop (i := 2) (j := 2)]
      exact (List.take_append_drop 2 _).symm
    have hsplit4 : a.value.drop 4 = slice a.value 4 8 ++ a.value.drop 8 := by
      rw [slice, ← List.drop_drop (i := 4) (j := 4)]
      exact (List.take_append_drop 4 _).symm
    rw [hback16, hback32, be16_u16be (by omega), ← h32, List.append_assoc, ← hsplit4, ← hsplit2,
      ← hfamily, ← drop_eq_byteAt_cons (by omega), ← drop_eq_byteAt_cons (by omega), List.drop_zero]

/-- What the parsers of the source find in an attribute. -/
theorem attrAddress_eq_some_iff {a : Attribute} {addr : SocketAddrV4} :
    attrAddress a.typ a.value = some addr ↔ a.IsXorMapped addr ∨ a.IsMapped addr := by
  have hvalue : ∀ (mask16 : UInt16) (mask32 : UInt32),
      (if a.value.length < 8 ∨ byteAt a.value 1 ≠ 0x01 then none
        else some (ipv4OfU32 (u32be a.value 4 ^^^ mask32), u16be a.value 2 ^^^ mask16)) =
          some addr ↔ a.Carries mask16 mask32 addr := by
    intro mask16 mask32
    rw [carries_iff]
    split
    · next h => simp [h]
    · next h =>
        rw [Option.some.injEq]
        exact ⟨fun heq => ⟨h, heq.symm⟩, fun hc => hc.2.symm⟩
  rw [attrAddress, Attribute.IsXorMapped, Attribute.IsMapped]
  split
  · next htyp =>
      have hother : ¬a.typ = 0x0001 := by
        rw [htyp]
        decide
      rw [parseXorMapped]
      simp only [hother, false_and, or_false]
      exact (hvalue 0x2112 0x2112a442).trans ⟨fun h => ⟨htyp, h⟩, fun h => h.2⟩
  · next hxor =>
      have hno : ¬a.typ = 0x0020 := hxor
      simp only [hno, false_and, false_or]
      split
      · next htyp =>
          have hplain := hvalue 0 0
          simp only [UInt16.xor_zero, UInt32.xor_zero] at hplain
          rw [parseMapped]
          exact hplain.trans ⟨fun h => ⟨htyp, h⟩, fun h => h.2⟩
      · next hmapped =>
          have hno' : ¬a.typ = 0x0001 := hmapped
          simp [hno']

/-! ## The loop over the attributes -/

theorem slice_middle {a x y : Bytes} {i j : Nat} (hi : i = a.length) (hj : j = i + x.length) :
    slice (a ++ (x ++ y)) i j = x := by
  subst hi hj
  rw [slice_append_right (Nat.le_refl _), Nat.sub_self, Nat.add_sub_cancel_left,
    slice_append_left (Nat.le_refl _), slice_self (Nat.le_refl _)]

theorem Attribute.length_bytes (a : Attribute) :
    a.bytes.length = 4 + a.value.length + a.pad.length := by
  rw [Attribute.bytes, List.length_append, List.length_append, List.length_append, length_be16,
    length_be16]

/-- The loop finds the first attribute that carries an address of either kind. -/
theorem attrLoop_attributes (pre : Bytes) (attrs : List Attribute) (trailing : Bytes) :
    attrLoop (pre ++ (attrs.flatMap Attribute.bytes ++ trailing))
        (pre.length + (attrs.flatMap Attribute.bytes).length) pre.length =
      match attrs.findSome? fun a => attrAddress a.typ a.value with
      | some addr => .ok addr
      | none => .error noAddress := by
  induction attrs generalizing pre with
  | nil =>
      rw [attrLoop, if_neg (by simp)]
      rfl
  | cons a attrs ih =>
      have hlen := a.length_bytes
      have hlt := a.value_lt
      have hpad : (4 - (a.value.length &&& 3)) &&& 3 = a.pad.length := by
        rw [a.pad_length, Nat.and_two_pow_sub_one_eq_mod _ 2, Nat.and_two_pow_sub_one_eq_mod _ 2]
      rw [List.flatMap_cons, List.length_append, List.append_assoc]
      have htyp : u16be (pre ++ (a.bytes ++ (attrs.flatMap Attribute.bytes ++ trailing)))
          pre.length = a.typ := by
        refine u16be_of_slice ?_
        rw [Attribute.bytes, List.append_assoc, List.append_assoc, List.append_assoc]
        exact slice_middle rfl (by rw [length_be16])
      have halen : (u16be (pre ++ (a.bytes ++ (attrs.flatMap Attribute.bytes ++ trailing)))
          (pre.length + 2)).toNat = a.value.length := by
        rw [u16be_of_slice (x := UInt16.ofNat a.value.length)]
        · exact UInt16.toNat_ofNat_of_lt' hlt
        · rw [Attribute.bytes, List.append_assoc, List.append_assoc, List.append_assoc,
            ← List.append_assoc pre]
          exact slice_middle (by rw [List.length_append, length_be16]) (by rw [length_be16])
      have hval : slice (pre ++ (a.bytes ++ (attrs.flatMap Attribute.bytes ++ trailing)))
          (pre.length + 4) (pre.length + 4 + a.value.length) = a.value := by
        rw [Attribute.bytes, List.append_assoc, List.append_assoc, ← List.append_assoc pre]
        exact slice_middle
          (by rw [List.length_append, List.length_append, length_be16, length_be16]) rfl
      rw [attrLoop, if_pos (by omega)]
      simp only [htyp, halen, hval, hpad]
      rw [if_neg (by omega), List.findSome?_cons]
      cases attrAddress a.typ a.value with
      | some addr => rfl
      | none =>
          have hnext := ih (pre ++ a.bytes)
          rw [List.append_assoc, List.length_append] at hnext
          simp only []
          rw [← hnext]
          congr 1 <;> omega

/-- The fields of the header, whatever follows it. -/
theorem responseHead_fields (txid : Arr 12) {msgLen : Nat} (h : msgLen < 2 ^ 16) (rest : Bytes) :
    (responseHead txid msgLen).length = 20 ∧
    u16be (responseHead txid msgLen ++ rest) 0 = bindingResponseType ∧
    (u16be (responseHead txid msgLen ++ rest) 2).toNat = msgLen ∧
    u32be (responseHead txid msgLen ++ rest) 4 = magicCookie ∧
    slice (responseHead txid msgLen ++ rest) 8 20 = txid.1 := by
  have hcookie : (be32 magicCookie).length = 4 := rfl
  have hword : (UInt16.ofNat msgLen).toNat = msgLen := UInt16.toNat_ofNat_of_lt' h
  rw [responseHead]
  refine ⟨?_, ?_, ?_, ?_, ?_⟩
  · simp only [List.length_append, length_be16, hcookie, txid.2]
  · refine u16be_of_slice ?_
    rw [List.append_assoc, List.append_assoc, List.append_assoc]
    exact slice_middle (a := []) (x := be16 bindingResponseType) rfl rfl
  · rw [u16be_of_slice (x := UInt16.ofNat msgLen), hword]
    rw [List.append_assoc, List.append_assoc, List.append_assoc]
    exact slice_middle (by rw [length_be16]) (by rw [length_be16])
  · refine u32be_of_slice ?_
    rw [List.append_assoc, List.append_assoc]
    exact slice_middle (by rw [List.length_append, length_be16, length_be16]) rfl
  · rw [List.append_assoc]
    refine slice_middle ?_ (by rw [txid.2])
    simp only [List.length_append, length_be16, hcookie]

theorem parseResponse_bindingResponse (txid : Arr 12) {attrs : List Attribute} (trailing : Bytes)
    (h : (attrs.flatMap Attribute.bytes).length < 2 ^ 16) :
    parseResponse (bindingResponse txid attrs trailing) txid =
      match attrs.findSome? fun a => attrAddress a.typ a.value with
      | some addr => .ok addr
      | none => .error noAddress := by
  obtain ⟨hhead, htype, hlen, hcookie, hid⟩ :=
    responseHead_fields txid h (attrs.flatMap Attribute.bytes ++ trailing)
  rw [← bindingResponse] at htype hlen hcookie hid
  have htotal : (bindingResponse txid attrs trailing).length =
      20 + (attrs.flatMap Attribute.bytes).length + trailing.length := by
    rw [bindingResponse, List.length_append, List.length_append, hhead, Nat.add_assoc]
  rw [parseResponse, if_neg (by omega), if_neg (not_not.mpr htype), if_neg (not_not.mpr hcookie),
    if_neg (not_not.mpr hid), hlen, htotal]
  simp only []
  rw [Nat.min_eq_left (by omega), ← hhead]
  exact attrLoop_attributes _ attrs trailing

/-! ## Which address is preferred -/

/-- The address of the first attribute that has one of this kind. -/
def FirstOf (kind : Attribute → SocketAddrV4 → Prop) (attrs : List Attribute)
    (addr : SocketAddrV4) : Prop :=
  ∃ l a r, attrs = l ++ a :: r ∧ kind a addr ∧ ∀ b ∈ l, ∀ x, ¬kind b x

/-- The documented result: the first XOR-MAPPED-ADDRESS, without one the first
MAPPED-ADDRESS, and an error without either. -/
structure Prefers (attrs : List Attribute) (result : Except String SocketAddrV4) : Prop where
  xor : ∀ addr, FirstOf Attribute.IsXorMapped attrs addr → result = .ok addr
  mapped : (∀ x, ¬FirstOf Attribute.IsXorMapped attrs x) →
    ∀ addr, FirstOf Attribute.IsMapped attrs addr → result = .ok addr
  neither : (∀ x, ¬FirstOf Attribute.IsXorMapped attrs x) →
    (∀ x, ¬FirstOf Attribute.IsMapped attrs x) → ∃ e, result = .error e

/-- A MAPPED-ADDRESS with this address comes before all others of both kinds. -/
def MappedLeads (attrs : List Attribute) (addr : SocketAddrV4) : Prop :=
  ∃ l a r, attrs = l ++ a :: r ∧ a.IsMapped addr ∧
    ∀ b ∈ l, ∀ x, ¬b.IsXorMapped x ∧ ¬b.IsMapped x

section Preference

variable {attrs : List Attribute}

/-- The loop of the source, on the kinds of attributes. -/
theorem findSome_attrAddress_iff {addr : SocketAddrV4} :
    (attrs.findSome? fun a => attrAddress a.typ a.value) = some addr ↔
      FirstOf (fun a x => a.IsXorMapped x ∨ a.IsMapped x) attrs addr := by
  rw [List.findSome?_eq_some_iff, FirstOf]
  simp only [Option.eq_none_iff_forall_ne_some, ne_eq, attrAddress_eq_some_iff]

/-- Either some attribute is the first of the kind, or none is of it. -/
theorem firstOf_or_none (kind : Attribute → SocketAddrV4 → Prop) (attrs : List Attribute) :
    (∃ x, FirstOf kind attrs x) ∨ ∀ a ∈ attrs, ∀ x, ¬kind a x := by
  induction attrs with
  | nil => exact .inr fun a ha => absurd ha List.not_mem_nil
  | cons a attrs ih =>
      by_cases ha : ∃ x, kind a x
      · obtain ⟨x, hx⟩ := ha
        exact .inl ⟨x, [], a, attrs, rfl, hx, fun b hb => absurd hb List.not_mem_nil⟩
      · have hnone : ∀ x, ¬kind a x := fun x hx => ha ⟨x, hx⟩
        rcases ih with ⟨x, l, b, r, rfl, hb, hl⟩ | hall
        · exact .inl ⟨x, a :: l, b, r, rfl, hb, List.forall_mem_cons.mpr ⟨hnone, hl⟩⟩
        · exact .inr (List.forall_mem_cons.mpr ⟨hnone, hall⟩)

theorem not_firstOf {kind : Attribute → SocketAddrV4 → Prop} (h : ∀ a ∈ attrs, ∀ x, ¬kind a x)
    (x : SocketAddrV4) : ¬FirstOf kind attrs x := by
  rintro ⟨l, a, r, rfl, ha, -⟩
  exact h a (List.mem_append_right l List.mem_cons_self) x ha

/-- The first address of either kind belongs to a MAPPED-ADDRESS in the lead,
or is that of the first XOR-MAPPED-ADDRESS. -/
theorem firstOf_either_iff {addr : SocketAddrV4} :
    FirstOf (fun a x => a.IsXorMapped x ∨ a.IsMapped x) attrs addr ↔
      MappedLeads attrs addr ∨ ∃ l a r, attrs = l ++ a :: r ∧ a.IsXorMapped addr ∧
        ∀ b ∈ l, ∀ x, ¬b.IsXorMapped x ∧ ¬b.IsMapped x := by
  refine ⟨?_, ?_⟩
  · rintro ⟨l, a, r, rfl, hxor | hmapped, hl⟩
    · exact .inr ⟨l, a, r, rfl, hxor, fun b hb x => not_or.mp (hl b hb x)⟩
    · exact .inl ⟨l, a, r, rfl, hmapped, fun b hb x => not_or.mp (hl b hb x)⟩
  · rintro (⟨l, a, r, rfl, ha, hl⟩ | ⟨l, a, r, rfl, ha, hl⟩)
    · exact ⟨l, a, r, rfl, .inr ha, fun b hb x => not_or.mpr (hl b hb x)⟩
    · exact ⟨l, a, r, rfl, .inl ha, fun b hb x => not_or.mpr (hl b hb x)⟩

theorem firstOf_cons_iff {kind : Attribute → SocketAddrV4 → Prop} {a : Attribute}
    {x : SocketAddrV4} :
    FirstOf kind (a :: attrs) x ↔ kind a x ∨ ((∀ y, ¬kind a y) ∧ FirstOf kind attrs x) := by
  refine ⟨?_, ?_⟩
  · rintro ⟨l, b, r, heq, hb, hl⟩
    cases l with
    | nil =>
        cases heq
        exact .inl hb
    | cons c l =>
        cases heq
        obtain ⟨hnone, hl⟩ := List.forall_mem_cons.mp hl
        exact .inr ⟨hnone, l, b, r, rfl, hb, hl⟩
  · rintro (ha | ⟨hnone, l, b, r, rfl, hb, hl⟩)
    · exact ⟨[], a, attrs, rfl, ha, fun b hb => absurd hb List.not_mem_nil⟩
    · exact ⟨a :: l, b, r, rfl, hb, List.forall_mem_cons.mpr ⟨hnone, hl⟩⟩

theorem firstOf_xor_unique {x y : SocketAddrV4} (hx : FirstOf Attribute.IsXorMapped attrs x)
    (hy : FirstOf Attribute.IsXorMapped attrs y) : x = y := by
  induction attrs with
  | nil => exact absurd hx (not_firstOf (fun a ha => absurd ha List.not_mem_nil) x)
  | cons a attrs ih =>
      rcases firstOf_cons_iff.mp hx with hx | ⟨hnone, hx⟩
      · rcases firstOf_cons_iff.mp hy with hy | ⟨hnone, -⟩
        · exact (carries_iff.mp hx.2).2.trans (carries_iff.mp hy.2).2.symm
        · exact absurd hx (hnone x)
      · rcases firstOf_cons_iff.mp hy with hy | ⟨-, hy⟩
        · exact absurd hy (hnone y)
        · exact ih hx hy

/-- What the loop finds is what is preferred, exactly if no MAPPED-ADDRESS in
the lead differs from the first XOR-MAPPED-ADDRESS. -/
theorem prefers_iff :
    Prefers attrs (match attrs.findSome? fun a => attrAddress a.typ a.value with
      | some addr => .ok addr
      | none => .error noAddress) ↔
      ∀ m x, MappedLeads attrs m → FirstOf Attribute.IsXorMapped attrs x → m = x := by
  refine ⟨?_, ?_⟩
  · intro h m x hm hx
    have hok := h.xor x hx
    rw [findSome_attrAddress_iff.mpr (firstOf_either_iff.mpr (.inl hm))] at hok
    exact Except.ok.inj hok
  · intro h
    refine ⟨?_, ?_, ?_⟩
    · intro addr haddr
      rcases firstOf_or_none (fun a x => a.IsXorMapped x ∨ a.IsMapped x) attrs with
        ⟨y, hy⟩ | hnone
      · rw [findSome_attrAddress_iff.mpr hy]
        rcases firstOf_either_iff.mp hy with hlead | ⟨l, a, r, hsplit, ha, hl⟩
        · rw [h y addr hlead haddr]
        · have hfirst : FirstOf Attribute.IsXorMapped attrs y :=
            ⟨l, a, r, hsplit, ha, fun b hb x => (hl b hb x).1⟩
          rw [firstOf_xor_unique hfirst haddr]
      · exact absurd haddr (not_firstOf (fun a ha x hx => hnone a ha x (.inl hx)) addr)
    · intro hxor addr haddr
      have hno : ∀ a ∈ attrs, ∀ x, ¬a.IsXorMapped x :=
        (firstOf_or_none _ attrs).resolve_left fun ⟨x, hx⟩ => hxor x hx
      obtain ⟨l, a, r, rfl, ha, hl⟩ := haddr
      have hlead : MappedLeads (l ++ a :: r) addr :=
        ⟨l, a, r, rfl, ha, fun b hb x => ⟨hno b (List.mem_append_left _ hb) x, hl b hb x⟩⟩
      rw [findSome_attrAddress_iff.mpr (firstOf_either_iff.mpr (.inl hlead))]
    · intro hxor hmapped
      have hnoXor : ∀ a ∈ attrs, ∀ x, ¬a.IsXorMapped x :=
        (firstOf_or_none _ attrs).resolve_left fun ⟨x, hx⟩ => hxor x hx
      have hnoMapped : ∀ a ∈ attrs, ∀ x, ¬a.IsMapped x :=
        (firstOf_or_none _ attrs).resolve_left fun ⟨x, hx⟩ => hmapped x hx
      have hnone : (attrs.findSome? fun a => attrAddress a.typ a.value) = none := by
        rw [List.findSome?_eq_none_iff]
        intro a ha
        rw [Option.eq_none_iff_forall_ne_some]
        intro x hx
        rcases attrAddress_eq_some_iff.mp hx with hx | hx
        · exact hnoXor a ha x hx
        · exact hnoMapped a ha x hx
      rw [hnone]
      exact ⟨noAddress, rfl⟩

end Preference

/-- The parser ends and reads nothing out of range, whatever bytes it is given.
For every list of attributes of any types, lengths and order, with any padding
and whatever follows them, it returns the documented address if and only if no
MAPPED-ADDRESS that comes before all other addresses differs from the first
XOR-MAPPED-ADDRESS. -/
theorem parseResponse_prefers_iff (buf : Bytes) (txid : Arr 12) (attrs : List Attribute)
    (trailing : Bytes) :
    Strict.parseResponse buf txid = .ok (parseResponse buf txid) ∧
    ((attrs.flatMap Attribute.bytes).length < 2 ^ 16 →
      (Prefers attrs (parseResponse (bindingResponse txid attrs trailing) txid) ↔
        ∀ m x, MappedLeads attrs m → FirstOf Attribute.IsXorMapped attrs x → m = x)) := by
  refine ⟨parseResponse_safe buf txid, ?_⟩
  intro h
  rw [parseResponse_bindingResponse txid trailing h]
  exact prefers_iff

/-- A MAPPED-ADDRESS of 10.0.0.1:9. -/
def plainAttr : Attribute where
  typ := 0x0001
  value := [0, 1, 0, 9, 10, 0, 0, 1]
  pad := []
  value_lt := by decide
  pad_length := rfl

/-- An XOR-MAPPED-ADDRESS of 203.0.113.5:9. -/
def maskedAttr : Attribute where
  typ := 0x0020
  value := [0, 1, 0x21, 0x1b, 0xea, 0x12, 0xd5, 0x47]
  pad := []
  value_lt := by decide
  pad_length := rfl

theorem maskedAttr_xor : maskedAttr.IsXorMapped (ipv4OfU32 0xcb007105, 9) :=
  ⟨rfl, carries_iff.mpr ⟨by decide, by decide⟩⟩

/-- With the legacy attribute in front, its address is returned. -/
theorem plain_in_front_wins :
    parseResponse (bindingResponse (Arr.zero 12) [plainAttr, maskedAttr] []) (Arr.zero 12) =
      .ok (ipv4OfU32 0x0a000001, 9) ∧
    ¬Prefers [plainAttr, maskedAttr]
      (parseResponse (bindingResponse (Arr.zero 12) [plainAttr, maskedAttr] []) (Arr.zero 12)) := by
  have hfound : ([plainAttr, maskedAttr].findSome? fun a => attrAddress a.typ a.value) =
      some (ipv4OfU32 0x0a000001, 9) := by decide
  have hfirst : FirstOf Attribute.IsXorMapped [plainAttr, maskedAttr]
      (ipv4OfU32 0xcb007105, 9) := by
    refine ⟨[plainAttr], maskedAttr, [], rfl, maskedAttr_xor, ?_⟩
    intro b hb x hx
    rw [List.mem_singleton.mp hb] at hx
    exact absurd hx.1 (by decide)
  rw [parseResponse_bindingResponse _ _ (by decide), hfound]
  refine ⟨rfl, ?_⟩
  intro h
  exact absurd (Except.ok.inj (h.xor _ hfirst)) (by decide)

/-- With the masked one in front, the documented address is returned. -/
theorem masked_in_front_is_preferred :
    Prefers [maskedAttr, plainAttr]
      (parseResponse (bindingResponse (Arr.zero 12) [maskedAttr, plainAttr] []) (Arr.zero 12)) := by
  have hiff := (parseResponse_prefers_iff [] (Arr.zero 12) [maskedAttr, plainAttr] []).2 (by decide)
  refine hiff.mpr ?_
  rintro m x ⟨l, a, r, heq, ha, hl⟩ -
  cases l with
  | nil =>
      cases heq
      exact absurd ha.1 (by decide)
  | cons b l =>
      obtain ⟨rfl, -⟩ := List.cons.inj heq
      exact absurd maskedAttr_xor (hl maskedAttr List.mem_cons_self _).1

end TailscaleRust.Proofs
