import TailscaleRust.Firmware.Control
import TailscaleRust.Proofs.H2Response
import TailscaleRust.Proofs.Netmap

/-!
# The address in a streamed map

`stream_map` scans the payloads of the stream one by one, and where a payload
ends is up to the server. The first `"100.` of the stream begins in one of
them. If this one has all of the address, scanning it finds what scanning the
stream would. If it has only a part, the part is taken for the address when it
is long enough, and else the scan goes on with the next payload as if nothing
had been there. So the payloads give what the stream has if the address is not
cut. They do only then, unless a later payload shows an address too, which may
by chance be the same.
-/

namespace TailscaleRust.Proofs

open TailscaleRust.Lib TailscaleRust.Core TailscaleRust.Core.H2
open TailscaleRust.Firmware.Control

/-! ## One scan -/

/-- Digits and dots, and enough of them. -/
def isAddress (s : Bytes) : Bool := s.all isAddressByte ∧ s.length ≥ 7

/-- After the first `"100.` of these bytes stands this address. -/
def Offers (raw s : Bytes) : Prop :=
  ∃ q, position pat raw = some q ∧ s = addressText (raw.drop (q + 1)) ∧ isAddress s = true

theorem scan_of_position {raw : Bytes} {q : Nat} (h : position pat raw = some q) :
    scanTailscaleIp raw =
      if isAddress (addressText (raw.drop (q + 1))) then some (addressText (raw.drop (q + 1)))
      else none := by
  rw [scanTailscaleIp, h, isAddress]
  simp only [decide_eq_true_eq]
  rfl

theorem scan_of_no_position {raw : Bytes} (h : position pat raw = none) :
    scanTailscaleIp raw = none := by
  rw [scanTailscaleIp, h]

theorem scan_eq_some_iff {raw s : Bytes} : scanTailscaleIp raw = some s ↔ Offers raw s := by
  cases h : position pat raw with
  | none =>
      rw [scan_of_no_position h]
      refine ⟨?_, ?_⟩
      · intro hs
        cases hs
      · rintro ⟨q, hq, -, -⟩
        rw [h] at hq
        cases hq
  | some q =>
      rw [scan_of_position h]
      refine ⟨?_, ?_⟩
      · intro hs
        split at hs
        · next haddr =>
            cases hs
            exact ⟨q, h, rfl, haddr⟩
        · cases hs
      · rintro ⟨q', hq', rfl, haddr⟩
        rw [h] at hq'
        cases hq'
        exact if_pos haddr

theorem scan_eq_none_iff {raw : Bytes} : scanTailscaleIp raw = none ↔ ∀ s, ¬Offers raw s := by
  rw [Option.eq_none_iff_forall_ne_some]
  simp only [ne_eq, scan_eq_some_iff]

/-! ## The payload in which the first `"100.` begins -/

/-- A place in the stream lies in some payload. -/
theorem exists_payload {cs : List Bytes} {q : Nat} (h : q < cs.flatten.length) :
    ∃ before c after, cs = before ++ c :: after ∧ before.flatten.length ≤ q ∧
      q < before.flatten.length + c.length := by
  induction cs generalizing q with
  | nil => cases h
  | cons c cs ih =>
      rw [List.flatten_cons, List.length_append] at h
      rcases Nat.lt_or_ge q c.length with hc | hc
      · exact ⟨[], c, cs, rfl, Nat.zero_le q, by simpa using hc⟩
      · obtain ⟨before, d, after, rfl, hlow, hhigh⟩ := ih (q := q - c.length) (by omega)
        refine ⟨c :: before, d, after, rfl, ?_, ?_⟩
        · rw [List.flatten_cons, List.length_append]
          omega
        · rw [List.flatten_cons, List.length_append]
          omega

theorem position_add_le {raw : Bytes} {q : Nat} (h : position pat raw = some q) :
    q + 5 ≤ raw.length := by
  have hwindow := congrArg List.length ((position_eq_some_iff (by decide)).mp h).1
  have hlen : pat.length = 5 := rfl
  rw [List.length_take, List.length_drop, hlen] at hwindow
  omega

section Cut

variable {before after : List Bytes} {c : Bytes} {q : Nat}

theorem flatten_around : (before ++ c :: after).flatten =
    before.flatten ++ (c ++ after.flatten) := by
  rw [List.flatten_append, List.flatten_cons]

/-- What occurs in a payload occurs in the stream. -/
theorem exists_position_flatten (before after : List Bytes) {k : Nat}
    (h : position pat c = some k) :
    ∃ n, position pat (before ++ c :: after).flatten = some n ∧ n ≤ before.flatten.length + k := by
  rw [flatten_around]
  exact exists_position_append pat (position_append_right (by decide) h) before.flatten

/-- Nothing is found before that payload. -/
theorem scan_before (hq : position pat (before ++ c :: after).flatten = some q)
    (hlow : before.flatten.length ≤ q) : ∀ x ∈ before, scanTailscaleIp x = none := by
  intro x hx
  cases hpos : position pat x with
  | none => exact scan_of_no_position hpos
  | some k =>
      exfalso
      obtain ⟨l, r, rfl⟩ := List.append_of_mem hx
      have hinside := position_add_le hpos
      obtain ⟨n, hn, hle⟩ := exists_position_flatten l (r ++ c :: after) hpos
      rw [List.append_assoc, List.cons_append, hn] at hq
      cases hq
      rw [List.flatten_append, List.flatten_cons, List.length_append, List.length_append] at hlow
      omega

/-- What that payload offers is the part of the address it has. -/
theorem offers_cut_iff (hq : position pat (before ++ c :: after).flatten = some q)
    (hlow : before.flatten.length ≤ q) {s : Bytes} :
    Offers c s ↔ q + 5 ≤ before.flatten.length + c.length ∧ isAddress s = true ∧
      s = (addressText ((before ++ c :: after).flatten.drop (q + 1))).take
        (before.flatten.length + c.length - (q + 1)) := by
  rw [flatten_around] at hq ⊢
  have hrest := position_append_drop (by decide) hq hlow
  have hdrop : (before.flatten ++ (c ++ after.flatten)).drop (q + 1) =
      (c ++ after.flatten).drop (q - before.flatten.length + 1) := by
    rw [List.drop_append, List.drop_eq_nil_of_le (by omega), List.nil_append]
    congr 1
    omega
  by_cases hin : q + 5 ≤ before.flatten.length + c.length
  · have hpos : position pat c = some (q - before.flatten.length) :=
      position_append (by decide) hrest (by have : pat.length = 5 := rfl; omega)
    have htext : addressText (c.drop (q - before.flatten.length + 1)) =
        (addressText ((before.flatten ++ (c ++ after.flatten)).drop (q + 1))).take
          (before.flatten.length + c.length - (q + 1)) := by
      have hpart : (c ++ after.flatten).drop (q - before.flatten.length + 1) =
          c.drop (q - before.flatten.length + 1) ++ after.flatten :=
        List.drop_append_of_le_length (by omega)
      rw [hdrop, hpart, addressText, addressText, List.take_takeWhile,
        List.take_left' (by rw [List.length_drop]; omega)]
    rw [← htext]
    refine ⟨?_, ?_⟩
    · rintro ⟨q', hq', rfl, haddr⟩
      rw [hpos] at hq'
      cases hq'
      exact ⟨hin, haddr, rfl⟩
    · rintro ⟨-, haddr, rfl⟩
      exact ⟨_, hpos, rfl, haddr⟩
  · have hpos : position pat c = none :=
      position_prefix_none (by decide) hrest (by have : pat.length = 5 := rfl; omega)
    refine ⟨?_, fun h => absurd h.1 hin⟩
    rintro ⟨q', hq', -, -⟩
    rw [hpos] at hq'
    cases hq'

end Cut

/-! ## All payloads -/

/-- The address stands in the stream between a quote and a slash or another
quote. -/
def Terminated (raw s : Bytes) : Prop :=
  ∃ u t v, raw = u ++ 34 :: (s ++ t :: v) ∧ (t = 47 ∨ t = 34)

/-- The text after the first `"100.` is terminated exactly if the stream goes on
behind it. -/
theorem terminated_iff {raw : Bytes} {q : Nat} (hq : position pat raw = some q) :
    Terminated raw (addressText (raw.drop (q + 1))) ↔
      q + 1 + (addressText (raw.drop (q + 1))).length < raw.length := by
  obtain ⟨hpat, hfirst⟩ := (position_eq_some_iff (by decide)).mp hq
  have hdrop : raw.drop q = pat ++ raw.drop (q + 5) := by
    rw [← List.take_append_drop 5 (raw.drop q), List.drop_drop]
    exact congrArg (· ++ raw.drop (q + 5)) hpat
  have hdrop1 : raw.drop (q + 1) = [49, 48, 48, 46] ++ raw.drop (q + 5) := by
    rw [← List.drop_drop, hdrop]
    rfl
  refine ⟨?_, ?_⟩
  · rintro ⟨u, t, v, hraw, -⟩
    have hle : q ≤ u.length := by
      by_contra hlt
      refine hfirst u.length (by omega) ?_
      rw [hraw, List.drop_left, hdrop1]
      rfl
    have hlen := congrArg List.length hraw
    rw [List.length_append, List.length_cons, List.length_append, List.length_cons] at hlen
    omega
  · intro hlt
    obtain ⟨post, hsplit, hpost⟩ := addressText_split (raw.drop (q + 1))
    have hlen := congrArg List.length hsplit
    rw [List.length_drop, List.length_append] at hlen
    cases post with
    | nil =>
        rw [List.length_nil] at hlen
        omega
    | cons t v =>
        refine ⟨raw.take q, t, v, ?_, ?_⟩
        · rw [← hsplit, hdrop1]
          exact (List.take_append_drop q raw).symm.trans (congrArg (raw.take q ++ ·) hdrop)
        · rcases hpost with h | h | h
          · cases h
          · exact .inl (Option.some.inj h)
          · exact .inr (Option.some.inj h)

/-- The payload shows an address: a quote and then `100.` and more digits and
dots, seven or more bytes up to a slash, a quote or the end of the payload. -/
def Shows (d s : Bytes) : Prop :=
  ∃ u v, d = u ++ 34 :: (s ++ v) ∧ s.take 4 = [49, 48, 48, 46] ∧ isAddress s = true ∧
    (v = [] ∨ v.head? = some 47 ∨ v.head? = some 34)

theorem shows_of_offers {d s : Bytes} (h : Offers d s) : Shows d s := by
  obtain ⟨k, hk, rfl, haddr⟩ := h
  have hpat := ((position_eq_some_iff (by decide)).mp hk).1
  have hdrop : d.drop k = pat ++ d.drop (k + 5) := by
    rw [← List.take_append_drop 5 (d.drop k), List.drop_drop]
    exact congrArg (· ++ d.drop (k + 5)) hpat
  have hdrop1 : d.drop (k + 1) = [49, 48, 48, 46] ++ d.drop (k + 5) := by
    rw [← List.drop_drop, hdrop]
    rfl
  obtain ⟨post, hsplit, hpost⟩ := addressText_split (d.drop (k + 1))
  refine ⟨d.take k, post, ?_, ?_, haddr, hpost⟩
  · rw [← hsplit, hdrop1]
    exact (List.take_append_drop k d).symm.trans (congrArg (d.take k ++ ·) hdrop)
  · rw [hdrop1]
    rfl

/-- The payloads give what the stream has, and nothing truncated. -/
def ScansAsWhole (cs : List Bytes) (found : Option Bytes) : Prop :=
  found = scanTailscaleIp cs.flatten ∧ ∀ s, found = some s → Terminated cs.flatten s

/-- The first `"100.` of the stream is at `q`, in the payload between `before`
and `after`. -/
structure FirstIn (before : List Bytes) (c : Bytes) (after : List Bytes) (q : Nat) : Prop where
  first : position pat (before ++ c :: after).flatten = some q
  low : before.flatten.length ≤ q
  high : q < before.flatten.length + c.length

/-- The payload in which the text begins has all of it, it is an address, and
the stream goes on behind it. -/
def HasAll (before : List Bytes) (c : Bytes) (after : List Bytes) (q : Nat) (s : Bytes) : Prop :=
  isAddress s = true ∧ q + 1 + s.length ≤ before.flatten.length + c.length ∧
    q + 1 + s.length < (before ++ c :: after).flatten.length

/-- The text is no address, nor is the part that its payload has, and no later
payload shows an address. -/
def HasNone (before : List Bytes) (c : Bytes) (after : List Bytes) (q : Nat) (s : Bytes) : Prop :=
  isAddress s = false ∧
    isAddress (s.take (before.flatten.length + c.length - (q + 1))) = false ∧
    ∀ d ∈ after, ∀ x, ¬Shows d x

/-- There is no `"100.` in the stream, or the text after the first one is an
address that is all in one payload, or it is none and no payload makes it look
like one. -/
def Uncut (cs : List Bytes) : Prop :=
  position pat cs.flatten = none ∨
  ∃ before c after q, cs = before ++ c :: after ∧ FirstIn before c after q ∧
    (HasAll before c after q (addressText (cs.flatten.drop (q + 1))) ∨
      HasNone before c after q (addressText (cs.flatten.drop (q + 1))))

/-- Behind the payload of the first `"100.` no payload shows an address. -/
def ShownOnce (cs : List Bytes) : Prop :=
  ∀ before c after q, cs = before ++ c :: after → FirstIn before c after q →
    ∀ d ∈ after, ∀ x, ¬Shows d x

section Whole

variable {before after : List Bytes} {c : Bytes} {q : Nat}

theorem findSome_around (h : FirstIn before c after q) :
    (before ++ c :: after).findSome? scanTailscaleIp =
      (scanTailscaleIp c).or (after.findSome? scanTailscaleIp) := by
  have hbefore : before.findSome? scanTailscaleIp = none :=
    List.findSome?_eq_none_iff.mpr (scan_before h.first h.low)
  rw [List.findSome?_append, hbefore, Option.none_or, List.findSome?_cons]
  cases scanTailscaleIp c with
  | none => rw [Option.none_or]
  | some s => rw [Option.some_or]

/-- A payload with all of the address offers it. -/
theorem offers_whole (h : FirstIn before c after q)
    (haddr : isAddress (addressText ((before ++ c :: after).flatten.drop (q + 1))) = true)
    (hfits : q + 1 + (addressText ((before ++ c :: after).flatten.drop (q + 1))).length ≤
      before.flatten.length + c.length) :
    Offers c (addressText ((before ++ c :: after).flatten.drop (q + 1))) := by
  have hseven : 7 ≤ (addressText ((before ++ c :: after).flatten.drop (q + 1))).length := by
    rw [isAddress, decide_eq_true_eq] at haddr
    exact haddr.2
  rw [offers_cut_iff h.first h.low]
  exact ⟨by omega, haddr, (List.take_of_length_le (by omega)).symm⟩

/-- The payload in which the first `"100.` begins offers a part: it must be all
of the text. -/
theorem scansAsWhole_offered (h : FirstIn before c after q) {s x : Bytes}
    (hs : s = addressText ((before ++ c :: after).flatten.drop (q + 1))) (hoffer : Offers c x) :
    ((some x : Option Bytes) = (if isAddress s then some s else none) ∧
      ∀ y, some x = some y → Terminated (before ++ c :: after).flatten y) ↔
      HasAll before c after q s := by
  have hterm : Terminated (before ++ c :: after).flatten s ↔
      q + 1 + s.length < (before ++ c :: after).flatten.length := by
    rw [hs]
    exact terminated_iff h.first
  obtain ⟨hin, -, hx⟩ := (offers_cut_iff h.first h.low).mp hoffer
  rw [← hs] at hx
  rw [HasAll]
  refine ⟨?_, ?_⟩
  · rintro ⟨heq, hends⟩
    split at heq
    · next haddr =>
        obtain rfl := Option.some.inj heq
        have hlen := congrArg List.length hx
        rw [List.length_take] at hlen
        exact ⟨haddr, by omega, hterm.mp (hends x rfl)⟩
    · cases heq
  · rintro ⟨haddr, hfits, hlt⟩
    have hxs : x = s := hx.trans (List.take_of_length_le (by omega))
    rw [hxs, if_pos haddr]
    exact ⟨rfl, fun y hy => Option.some.inj hy ▸ hterm.mpr hlt⟩

/-- It offers nothing if its part of the text is no address. -/
theorem offers_none_iff (h : FirstIn before c after q) {s : Bytes}
    (hs : s = addressText ((before ++ c :: after).flatten.drop (q + 1))) :
    (∀ x, ¬Offers c x) ↔
      isAddress (s.take (before.flatten.length + c.length - (q + 1))) = false := by
  rw [← Bool.not_eq_true]
  refine ⟨?_, ?_⟩
  · intro hnone haddr
    have hseven : 7 ≤ (s.take (before.flatten.length + c.length - (q + 1))).length := by
      rw [isAddress, decide_eq_true_eq] at haddr
      exact haddr.2
    rw [List.length_take] at hseven
    refine hnone _ ((offers_cut_iff h.first h.low).mpr ⟨by omega, haddr, ?_⟩)
    rw [hs]
  · intro hno x hoffer
    obtain ⟨-, haddr, hx⟩ := (offers_cut_iff h.first h.low).mp hoffer
    rw [hx, ← hs] at haddr
    exact hno haddr

/-- And where no later payload shows an address, there is nothing then. -/
theorem findSome_after (hlater : ∀ d ∈ after, ∀ x, ¬Shows d x) :
    after.findSome? scanTailscaleIp = none := by
  rw [List.findSome?_eq_none_iff]
  intro d hd
  rw [scan_eq_none_iff]
  exact fun x hoffer => hlater d hd x (shows_of_offers hoffer)

/-- Scanning by payloads, seen from the payload in which the first `"100.`
begins. -/
theorem scansAsWhole_iff (h : FirstIn before c after q) {s : Bytes}
    (hs : s = addressText ((before ++ c :: after).flatten.drop (q + 1)))
    (hlater : HasAll before c after q s ∨ ∀ d ∈ after, ∀ x, ¬Shows d x) :
    ScansAsWhole (before ++ c :: after) ((before ++ c :: after).findSome? scanTailscaleIp) ↔
      HasAll before c after q s ∨ HasNone before c after q s := by
  have hwhole : scanTailscaleIp (before ++ c :: after).flatten =
      if isAddress s then some s else none := by
    rw [hs]
    exact scan_of_position h.first
  rw [ScansAsWhole, findSome_around h, hwhole]
  cases hc : scanTailscaleIp c with
  | some x =>
      have hoffer := scan_eq_some_iff.mp hc
      rw [Option.some_or, scansAsWhole_offered h hs hoffer]
      refine ⟨.inl, fun hor => hor.resolve_right fun hnone => ?_⟩
      exact (offers_none_iff h hs).mpr hnone.2.1 x hoffer
  | none =>
      have hnone := scan_eq_none_iff.mp hc
      have hpart := (offers_none_iff h hs).mp hnone
      have hnotAll : ¬HasAll before c after q s := by
        rintro ⟨haddr, hfits, -⟩
        rw [hs] at haddr hfits
        exact hnone _ (offers_whole h haddr hfits)
      have hlater := hlater.resolve_left hnotAll
      rw [Option.none_or, findSome_after hlater]
      refine ⟨?_, ?_⟩
      · rintro ⟨heq, -⟩
        split at heq
        · cases heq
        · next haddr => exact .inr ⟨Bool.not_eq_true _ ▸ haddr, hpart, hlater⟩
      · intro hor
        obtain ⟨haddr, -⟩ := hor.resolve_left hnotAll
        rw [haddr]
        exact ⟨rfl, fun y hy => by cases hy⟩

end Whole

/-- Without a `"100.` there is nothing in the payloads either. -/
theorem scansAsWhole_of_no_position {cs : List Bytes} (hq : position pat cs.flatten = none) :
    ScansAsWhole cs (cs.findSome? scanTailscaleIp) := by
  have hnone : cs.findSome? scanTailscaleIp = none := by
    rw [List.findSome?_eq_none_iff]
    intro c hc
    cases hpos : position pat c with
    | none => exact scan_of_no_position hpos
    | some k =>
        exfalso
        obtain ⟨l, r, rfl⟩ := List.append_of_mem hc
        obtain ⟨n, hn, -⟩ := exists_position_flatten l r hpos
        rw [hn] at hq
        cases hq
  refine ⟨?_, ?_⟩
  · rw [hnone, scan_of_no_position hq]
  · intro s hs
    rw [hnone] at hs
    cases hs

/-- Scanning payload by payload and taking the first hit is scanning the
stream, if the address is not cut. -/
theorem scansAsWhole_of_uncut {cs : List Bytes} (h : Uncut cs) :
    ScansAsWhole cs (cs.findSome? scanTailscaleIp) := by
  rcases h with hnone | ⟨before, c, after, q, rfl, hin, h⟩
  · exact scansAsWhole_of_no_position hnone
  · exact (scansAsWhole_iff hin rfl (h.imp_right fun hnone => hnone.2.2)).mpr h

/-- And only then, if no later payload shows an address. -/
theorem uncut_of_scansAsWhole {cs : List Bytes} (honce : ShownOnce cs)
    (h : ScansAsWhole cs (cs.findSome? scanTailscaleIp)) : Uncut cs := by
  cases hq : position pat cs.flatten with
  | none => exact .inl hq
  | some q =>
      have hinside := position_add_le hq
      obtain ⟨before, c, after, rfl, hlow, hhigh⟩ :=
        exists_payload (show q < cs.flatten.length by omega)
      have hin : FirstIn before c after q := ⟨hq, hlow, hhigh⟩
      have hlater := honce before c after q rfl hin
      exact .inr ⟨before, c, after, q, rfl, hin, (scansAsWhole_iff hin rfl (.inr hlater)).mp h⟩

/-! ## The loop over the frames -/

/-- The non-empty payloads of a stream. -/
def payloadsOf (streamId : UInt32) (frs : List H2.Frame) : List Bytes :=
  ((onStream streamId ftData frs).map H2.Frame.payload).filter fun b => b ≠ []

/-- A frame that does not end the stream or the connection: no GOAWAY, and
END_STREAM on none but a piece of data. -/
structure KeepsOpen (streamId : UInt32) (fr : H2.Frame) : Prop where
  goaway : fr.typ ≠ ftGoaway
  headers : fr.typ = ftHeaders → fr.flags &&& flEndStream = 0
  empty : fr.typ = ftData → fr.streamId = streamId → fr.payload = [] →
    fr.flags &&& flEndStream = 0

section Loop

variable {streamId : UInt32} {fr : H2.Frame}

theorem payloadsOf_cons (frs : List H2.Frame) :
    payloadsOf streamId (fr :: frs) = payloadsOf streamId [fr] ++ payloadsOf streamId frs := by
  rw [payloadsOf, payloadsOf, payloadsOf, ← List.filter_append, ← List.map_append, onStream,
    onStream, onStream, ← List.filter_append, List.singleton_append]

/-- A frame ends the read with its payload, or the read goes on. -/
theorem dataStep_cases (hopen : KeepsOpen streamId fr) :
    (∃ c, payloadsOf streamId [fr] = [c] ∧ (dataStep streamId () fr).2 = .stop (.ok c)) ∨
    (payloadsOf streamId [fr] = [] ∧ (dataStep streamId () fr).2 = .more ()) := by
  rw [payloadsOf, onStream_single, dataStep]
  split
  · next hdata =>
      split
      · next hne => exact .inl ⟨fr.payload, by simp [hne], rfl⟩
      · next hempty =>
          rw [not_not] at hempty
          rw [if_neg (by simp [hopen.empty hdata.1 hdata.2 hempty])]
          exact .inr ⟨by simp [hempty], rfl⟩
  · refine .inr ⟨rfl, ?_⟩
    split
    · next hheaders =>
        rw [if_neg (by simp [hopen.headers hheaders])]
    · split
      · rfl
      · rw [if_neg hopen.goaway]

/-- The loop over frames is the search over their payloads: it returns the
first hit, and without one goes on behind them. -/
theorem scanPayloads_frames {C : Crypto} (hC : C.Lawful) {fs : List WireFrame}
    (hopen : ∀ f ∈ fs, KeepsOpen streamId f.received) {n : Nat}
    (hn : (payloadsOf streamId (fs.map WireFrame.received)).length ≤ n) {h : H2} {q : Bytes}
    (hw : h.conn.stream.writeFails = false)
    (hq : PlainAhead C h (fs.flatMap WireFrame.bytes ++ q)) :
    ∃ h', scanPayloads C streamId n h =
      match (payloadsOf streamId (fs.map WireFrame.received)).findSome? scanTailscaleIp with
      | some ip => .ok (some ip, h')
      | none => scanPayloads C streamId
          (n - (payloadsOf streamId (fs.map WireFrame.received)).length) h' := by
  induction fs generalizing n h with
  | nil => exact ⟨h, rfl⟩
  | cons f fs ih =>
      cases n with
      | zero =>
          rw [Nat.le_zero, List.length_eq_zero_iff] at hn
          rw [hn]
          exact ⟨h, rfl⟩
      | succ n =>
          have hrest : ∀ g ∈ fs, KeepsOpen streamId g.received :=
            fun g hg => hopen g (List.mem_cons_of_mem f hg)
          rw [List.flatMap_cons, List.append_assoc] at hq
          obtain ⟨h1, hq1, hwrote, hloop⟩ := frameLoop_frame (dataStep streamId) hC hw hq ()
          have hw1 := hwrote.writable.trans hw
          rw [List.map_cons, payloadsOf_cons, List.length_append] at hn
          rw [List.map_cons, payloadsOf_cons, List.length_append, scanPayloads, readData]
          rcases dataStep_cases (hopen f List.mem_cons_self) with ⟨c, hc, hstop⟩ | ⟨hnone, hmore⟩
          · rw [hstop] at hloop
            rw [hc, List.length_singleton] at hn
            rw [hloop, hc, List.singleton_append, List.findSome?_cons, List.length_singleton]
            cases hscan : scanTailscaleIp c with
            | some ip =>
                simp only [hscan]
                exact ⟨h1, rfl⟩
            | none =>
                obtain ⟨h', hih⟩ := ih hrest (n := n) (by omega) hw1 hq1
                simp only [hscan, hih, Nat.add_comm 1, Nat.add_sub_add_right]
                exact ⟨h', rfl⟩
          · rw [hmore] at hloop
            rw [hnone, List.length_nil, Nat.zero_add] at hn
            obtain ⟨h', hih⟩ := ih hrest hn hw1 hq1
            rw [hnone, List.nil_append, List.length_nil, Nat.zero_add]
            refine ⟨h', hih ▸ ?_⟩
            rw [hloop, scanPayloads, readData]

end Loop

/-- A piece of the response on stream one. -/
def dataPiece (text : String) (h : (ascii text).length < 2 ^ 24) : WireFrame where
  typ := ftData
  flags := 0
  streamWord := 1
  payload := ascii text
  payload_lt := h

theorem dataPiece_open (text : String) (h : (ascii text).length < 2 ^ 24)
    (hne : ascii text ≠ []) : KeepsOpen 1 (dataPiece text h).received :=
  ⟨by simp [dataPiece, WireFrame.received, ftData, ftGoaway],
    by simp [dataPiece, WireFrame.received, ftData, ftHeaders], fun _ _ he => absurd he hne⟩

/-- The server cuts our address in two. -/
def cutResponse : List WireFrame :=
  [dataPiece "x\"100.64.0" (by decide), dataPiece ".17/32\"" (by decide)]

/-- A response cut before the address and behind it. -/
def uncutResponse : List WireFrame :=
  [dataPiece "x\"Addresses\":[" (by decide), dataPiece "\"100.64.0.17" (by decide),
    dataPiece "/32\"]" (by decide)]

end TailscaleRust.Proofs
