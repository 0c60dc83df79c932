import TailscaleRust.Lib.Run
import TailscaleRust.Proofs.TcpServers
import TailscaleRust.Proofs.TcpStreams

/-!
# What the two servers acknowledge

Both servers set `rcv_nxt` from the segment at hand, so what they send back
acknowledges that segment, and whatever came before it is taken as received.
An `Endpoint` is what the two have in common here: which branch a segment
takes, and the number it is answered with. Deliveries of a client's stream
are then followed with a record of what has been delivered, what has been
acknowledged and what has been passed to `lan_fetch`.
-/

namespace TailscaleRust.Proofs

open TailscaleRust.Lib TailscaleRust.Core TailscaleRust.Core.Tcp
open TailscaleRust.Firmware

/-- The number a branch acknowledges a segment with. -/
def Branch.acks (s : Segment) : Branch → UInt32
  | .request => s.seq + UInt32.ofNat s.payload.length
  | .close => s.seq + 1

/-- How far in the stream that is, for a segment from offset `off` on. -/
def Branch.reach (off : Nat) (s : Segment) : Branch → Nat
  | .request => off + s.payload.length
  | .close => off + 1

/-! ## The common part -/

/-- A server, as far as its acknowledgements go. -/
structure Endpoint (σ : Type) where
  port : UInt16
  handle : σ → Bytes → UInt32 → List Bytes × σ
  branch : σ → Segment → Option Branch
  lanRequest : σ → Bytes → Option Bytes
  other : ∀ {x inner} iss, (∀ s, parseSegment inner = some s → s.dport ≠ port) →
    (handle x inner iss).1 = [] ∧ lanRequest x inner = none
  opens : ∀ {x inner s} iss, parseSegment inner = some s → s.dport = port → s.flags &&& syn ≠ 0 →
    (∀ m ∈ (handle x inner iss).1, ackNumber m = s.seq + 1) ∧ lanRequest x inner = none
  answers : ∀ {x inner s} iss, parseSegment inner = some s → s.dport = port →
    s.flags &&& syn = 0 → ∀ m ∈ (handle x inner iss).1,
      ∃ b, branch x s = some b ∧ ackNumber m = b.acks s
  asks : ∀ {x inner s q}, parseSegment inner = some s → s.dport = port → s.flags &&& syn = 0 →
    lanRequest x inner = some q → q = s.payload
  carries : ∀ {x s b}, branch x s = some b →
    (b = .request → s.payload ≠ []) ∧ (b = .close → s.flags &&& fin ≠ 0)

theorem ackNumber_bare (src dst : Ipv4Addr) (sport dport : UInt16) (x y : UInt32) (flags : UInt8) :
    ackNumber (tcpPacket src dst sport dport x y flags []) = y :=
  ackNumber_tcpPacket (by simp)

def serverEndpoint : Endpoint TcpServer where
  port := httpPort
  handle srv inner iss := srv.handle inner iss
  branch := serverBranch
  lanRequest _ _ := none
  other _ h := ⟨by rw [server_other h], rfl⟩
  opens iss hparse hport hsyn := by
    rw [server_opens hparse hport _ iss hsyn]
    refine ⟨fun m hm => ?_, rfl⟩
    cases List.mem_singleton.mp hm
    exact ackNumber_bare _ _ _ _ _ _ _
  answers {srv inner s} iss hparse hport hsyn m hm := by
    have hbranch := server_branch hparse hport srv iss hsyn
    have hlen := httpResponse_fits srv.conn.ourIp
    cases hb : serverBranch srv s with
    | none =>
        rw [hb] at hbranch
        rcases hbranch with h | ⟨-, h⟩
        · rw [h] at hm
          cases hm
        · rw [h] at hm
          cases hm
    | some b =>
        refine ⟨b, rfl, ?_⟩
        rw [hb] at hbranch
        cases b with
        | request =>
            rw [show srv.handle inner iss = _ from hbranch] at hm
            cases List.mem_singleton.mp hm
            exact ackNumber_tcpPacket (by omega)
        | close =>
            rw [show srv.handle inner iss = _ from hbranch] at hm
            cases List.mem_singleton.mp hm
            exact ackNumber_bare _ _ _ _ _ _ _
  asks _ _ _ h := by cases h
  carries h := by
    obtain ⟨-, -, -, hrequest, hclose⟩ := serverBranch_some h
    exact ⟨hrequest, fun hb => (hclose hb).2⟩

def proxyEndpoint (listenPort : UInt16) (lanFetch : Bytes → Bytes) : Endpoint Proxy.TcpProxy where
  port := listenPort
  handle proxy inner iss := proxy.handle listenPort lanFetch inner iss
  branch := proxyBranch
  lanRequest proxy inner := proxy.lanRequest listenPort inner
  other _ h := by
    obtain ⟨hnone, hasked⟩ := proxy_other h
    exact ⟨by rw [hnone], hasked⟩
  opens iss hparse hport hsyn := by
    obtain ⟨hopen, hasked⟩ := proxy_opens hparse hport lanFetch _ iss hsyn
    refine ⟨fun m hm => ?_, hasked⟩
    rw [hopen] at hm
    cases List.mem_singleton.mp hm
    exact ackNumber_bare _ _ _ _ _ _ _
  answers {proxy inner s} iss hparse hport hsyn m hm := by
    have hbranch := proxy_branch hparse hport lanFetch proxy iss hsyn
    cases hb : proxyBranch proxy s with
    | none =>
        rw [hb] at hbranch
        rcases hbranch with h | ⟨-, h⟩
        · rw [h] at hm
          cases hm
        · rw [h] at hm
          cases hm
    | some b =>
        refine ⟨b, rfl, ?_⟩
        rw [hb] at hbranch
        cases b with
        | request =>
            obtain ⟨ps, x, -, hps, hreply⟩ := replyTo_segments listenPort { proxy.conn with
              rcvNxt := s.seq + UInt32.ofNat s.payload.length, fetched := true }
              (lanFetch s.payload)
            rw [show proxy.handle listenPort lanFetch inner iss = _ from hbranch.trans hreply] at hm
            obtain ⟨t, ht, rfl⟩ := List.mem_map.mp hm
            exact ackNumber_packetOf _ (replySegments_fits _ _ hps t ht)
        | close =>
            rw [show proxy.handle listenPort lanFetch inner iss = _ from hbranch] at hm
            cases List.mem_singleton.mp hm
            exact ackNumber_bare _ _ _ _ _ _ _
  asks hparse hport hsyn h := by
    rw [lanRequest_branch hparse hport _ hsyn] at h
    split at h
    · cases h
      rfl
    · cases h
  carries h := proxyBranch_some h

/-! ## Deliveries of a stream -/

/-- A packet, the number drawn on it, and where in the stream it starts. -/
structure Delivery where
  inner : Bytes
  iss : UInt32
  off : Nat

/-- A server, the parts of the stream it has been handed and whether the FIN
was among them, the acknowledgement numbers it has sent and how far in the
stream the last of them is, and what went to `lan_fetch`. -/
structure Receipt (σ : Type) where
  machine : σ
  got : List (Nat × Nat)
  finGot : Bool
  acks : List UInt32
  top : Nat
  asked : List Bytes

def Receipt.start {σ : Type} (machine : σ) : Receipt σ := ⟨machine, [], false, [], 0, []⟩

/-- Every byte before `n` has been delivered. -/
def Covered (got : List (Nat × Nat)) (n : Nat) : Prop :=
  ∀ i < n, ∃ g ∈ got, g.1 ≤ i ∧ i < g.2

instance (got : List (Nat × Nat)) (n : Nat) : Decidable (Covered got n) :=
  inferInstanceAs (Decidable (∀ i < n, ∃ g ∈ got, g.1 ≤ i ∧ i < g.2))

/-- At most the bytes delivered without a gap, and one more for the FIN right
behind them. -/
def Reached (C : Bytes) (got : List (Nat × Nat)) (finGot : Bool) (n : Nat) : Prop :=
  Covered got n ∨ (finGot = true ∧ Covered got C.length ∧ n = C.length + 1)

/-- The acknowledgements are within what was delivered and never step back,
and `lan_fetch` has been given starts of the stream. -/
structure Truthful {σ : Type} (C : Bytes) (isn : UInt32) (r : Receipt σ) : Prop where
  acks : ∃ ns : List Nat, r.acks = ns.map (fun n => isn + 1 + UInt32.ofNat n) ∧
    ns.Pairwise (· ≤ ·) ∧ ∀ n ∈ ns, Reached C r.got r.finGot n
  asked : ∀ q ∈ r.asked, q <+: C

section Receive

variable {σ : Type} (E : Endpoint σ)

/-- The segment of a packet for this server. -/
def Endpoint.segment (inner : Bytes) : Option Segment :=
  (parseSegment inner).filter fun s => s.dport = E.port

/-- A packet of the client: its SYN once more, a part of the stream with the
FIN only at the end, or a segment with neither data nor FIN. -/
def Endpoint.FromStream (k : Caller) (C : Bytes) (d : Delivery) : Prop :=
  ∀ s, E.segment d.inner = some s → s.srcIp = k.ip ∧ s.sport = k.port ∧
    if s.flags &&& syn ≠ 0 then s.seq = k.isn
    else (s.payload = [] ∧ s.flags &&& fin = 0) ∨
      (s.seq = k.isn + 1 + UInt32.ofNat d.off ∧ d.off + s.payload.length ≤ C.length ∧
        s.payload = slice C d.off (d.off + s.payload.length) ∧
        (s.flags &&& fin ≠ 0 → d.off + s.payload.length = C.length))

def Receipt.next (r : Receipt σ) (d : Delivery) : Receipt σ :=
  let (out, machine) := E.handle r.machine d.inner d.iss
  let r' := { r with
    machine, acks := r.acks ++ out.map ackNumber
    asked := r.asked ++ (E.lanRequest r.machine d.inner).toList }
  match E.segment d.inner with
  | none => r'
  | some s =>
      if s.flags &&& syn ≠ 0 then r'
      else { r' with
        got := r.got ++ [(d.off, d.off + s.payload.length)]
        finGot := r.finGot || s.flags &&& fin ≠ 0
        top := ((E.branch r.machine s).map (Branch.reach d.off s)).getD r.top }

def Receive (k : Caller) (C : Bytes) (r : Receipt σ) (d : Delivery) (r' : Receipt σ) : Prop :=
  E.FromStream k C d ∧ r.next E d = r'

/-- A segment that is answered leaves no gap and does not end before what has
been acknowledged, and what goes to `lan_fetch` is from the start of the
stream. -/
def Endpoint.InOrder (r : Receipt σ) (d : Delivery) : Prop :=
  match E.segment d.inner with
  | none => True
  | some s =>
      if s.flags &&& syn ≠ 0 then r.top = 0
      else
        (∀ b ∈ E.branch r.machine s, Covered r.got d.off ∧ r.top ≤ b.reach d.off s) ∧
          (E.lanRequest r.machine d.inner ≠ none → d.off = 0)

end Receive

section Truth

variable {C : Bytes} {got : List (Nat × Nat)} {f : Bool} {n : Nat}

theorem covered_mono {more : List (Nat × Nat)} (h : Covered got n) : Covered (got ++ more) n := by
  intro i hi
  obtain ⟨g, hg, hin⟩ := h i hi
  exact ⟨g, List.mem_append_left more hg, hin⟩

/-- A part that starts within what is covered extends it. -/
theorem covered_append {a b : Nat} (h : Covered got a) : Covered (got ++ [(a, b)]) b := by
  intro i hi
  by_cases hia : i < a
  · exact covered_mono h i hia
  · exact ⟨(a, b), List.mem_append_right got List.mem_cons_self, Nat.le_of_not_lt hia, hi⟩

theorem reached_mono {more : List (Nat × Nat)} {g : Bool} (h : Reached C got f n) :
    Reached C (got ++ more) (f || g) n := by
  rcases h with h | ⟨hf, hC, hn⟩
  · exact .inl (covered_mono h)
  · exact .inr ⟨by rw [hf, Bool.true_or], covered_mono hC, hn⟩

/-- What a branch acknowledges has been delivered, if its segment leaves no
gap. -/
theorem reached_branch {s : Segment} {off : Nat} {b : Branch} (hcov : Covered got off)
    (hend : s.flags &&& fin ≠ 0 → off + s.payload.length = C.length)
    (hclose : b = .close → s.flags &&& fin ≠ 0) :
    Reached C (got ++ [(off, off + s.payload.length)]) (f || s.flags &&& fin ≠ 0)
      (b.reach off s) := by
  cases b with
  | request => exact .inl (covered_append hcov)
  | close =>
      have hfin := hclose rfl
      cases hpayload : s.payload with
      | nil =>
          have hoff := hend hfin
          rw [hpayload] at hoff
          refine .inr ⟨by simp [hfin], ?_, ?_⟩
          · rw [← hoff]
            exact covered_mono hcov
          · rw [← hoff]
            rfl
      | cons x xs =>
          refine .inl fun i hi => covered_append hcov i ?_
          have hreach : i < off + 1 := hi
          rw [List.length_cons]
          omega

theorem acks_eq_reach {s : Segment} {isn : UInt32} {off : Nat} (b : Branch)
    (hseq : s.seq = isn + 1 + UInt32.ofNat off) :
    b.acks s = isn + 1 + UInt32.ofNat (b.reach off s) := by
  cases b with
  | request => rw [Branch.acks, Branch.reach, hseq, UInt32.ofNat_add, UInt32.add_assoc _ (.ofNat _)]
  | close =>
      rw [Branch.acks, Branch.reach, hseq, UInt32.ofNat_add, UInt32.add_assoc _ (.ofNat _)]
      rfl

variable {σ : Type} {E : Endpoint σ} {k : Caller} {isn : UInt32} {r r' : Receipt σ} {d : Delivery}

/-- The property with its bound: no acknowledgement is beyond the last. -/
structure Tracks (C : Bytes) (isn : UInt32) (r : Receipt σ) : Prop where
  acks : ∃ ns : List Nat, r.acks = ns.map (fun n => isn + 1 + UInt32.ofNat n) ∧
    ns.Pairwise (· ≤ ·) ∧ ∀ n ∈ ns, Reached C r.got r.finGot n ∧ n ≤ r.top
  asked : ∀ q ∈ r.asked, q <+: C

theorem Tracks.truthful (h : Tracks C isn r) : Truthful C isn r := by
  obtain ⟨ns, hacks, hsorted, hns⟩ := h.acks
  exact ⟨⟨ns, hacks, hsorted, fun n hn => (hns n hn).1⟩, h.asked⟩

/-- Some more acknowledgements, all of one place that is not before the last
one. -/
theorem tracks_more (h : Tracks C isn r) {out : List UInt32} (n : Nat)
    (hacks : r'.acks = r.acks ++ out)
    (hout : ∀ a ∈ out, a = isn + 1 + UInt32.ofNat n ∧ r.top ≤ n ∧
      Reached C r'.got r'.finGot n ∧ n ≤ r'.top)
    (hmono : ∀ m, Reached C r.got r.finGot m → Reached C r'.got r'.finGot m)
    (htop : r.top ≤ r'.top) (hasked : ∀ q ∈ r'.asked, q <+: C) : Tracks C isn r' := by
  refine ⟨?_, hasked⟩
  obtain ⟨ns, hns, hsorted, hall⟩ := h.acks
  have hrep : out = List.replicate out.length (isn + 1 + UInt32.ofNat n) :=
    List.eq_replicate_iff.mpr ⟨rfl, fun a ha => (hout a ha).1⟩
  refine ⟨ns ++ List.replicate out.length n, ?_, ?_, ?_⟩
  · rw [List.map_append, List.map_replicate, ← hrep, ← hns, hacks]
  · have hsame : (List.replicate out.length n).Pairwise (· ≤ ·) :=
      List.pairwise_replicate.mpr (.inr (Nat.le_refl n))
    refine List.pairwise_append.mpr ⟨hsorted, hsame, ?_⟩
    intro m hm m' hm'
    obtain ⟨hlen, rfl⟩ := List.mem_replicate.mp hm'
    obtain ⟨a, ha⟩ := List.exists_mem_of_ne_nil out (List.ne_nil_of_length_pos (by omega))
    exact Nat.le_trans (hall m hm).2 (hout a ha).2.1
  · intro m hm
    rcases List.mem_append.mp hm with hm | hm
    · exact ⟨hmono m (hall m hm).1, Nat.le_trans (hall m hm).2 htop⟩
    · obtain ⟨hlen, rfl⟩ := List.mem_replicate.mp hm
      obtain ⟨a, ha⟩ := List.exists_mem_of_ne_nil out (List.ne_nil_of_length_pos (by omega))
      exact (hout a ha).2.2

theorem segment_some {inner : Bytes} {s : Segment} (h : E.segment inner = some s) :
    parseSegment inner = some s ∧ s.dport = E.port := by
  obtain ⟨hparse, hport⟩ := Option.filter_eq_some_iff.mp h
  exact ⟨hparse, of_decide_eq_true hport⟩

theorem segment_none {inner : Bytes} (h : E.segment inner = none) :
    ∀ s, parseSegment inner = some s → s.dport ≠ E.port := by
  intro s hparse hport
  simp [Endpoint.segment, hparse, hport] at h

theorem asked_append {asked : List Bytes} {q : Option Bytes} (h : ∀ q ∈ asked, q <+: C)
    (hq : ∀ p, q = some p → p <+: C) : ∀ p ∈ asked ++ q.toList, p <+: C := by
  intro p hp
  rcases List.mem_append.mp hp with hp | hp
  · exact h p hp
  · exact hq p (Option.mem_toList.mp hp)

/-! One delivery, by what it is: not for this server, the SYN, a segment that
is not answered, or one that is. -/

theorem tracks_other (h : Tracks C isn r) (hseg : E.segment d.inner = none) :
    Tracks C isn (r.next E d) := by
  obtain ⟨hout, hasked⟩ := E.other (x := r.machine) d.iss (segment_none hseg)
  rw [Receipt.next, hseg]
  refine tracks_more h 0 rfl ?_ (fun _ hm => hm) (Nat.le_refl _) (asked_append h.asked ?_)
  · rw [hout]
    exact List.forall_mem_nil _
  · intro p hp
    rw [hasked] at hp
    cases hp

theorem tracks_syn {s : Segment} (h : Tracks C isn r) (hseg : E.segment d.inner = some s)
    (hsyn : s.flags &&& syn ≠ 0) (hisn : s.seq = isn) (htop : r.top = 0) :
    Tracks C isn (r.next E d) := by
  obtain ⟨hparse, hport⟩ := segment_some hseg
  obtain ⟨hacks, hasked⟩ := E.opens (x := r.machine) d.iss hparse hport hsyn
  rw [Receipt.next, hseg]
  simp only []
  rw [if_pos hsyn]
  refine tracks_more h 0 rfl ?_ (fun _ hm => hm) (Nat.le_refl _) (asked_append h.asked ?_)
  · intro a ha
    obtain ⟨m, hm, rfl⟩ := List.mem_map.mp ha
    refine ⟨?_, Nat.le_of_eq htop, .inl (fun i hi => absurd hi (Nat.not_lt_zero i)),
      Nat.zero_le _⟩
    rw [hacks m hm, hisn]
    exact (UInt32.add_zero _).symm
  · intro p hp
    rw [hasked] at hp
    cases hp

section Later

variable {s : Segment} (hseg : E.segment d.inner = some s) (hsyn : s.flags &&& syn = 0)

include hseg hsyn

theorem tracks_silent (h : Tracks C isn r) (hb : E.branch r.machine s = none)
    (hasked : ∀ p, E.lanRequest r.machine d.inner = some p → p <+: C) :
    Tracks C isn (r.next E d) := by
  obtain ⟨hparse, hport⟩ := segment_some hseg
  rw [Receipt.next, hseg]
  simp only []
  rw [if_neg (not_not.mpr hsyn), hb]
  refine tracks_more h 0 rfl ?_ (fun _ hm => reached_mono hm) (Nat.le_refl _)
    (asked_append h.asked hasked)
  intro a ha
  obtain ⟨m, hm, rfl⟩ := List.mem_map.mp ha
  obtain ⟨b, hb', -⟩ := E.answers d.iss hparse hport hsyn m hm
  cases hb.symm.trans hb'

theorem tracks_answered {b : Branch} (h : Tracks C isn r) (hb : E.branch r.machine s = some b)
    (hcov : Covered r.got d.off) (htop : r.top ≤ b.reach d.off s)
    (hseq : s.seq = isn + 1 + UInt32.ofNat d.off)
    (hend : s.flags &&& fin ≠ 0 → d.off + s.payload.length = C.length)
    (hasked : ∀ p, E.lanRequest r.machine d.inner = some p → p <+: C) :
    Tracks C isn (r.next E d) := by
  obtain ⟨hparse, hport⟩ := segment_some hseg
  obtain ⟨-, hclose⟩ := E.carries hb
  rw [Receipt.next, hseg]
  simp only []
  rw [if_neg (not_not.mpr hsyn), hb]
  refine tracks_more h (b.reach d.off s) rfl ?_ (fun _ hm => reached_mono hm) htop
    (asked_append h.asked hasked)
  intro a ha
  obtain ⟨m, hm, rfl⟩ := List.mem_map.mp ha
  obtain ⟨b', hb', hack⟩ := E.answers d.iss hparse hport hsyn m hm
  cases hb.symm.trans hb'
  exact ⟨hack.trans (acks_eq_reach b hseq), htop, reached_branch hcov hend hclose, Nat.le_refl _⟩

end Later

/-- What goes to `lan_fetch` is a start of the stream. -/
theorem lanRequest_start (hord : E.InOrder r d) (hfrom : E.FromStream k C d) :
    ∀ p, E.lanRequest r.machine d.inner = some p → p <+: C := by
  intro p hp
  cases hseg : E.segment d.inner with
  | none =>
      rw [(E.other (x := r.machine) d.iss (segment_none hseg)).2] at hp
      cases hp
  | some s =>
      obtain ⟨hparse, hport⟩ := segment_some hseg
      obtain ⟨-, -, hplace⟩ := hfrom s hseg
      simp only [Endpoint.InOrder, hseg] at hord
      by_cases hsyn : s.flags &&& syn = 0
      · rw [if_neg (not_not.mpr hsyn)] at hplace hord
        rw [E.asks hparse hport hsyn hp]
        rcases hplace with ⟨hnil, -⟩ | ⟨-, -, hpiece, -⟩
        · rw [hnil]
          exact List.nil_prefix
        · have hoff : d.off = 0 := hord.2 (by rw [hp]; simp)
          rw [hpiece, hoff, slice, List.drop_zero]
          exact List.take_prefix _ C
      · rw [(E.opens (x := r.machine) d.iss hparse hport hsyn).2] at hp
        cases hp

theorem tracks_step (h : Tracks C k.isn r) (hord : E.InOrder r d) (hfrom : E.FromStream k C d) :
    Tracks C k.isn (r.next E d) := by
  have hasked := lanRequest_start hord hfrom
  rw [Endpoint.InOrder] at hord
  cases hseg : E.segment d.inner with
  | none => exact tracks_other h hseg
  | some s =>
      obtain ⟨-, -, hplace⟩ := hfrom s hseg
      simp only [hseg] at hord
      by_cases hsyn : s.flags &&& syn = 0
      · rw [if_neg (not_not.mpr hsyn)] at hplace hord
        obtain ⟨hbranch, -⟩ := hord
        cases hb : E.branch r.machine s with
        | none => exact tracks_silent hseg hsyn h hb hasked
        | some b =>
            obtain ⟨hcov, htop⟩ := hbranch b hb
            obtain ⟨hrequest, hclose⟩ := E.carries hb
            rcases hplace with ⟨hnil, hfin⟩ | ⟨hseq, -, -, hend⟩
            · -- a segment with neither data nor FIN comes to no branch
              cases b with
              | request => exact absurd hnil (hrequest rfl)
              | close => exact absurd hfin (hclose rfl)
            · exact tracks_answered hseg hsyn h hb hcov htop hseq hend hasked
      · rw [if_pos hsyn] at hplace hord
        exact tracks_syn h hseg hsyn hplace hord

theorem tracks_start (machine : σ) : Tracks C isn (Receipt.start machine) :=
  ⟨⟨[], rfl, .nil, List.forall_mem_nil _⟩, List.forall_mem_nil _⟩

theorem truthful_of_run {machine : σ} {ds : List Delivery}
    (hrun : Run (Guarded E.InOrder (Receive E k C)) (.start machine) ds r) :
    Truthful C k.isn r := by
  refine (hrun.invariant (P := Tracks C k.isn) (tracks_start machine) ?_).truthful
  intro r d r' h hstep
  obtain ⟨hord, hfrom, rfl⟩ := hstep
  exact tracks_step h hord hfrom

end Truth

/-- What the proxy does with a delivery in order depends on `lan_fetch` only at
starts of the stream. -/
theorem receive_fetch {listenPort : UInt16} {f g : Bytes → Bytes} {k : Caller} {C : Bytes}
    {r r' : Receipt Proxy.TcpProxy} {d : Delivery} (h : ∀ q, q <+: C → f q = g q)
    (hstep : Guarded (proxyEndpoint listenPort f).InOrder
      (Receive (proxyEndpoint listenPort f) k C) r d r') :
    Guarded (proxyEndpoint listenPort g).InOrder
      (Receive (proxyEndpoint listenPort g) k C) r d r' := by
  obtain ⟨hord, hfrom, hnext⟩ := hstep
  refine ⟨hord, hfrom, Eq.trans ?_ hnext⟩
  have hhandle : r.machine.handle listenPort g d.inner d.iss =
      r.machine.handle listenPort f d.inner d.iss :=
    Proxy.handle_lanRequest listenPort d.iss fun q hq =>
      (h q (lanRequest_start hord hfrom q hq)).symm
  show Receipt.next _ r d = Receipt.next _ r d
  rw [Receipt.next, Receipt.next]
  simp only [proxyEndpoint, hhandle]
  rfl

/-- Deliveries of a client's stream to either server, with losses, duplicates
and in any order: while every segment that is answered is in order, all that
is acknowledged has been received, and all that is passed on is the stream's,
so that nothing depends on what `lan_fetch` does with anything else. -/
theorem acks_truthful (k : Caller) (C : Bytes) (ds : List Delivery) :
    (∀ (srv : TcpServer) (r : Receipt TcpServer),
      Run (Guarded serverEndpoint.InOrder (Receive serverEndpoint k C)) (.start srv) ds r →
      Truthful C k.isn r) ∧
    (∀ (listenPort : UInt16) (lanFetch : Bytes → Bytes) (proxy : Proxy.TcpProxy)
      (r : Receipt Proxy.TcpProxy),
      Run (Guarded (proxyEndpoint listenPort lanFetch).InOrder
        (Receive (proxyEndpoint listenPort lanFetch) k C)) (.start proxy) ds r →
      Truthful C k.isn r ∧
        ∀ lanFetch' : Bytes → Bytes, (∀ q, q <+: C → lanFetch q = lanFetch' q) →
          Run (Receive (proxyEndpoint listenPort lanFetch') k C) (.start proxy) ds r) := by
  refine ⟨?_, ?_⟩
  · intro srv r hrun
    exact truthful_of_run hrun
  · intro listenPort lanFetch proxy r hrun
    exact ⟨truthful_of_run hrun, fun _ hsame => (hrun.mono (receive_fetch hsame)).unguarded⟩

/-! ## A stream of three bytes -/

/-- The SYN, and then the three bytes from `off` on with the FIN. -/
def threeFrom (off : Nat) : List Delivery :=
  [⟨visits 0 syn [], 7, 0⟩,
    ⟨visits (1 + UInt32.ofNat off) (psh ||| Tcp.ack ||| fin) (slice [1, 2, 3] off 3), 7, off⟩]

section Three

variable {σ : Type} {E : Endpoint σ} {r : Receipt σ}

theorem fromStream_three {off : Nat} (hoff : off ≤ 3) :
    ∀ d ∈ threeFrom off, E.FromStream visitor [1, 2, 3] d := by
  have hlen : (slice [1, 2, 3] off 3 : Bytes).length = 3 - off :=
    length_slice (by show 3 ≤ 3; omega)
  have hend : off + (slice [1, 2, 3] off 3 : Bytes).length = 3 := by omega
  intro d hd s hs
  have hparse := (segment_some hs).1
  rcases List.mem_cons.mp hd with rfl | hd
  · cases (parseSegment_visits (by simp)).symm.trans hparse
    refine ⟨rfl, rfl, ?_⟩
    rw [if_pos (by show syn &&& syn ≠ 0; decide)]
    rfl
  · cases List.mem_singleton.mp hd
    cases (parseSegment_visits (by rw [hlen]; omega)).symm.trans hparse
    refine ⟨rfl, rfl, ?_⟩
    rw [if_neg (by show ¬((psh ||| Tcp.ack ||| fin) &&& syn ≠ 0); decide)]
    refine .inr ⟨rfl, Nat.le_of_eq hend, ?_, fun _ => hend⟩
    simp only [hend]

theorem next_run {k : Caller} {C : Bytes} {ds : List Delivery}
    (h : ∀ d ∈ ds, E.FromStream k C d) :
    Run (Receive E k C) r ds (ds.foldl (Receipt.next E) r) := by
  induction ds generalizing r with
  | nil => exact .nil
  | cons d ds ih =>
      exact .cons ⟨h d List.mem_cons_self, rfl⟩ (ih fun d' hd' => h d' (List.mem_cons_of_mem d hd'))

/-- Something is acknowledged, and the first byte of the stream is missing. -/
theorem not_truthful_gap {C : Bytes} {isn a : UInt32} (hack : a ∈ r.acks) (ha : a ≠ isn + 1)
    (hgot : ∀ g ∈ r.got, 0 < g.1) (hC : C ≠ []) : ¬Truthful C isn r := by
  intro h
  have hzero : ∀ n, 0 < n → ¬Covered r.got n := by
    intro n hn hcov
    obtain ⟨g, hg, hstart, -⟩ := hcov 0 hn
    have hpos := hgot g hg
    omega
  obtain ⟨ns, hns, -, hall⟩ := h.acks
  rw [hns] at hack
  obtain ⟨n, hn, rfl⟩ := List.mem_map.mp hack
  rcases hall n hn with hcov | ⟨-, hcov, -⟩
  · cases n with
    | zero => exact ha (UInt32.add_zero _)
    | succ n => exact hzero (n + 1) (Nat.succ_pos n) hcov
  · exact hzero C.length (List.length_pos_iff.mpr hC) hcov

theorem inOrder_first {d : Delivery} (htop : r.top = 0) (hoff : d.off = 0) : E.InOrder r d := by
  rw [Endpoint.InOrder]
  split
  · trivial
  · split
    · exact htop
    · refine ⟨fun b _ => ⟨?_, by omega⟩, fun _ => hoff⟩
      rw [hoff]
      exact fun i hi => absurd hi (Nat.not_lt_zero i)

theorem inOrder_three (x : σ)
    (htop : ((Receipt.start x).next E ⟨visits 0 syn [], 7, 0⟩).top = 0) :
    Run (Guarded E.InOrder (Receive E visitor [1, 2, 3])) (.start x) (threeFrom 0)
      ((threeFrom 0).foldl (Receipt.next E) (.start x)) := by
  have hall : ∀ d ∈ threeFrom 0, E.FromStream visitor [1, 2, 3] d := fromStream_three (by omega)
  refine .cons ⟨inOrder_first rfl rfl, hall _ List.mem_cons_self, rfl⟩ (.cons ⟨?_, ?_, rfl⟩ .nil)
  · exact inOrder_first htop rfl
  · exact hall _ (List.mem_cons_of_mem _ List.mem_cons_self)

end Three

def serverAfter (off : Nat) : Receipt TcpServer :=
  (threeFrom off).foldl (Receipt.next serverEndpoint) (.start TcpServer.new)

/-- The proxy, with a service that answers with the request. -/
def proxyAfter (off : Nat) : Receipt Proxy.TcpProxy :=
  (threeFrom off).foldl (Receipt.next (proxyEndpoint 80 fun q => q)) (.start Proxy.TcpProxy.new)

theorem three_evaluated :
    (5 ∈ (serverAfter 3).acks ∧ (serverAfter 3).got = [(3, 3)]) ∧
    (4 ∈ (proxyAfter 2).acks ∧ (proxyAfter 2).got = [(2, 3)] ∧ [3] ∈ (proxyAfter 2).asked) ∧
    (proxyAfter 0).asked = [[1, 2, 3]] := by
  decide +kernel

/-- The server gets the FIN without the three bytes, and the proxy the last of
them without the others. -/
theorem gap_acknowledged :
    (∃ ds r, Run (Receive serverEndpoint visitor [1, 2, 3]) (.start TcpServer.new) ds r ∧
      ¬Truthful [1, 2, 3] visitor.isn r) ∧
    (∃ ds r, Run (Receive (proxyEndpoint 80 fun q => q) visitor [1, 2, 3])
        (.start Proxy.TcpProxy.new) ds r ∧
      ¬Truthful [1, 2, 3] visitor.isn r ∧ ∃ q ∈ r.asked, ¬q <+: [1, 2, 3]) := by
  obtain ⟨⟨hfive, hfinGot⟩, ⟨hfour, hlastGot, hasked⟩, -⟩ := three_evaluated
  refine ⟨⟨threeFrom 3, serverAfter 3, next_run (fromStream_three (by omega)), ?_⟩,
    threeFrom 2, proxyAfter 2, next_run (fromStream_three (by omega)), ?_, [3], hasked, by decide⟩
  · refine not_truthful_gap hfive (by decide) ?_ (List.cons_ne_nil _ _)
    rw [hfinGot]
    simp
  · refine not_truthful_gap hfour (by decide) ?_ (List.cons_ne_nil _ _)
    rw [hlastGot]
    simp

theorem acks_truthful_three :
    (∃ r, Run (Guarded serverEndpoint.InOrder (Receive serverEndpoint visitor [1, 2, 3]))
        (.start TcpServer.new) (threeFrom 0) r ∧ Truthful [1, 2, 3] visitor.isn r) ∧
    (∃ r, Run (Guarded (proxyEndpoint 80 fun q => q).InOrder
        (Receive (proxyEndpoint 80 fun q => q) visitor [1, 2, 3]))
        (.start Proxy.TcpProxy.new) (threeFrom 0) r ∧ r.asked = [[1, 2, 3]] ∧
      Truthful [1, 2, 3] visitor.isn r ∧
      Run (Receive (proxyEndpoint 80 (List.take 3)) visitor [1, 2, 3]) (.start Proxy.TcpProxy.new)
        (threeFrom 0) r) := by
  obtain ⟨hserver, hproxy⟩ := acks_truthful visitor [1, 2, 3] (threeFrom 0)
  have hrun₁ := inOrder_three (E := serverEndpoint) TcpServer.new (by decide)
  have hrun₂ := inOrder_three (E := proxyEndpoint 80 fun q => q) Proxy.TcpProxy.new (by decide)
  obtain ⟨htrue, hfetch⟩ := hproxy _ _ _ _ hrun₂
  refine ⟨⟨_, hrun₁, hserver _ _ hrun₁⟩, _, hrun₂, three_evaluated.2.2, htrue, ?_⟩
  exact hfetch _ fun q hq => (List.take_of_length_le hq.length_le).symm

end TailscaleRust.Proofs
