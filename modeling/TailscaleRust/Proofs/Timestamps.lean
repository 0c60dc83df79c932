import TailscaleRust.Proofs.Tables

/-!
# The timestamps of our initiations

A handshake is stamped once, when a PONG starts it, with what the clock then
shows. The slot keeps the message, and the periodic work resends it as it is
so that a late response still matches. So the initiations a peer gets from us
carry a new stamp with every handshake and the last stamp again with every
retry: on a clock that moves forward the stamps never go back, and a new
handshake's stamp is beyond every stamp before it.

The log of a run holds every initiation sent for a peer's slot with the stamp
it was built with.
-/

namespace TailscaleRust.Proofs

open TailscaleRust.Lib TailscaleRust.Core TailscaleRust.Core.Wg
open TailscaleRust.Firmware TailscaleRust.Firmware.Dataplane

/-! ## Stamps -/

/-- What the clock shows: seconds since the epoch and nanoseconds. -/
structure Reading where
  secs : UInt64
  nanos : UInt32
  deriving DecidableEq

def Reading.stamp (r : Reading) : Arr 12 := tai64n r.secs r.nanos

def Reading.Before (r r' : Reading) : Prop :=
  r.secs < r'.secs ∨ (r.secs = r'.secs ∧ r.nanos < r'.nanos)

/-- `SystemTime` counts the seconds in an `i64`. -/
def Reading.Representable (r : Reading) : Prop := r.secs.toNat < 2 ^ 63

theorem tai64n_bytes (secs : UInt64) (nanos : UInt32) :
    (tai64n secs nanos).1 = be64 (0x400000000000000a + secs) ++ be32 nanos := by
  show copyAt (copyAt (zeros 12) 0 (be64 (0x400000000000000a + secs))) 8 (be32 nanos) = _
  rw [copyAt_eq (by simp), copyAt_eq (by simp)]
  simp [zeros]

/-- Stamps are ordered, byte by byte, as the readings are. -/
theorem stamp_lt {r r' : Reading} (h : r.Before r') (hr : r'.Representable) :
    r.stamp.1 < r'.stamp.1 := by
  rw [Reading.stamp, Reading.stamp, tai64n_bytes, tai64n_bytes]
  rw [Reading.Representable] at hr
  rcases h with hsecs | ⟨hsecs, hnanos⟩
  · refine append_lt_append ?_ (by simp) _ _
    rw [UInt64.lt_iff_toNat_lt] at hsecs
    refine beBytes_lt ?_ ?_
    · rw [UInt64.toNat_add, UInt64.toNat_add]
      have hbase : (0x400000000000000a : UInt64).toNat = 0x400000000000000a := rfl
      rw [hbase]
      omega
    · exact (0x400000000000000a + r'.secs).toNat_lt
  · rw [hsecs]
    exact List.append_left_lt (beBytes_lt (UInt32.lt_iff_toNat_lt.mp hnanos) r'.nanos.toNat_lt)

/-! ## The log of a run -/

/-- An initiation that was sent, with its stamp. It is the first of its
handshake or a retry. -/
structure StampedSend where
  stamp : Arr 12
  bytes : Bytes
  first : Bool

section Log

variable (H : Host) (n : Key)

/-- The clock is read when a PONG starts a handshake. -/
def reading? (s : NodeState) (ev : Input) : Option Reading :=
  match outcome H s ev with
  | .pong _ env sender src =>
      (startTarget s.lp.targets s.st sender src).map fun _ => ⟨env.unixSecs, env.unixNanos⟩
  | _ => none

/-- The readings of a run, in order. -/
def readings : NodeState → List Input → List Reading
  | _, [] => []
  | s, ev :: evs => (reading? H s ev).toList ++ readings (H.step s ev).1 evs

/-- Everything a run sends for a slot, in order. -/
def sentFor : NodeState → List Input → List Datagram
  | _, [] => []
  | s, ev :: evs => slotSends H s ev n ++ sentFor (H.step s ev).1 evs

/-- What a step adds to the log: a first send has the stamp of the step's
reading, a retry the one of the message it repeats. -/
def logged (s : NodeState) (ev : Input) (log : List StampedSend) : List StampedSend :=
  match reading? H s ev, log.getLast? with
  | some r, _ => (slotSends H s ev n).map fun d => ⟨r.stamp, d.bytes, true⟩
  | none, some last => (slotSends H s ev n).map fun d => ⟨last.stamp, d.bytes, false⟩
  | none, none => (slotSends H s ev n).map fun d => ⟨Arr.zero 12, d.bytes, false⟩

def sentLog : NodeState → List StampedSend → List Input → List StampedSend
  | _, log, [] => log
  | s, log, ev :: evs => sentLog (H.step s ev).1 (log ++ logged H n s ev log) evs

/-- The message was built for the peer with the stamp. -/
def BuiltWith (x : StampedSend) : Prop :=
  ∃ index eph, x.bytes = (buildInitiation H.crypto H.identity.nodePriv H.identity.nodePub n
    x.stamp index eph).1.1

/-- A log in which stamps never go back, a first send is beyond everything
before it, and a retry is the message before it again. -/
structure InOrder (log : List StampedSend) : Prop where
  stamps : log.Pairwise fun a b => a.stamp = b.stamp ∨ a.stamp.1 < b.stamp.1
  first : log.Pairwise fun a b => b.first = true → a.stamp.1 < b.stamp.1
  retry : ∀ past x rest, log = past ++ x :: rest → x.first = false →
    ∃ y, past.getLast? = some y ∧ y.stamp = x.stamp ∧ y.bytes = x.bytes

end Log

section Log

variable {H : Host} {n : Key} {s : NodeState} {ev : Input} {log : List StampedSend}

theorem InOrder.nil : InOrder [] where
  stamps := List.Pairwise.nil
  first := List.Pairwise.nil
  retry past x rest h := by
    cases past with
    | nil => cases h
    | cons y past => cases h

/-- One more message: where it stands last, the rest is as before. -/
theorem retry_snoc {x : StampedSend}
    (h : ∀ past x rest, log = past ++ x :: rest → x.first = false →
      ∃ y, past.getLast? = some y ∧ y.stamp = x.stamp ∧ y.bytes = x.bytes)
    (hx : x.first = false → ∃ y, log.getLast? = some y ∧ y.stamp = x.stamp ∧ y.bytes = x.bytes) :
    ∀ past z rest, log ++ [x] = past ++ z :: rest → z.first = false →
      ∃ y, past.getLast? = some y ∧ y.stamp = z.stamp ∧ y.bytes = z.bytes := by
  intro past z rest heq hz
  rcases List.eq_nil_or_concat rest with hnil | ⟨rest', w, hrest⟩
  · rw [hnil] at heq
    obtain ⟨hlog, hxz⟩ := List.append_inj' heq rfl
    cases hxz
    rw [← hlog]
    exact hx hz
  · rw [hrest, List.concat_eq_append, ← List.cons_append, ← List.append_assoc] at heq
    obtain ⟨hlog, -⟩ := List.append_inj' heq rfl
    exact h past z rest' hlog hz

/-- The log can go on with a first send beyond everything in it. -/
theorem InOrder.snoc_first (h : InOrder log) {x : StampedSend} (hfirst : x.first = true)
    (hall : ∀ y ∈ log, y.stamp.1 < x.stamp.1) : InOrder (log ++ [x]) where
  stamps := by
    refine List.pairwise_append.mpr ⟨h.stamps, List.pairwise_singleton _ _, fun y hy z hz => ?_⟩
    rw [List.mem_singleton.mp hz]
    exact .inr (hall y hy)
  first := by
    refine List.pairwise_append.mpr ⟨h.first, List.pairwise_singleton _ _, fun y hy z hz _ => ?_⟩
    rw [List.mem_singleton.mp hz]
    exact hall y hy
  retry := retry_snoc h.retry fun hretry => by rw [hfirst] at hretry; cases hretry

/-- Nothing in the log is beyond its last message. -/
theorem InOrder.le_last (h : InOrder log) {y : StampedSend} (hlast : log.getLast? = some y) :
    ∀ z ∈ log, z.stamp = y.stamp ∨ z.stamp.1 < y.stamp.1 := by
  obtain ⟨past, rfl⟩ := List.getLast?_eq_some_iff.mp hlast
  intro z hz
  rcases List.mem_append.mp hz with hz | hz
  · exact (List.pairwise_append.mp h.stamps).2.2 z hz y (List.mem_singleton.mpr rfl)
  · exact .inl (by rw [List.mem_singleton.mp hz])

/-- It can go on with its last message again. -/
theorem InOrder.snoc_retry (h : InOrder log) {x y : StampedSend} (hretry : x.first = false)
    (hlast : log.getLast? = some y) (hstamp : y.stamp = x.stamp) (hbytes : y.bytes = x.bytes) :
    InOrder (log ++ [x]) where
  stamps := by
    refine List.pairwise_append.mpr ⟨h.stamps, List.pairwise_singleton _ _, fun z hz w hw => ?_⟩
    rw [List.mem_singleton.mp hw, ← hstamp]
    exact h.le_last hlast z hz
  first := by
    refine List.pairwise_append.mpr
      ⟨h.first, List.pairwise_singleton _ _, fun z _ w hw hfirst => ?_⟩
    rw [List.mem_singleton.mp hw, hretry] at hfirst
    cases hfirst
  retry := retry_snoc h.retry fun _ => ⟨y, hlast, hstamp, hbytes⟩

/-! ## One step -/

/-- What a step does for a slot: it sends nothing and keeps or drops what is
in the slot, or it sends a new handshake's message and puts that there, or
it resends what is there. -/
inductive SlotStep (H : Host) (n : Key) (s : NodeState) (ev : Input) : Prop
  | silent (hsends : slotSends H s ev n = [])
      (hslot : ∀ p', (H.step s ev).1.st.pending.get? n = some p' →
        ∃ p, s.st.pending.get? n = some p ∧ p'.init = p.init)
  | first {r : Reading} {d : Datagram} {index : UInt32} {eph : Key}
      (hread : reading? H s ev = some r) (hsends : slotSends H s ev n = [d])
      (hbytes : d.bytes = (buildInitiation H.crypto H.identity.nodePriv H.identity.nodePub n
        r.stamp index eph).1.1)
      (hslot : ∀ p', (H.step s ev).1.st.pending.get? n = some p' → p'.init.1 = d.bytes)
  | retry {p : Pending} {d : Datagram} (hread : reading? H s ev = none)
      (hp : s.st.pending.get? n = some p) (hsends : slotSends H s ev n = [d])
      (hbytes : d.bytes = p.init.1)
      (hslot : ∀ p', (H.step s ev).1.st.pending.get? n = some p' → p'.init = p.init)

theorem slotStep_pong {tick : UInt32} {env : Draws} {sender : Key} {src : SocketAddr}
    (ho : outcome H s ev = .pong tick env sender src) : SlotStep H n s ev := by
  obtain ⟨-, -, -, hpend, -⟩ := step_pong ho
  cases hstart : startTarget s.lp.targets s.st sender src with
  | none =>
      simp only [hstart] at hpend
      refine .silent ?_ fun p' hp' => ⟨p', hpend ▸ hp', rfl⟩
      rw [slotSends, ho]
      simp only [hstart]
  | some t =>
      simp only [hstart] at hpend
      have hsends : slotSends H s ev n =
          if t.nodePub = n then [⟨src, (opening H env tick t.nodePub src).init.1⟩] else [] := by
        rw [slotSends, ho]
        simp only [hstart]
      by_cases hn : t.nodePub = n
      · subst hn
        have hfree := Table.get?_eq_none_iff.mpr (startTarget_some.mp hstart).slot
        have hbytes : (opening H env tick t.nodePub src).init.1 =
            (buildInitiation H.crypto H.identity.nodePriv H.identity.nodePub t.nodePub
              (Reading.stamp ⟨env.unixSecs, env.unixNanos⟩) env.index env.ephemeral).1.1 := rfl
        refine .first ?_ (hsends.trans (if_pos rfl)) hbytes fun p' hp' => ?_
        · rw [reading?, ho]
          simp only [hstart, Option.map_some]
        · rw [hpend] at hp'
          split at hp'
          · rw [Table.get?_insert, if_pos rfl] at hp'
            rw [← Option.some.inj hp']
          · rw [hfree] at hp'
            cases hp'
      · refine .silent (hsends.trans (if_neg hn)) fun p' hp' => ⟨p', ?_, rfl⟩
        rw [hpend] at hp'
        split at hp'
        · rwa [Table.get?_insert, if_neg (Ne.symm hn)] at hp'
        · exact hp'

theorem slotStep_retry {tick : UInt32} (ho : outcome H s ev = .retry tick) :
    SlotStep H n s ev := by
  obtain ⟨⟨hpend, -, -⟩, -⟩ := step_retry ho
  have hget : (H.step s ev).1.st.pending.get? n =
      (s.st.pending.get? n).bind fun p => (retryPending s.st.tunnels tick p).1 := by
    rw [hpend, get?_retryAll]
  have hsends : slotSends H s ev n =
      ((s.st.pending.get? n).map fun p => (retryPending s.st.tunnels tick p).2).getD [] := by
    rw [slotSends, ho]
  cases hp : s.st.pending.get? n with
  | none =>
      rw [hp] at hget hsends
      refine .silent hsends fun p' hp' => ?_
      rw [hget] at hp'
      cases hp'
  | some p =>
      rw [hp, Option.bind_some] at hget
      rw [hp, Option.map_some, Option.getD_some] at hsends
      rcases retryPending_cases s.st.tunnels tick p with hdrop | hkeep | ⟨-, hsend⟩
      · rw [hdrop] at hget hsends
        refine .silent hsends fun p' hp' => ?_
        rw [hget] at hp'
        cases hp'
      · rw [hkeep] at hget hsends
        refine .silent hsends fun p' hp' => ⟨p, hp, ?_⟩
        rw [← Option.some.inj (hget.symm.trans hp')]
      · rw [hsend] at hget hsends
        refine .retry ?_ hp hsends rfl fun p' hp' => ?_
        · rw [reading?, ho]
        · rw [← Option.some.inj (hget.symm.trans hp')]

theorem slotStep (H : Host) (n : Key) (s : NodeState) (ev : Input) : SlotStep H n s ev := by
  have herase : ∀ key p', (s.st.pending.erase key).get? n = some p' →
      ∃ p, s.st.pending.get? n = some p ∧ p'.init = p.init := by
    intro key p' hp'
    rw [Table.get?_erase] at hp'
    split at hp'
    · cases hp'
    · exact ⟨p', hp', rfl⟩
  cases ho : outcome H s ev with
  | pong tick env sender src => exact slotStep_pong ho
  | retry tick => exact slotStep_retry ho
  | quiet =>
      refine .silent (by rw [slotSends, ho]) fun p' hp' => ?_
      rw [(step_quiet ho).steady.pending] at hp'
      exact ⟨p', hp', rfl⟩
  | answer i resp tun peer src =>
      refine .silent (by rw [slotSends, ho]) fun p' hp' => ?_
      rw [(step_answer ho).2] at hp'
      exact ⟨p', hp', rfl⟩
  | complete key p tun src =>
      refine .silent (by rw [slotSends, ho]) fun p' hp' => ?_
      rw [(step_complete ho).2] at hp'
      exact herase key p' hp'
  | refuse key =>
      refine .silent (by rw [slotSends, ho]) fun p' hp' => ?_
      rw [(step_refuse ho).2] at hp'
      exact herase key p' hp'

/-! ## Runs -/

/-- What is in a slot was the last that was sent for it. -/
structure LogOk (H : Host) (n : Key) (s : NodeState) (log : List StampedSend) : Prop where
  order : InOrder log
  stamped : ∀ x ∈ log, BuiltWith H n x
  slot : ∀ p, s.st.pending.get? n = some p → ∃ y, log.getLast? = some y ∧ y.bytes = p.init.1

theorem logOk_step (h : LogOk H n s log)
    (hclock : ∀ r, reading? H s ev = some r → ∀ x ∈ log, x.stamp.1 < r.stamp.1) :
    LogOk H n (H.step s ev).1 (log ++ logged H n s ev log) := by
  cases slotStep H n s ev with
  | silent hsends hslot =>
      have hnone : logged H n s ev log = [] := by
        rw [logged, hsends]
        split
        · rfl
        · rfl
        · rfl
      rw [hnone, List.append_nil]
      refine ⟨h.order, h.stamped, fun p' hp' => ?_⟩
      obtain ⟨p, hp, hinit⟩ := hslot p' hp'
      rw [hinit]
      exact h.slot p hp
  | @first r d index eph hread hsends hbytes hslot =>
      have hone : logged H n s ev log = [⟨r.stamp, d.bytes, true⟩] := by
        simp only [logged, hread, hsends, List.map_cons, List.map_nil]
      rw [hone]
      refine ⟨h.order.snoc_first rfl (hclock r hread), fun x hx => ?_, fun p' hp' => ?_⟩
      · rcases List.mem_append.mp hx with hx | hx
        · exact h.stamped x hx
        · rw [List.mem_singleton.mp hx]
          exact ⟨index, eph, hbytes⟩
      · exact ⟨_, List.getLast?_concat, (hslot p' hp').symm⟩
  | @retry p d hread hp hsends hbytes hslot =>
      obtain ⟨y, hlast, hy⟩ := h.slot p hp
      have hone : logged H n s ev log = [⟨y.stamp, d.bytes, false⟩] := by
        simp only [logged, hread, hlast, hsends, List.map_cons, List.map_nil]
      have hsame : y.bytes = d.bytes := hy.trans hbytes.symm
      rw [hone]
      refine ⟨h.order.snoc_retry rfl hlast rfl hsame, fun x hx => ?_, fun p' hp' => ?_⟩
      · rcases List.mem_append.mp hx with hx | hx
        · exact h.stamped x hx
        · rw [List.mem_singleton.mp hx]
          obtain ⟨index, eph, hbuilt⟩ := h.stamped y (List.mem_of_getLast? hlast)
          exact ⟨index, eph, hsame.symm.trans hbuilt⟩
      · refine ⟨_, List.getLast?_concat, ?_⟩
        rw [hslot p' hp']
        exact hbytes

/-- A step's stamps are its reading's or the log's. -/
theorem logged_stamp (h : LogOk H n s log) {x : StampedSend} (hx : x ∈ logged H n s ev log) :
    (∃ r, reading? H s ev = some r ∧ x.stamp = r.stamp) ∨ ∃ y ∈ log, x.stamp = y.stamp := by
  rw [logged] at hx
  split at hx
  · next r hread =>
      obtain ⟨d, -, rfl⟩ := List.mem_map.mp hx
      exact .inl ⟨r, hread, rfl⟩
  · next y hread hlast =>
      obtain ⟨d, -, rfl⟩ := List.mem_map.mp hx
      exact .inr ⟨y, List.mem_of_getLast? hlast, rfl⟩
  · next hread hlast =>
      -- a retry without anything before it: the slot would be empty
      obtain ⟨d, hd, -⟩ := List.mem_map.mp hx
      cases slotStep H n s ev with
      | silent hsends hslot =>
          rw [hsends] at hd
          cases hd
      | @first r d' index eph hread' hsends hbytes hslot =>
          rw [hread] at hread'
          cases hread'
      | @retry p d' hread' hp hsends hbytes hslot =>
          obtain ⟨y, hlast', -⟩ := h.slot p hp
          rw [hlast] at hlast'
          cases hlast'

theorem logOk_run {t : NodeState} {evs : List Input} (hrun : Run H.Steps s evs t)
    (h : LogOk H n s log) (hclock : (readings H s evs).Pairwise Reading.Before)
    (hrep : ∀ r ∈ readings H s evs, r.Representable)
    (hpast : ∀ x ∈ log, ∀ r ∈ readings H s evs, x.stamp.1 < r.stamp.1) :
    LogOk H n t (sentLog H n s log evs) := by
  induction hrun generalizing log with
  | nil => exact h
  | @cons s t u ev evs hstep _ ih =>
      rw [Host.Steps] at hstep
      subst hstep
      rw [readings] at hclock hrep hpast
      obtain ⟨-, hrest, hahead⟩ := List.pairwise_append.mp hclock
      have hmem : ∀ r, reading? H s ev = some r → r ∈ (reading? H s ev).toList := by
        intro r hr
        rw [hr]
        exact List.mem_singleton.mpr rfl
      rw [sentLog]
      apply ih
      · apply logOk_step h
        intro r hr x hx
        exact hpast x hx r (List.mem_append_left _ (hmem r hr))
      · exact hrest
      · intro r hr
        exact hrep r (List.mem_append_right _ hr)
      · intro x hx r hr
        have hlater := hrep r (List.mem_append_right _ hr)
        rcases List.mem_append.mp hx with hx | hx
        · exact hpast x hx r (List.mem_append_right _ hr)
        · rcases logged_stamp h hx with ⟨r', hr', hstamp⟩ | ⟨y, hy, hstamp⟩
          · rw [hstamp]
            exact stamp_lt (hahead r' (hmem r' hr') r hr) hlater
          · rw [hstamp]
            exact hpast y hy r (List.mem_append_right _ hr)

theorem bytes_logged : (logged H n s ev log).map StampedSend.bytes =
    (slotSends H s ev n).map Datagram.bytes := by
  rw [logged]
  split
  · rw [List.map_map]
    rfl
  · rw [List.map_map]
    rfl
  · rw [List.map_map]
    rfl

/-- The log is what was sent. -/
theorem bytes_sentLog (evs : List Input) : (sentLog H n s log evs).map StampedSend.bytes =
    log.map StampedSend.bytes ++ (sentFor H n s evs).map Datagram.bytes := by
  induction evs generalizing s log with
  | nil => rw [sentLog, sentFor, List.map_nil, List.append_nil]
  | cons ev evs ih =>
      rw [sentLog, ih, sentFor, List.map_append, List.map_append, bytes_logged,
        List.append_assoc]

end Log

/-- On a clock that moves forward, the initiations sent to a peer never go
back in their stamps: a new handshake's is beyond all before it, and a retry
is the message before it again. -/
theorem initiation_stamps_in_order (H : Host) (s₀ s : NodeState) (evs : List Input) (n : Key)
    (hfresh : Fresh s₀) (hrun : Run H.Steps s₀ evs s)
    (hclock : (readings H s₀ evs).Pairwise Reading.Before)
    (hrep : ∀ r ∈ readings H s₀ evs, r.Representable) :
    InOrder (sentLog H n s₀ [] evs) ∧
    (∀ x ∈ sentLog H n s₀ [] evs, BuiltWith H n x) ∧
    (sentLog H n s₀ [] evs).map StampedSend.bytes = (sentFor H n s₀ evs).map Datagram.bytes ∧
    ∀ ev, ∃ keys : List Key, keys.Nodup ∧
      initiations (H.step s ev).2 = keys.flatMap (slotSends H s ev) ∧
      ∀ k, k ∉ keys → slotSends H s ev k = [] := by
  have hstart : LogOk H n s₀ [] := by
    refine ⟨InOrder.nil, fun x hx => absurd hx List.not_mem_nil, fun p hp => ?_⟩
    rw [hfresh.pending, Table.get?_empty] at hp
    cases hp
  have hlog := logOk_run hrun hstart hclock hrep fun x hx => absurd hx List.not_mem_nil
  exact ⟨hlog.order, hlog.stamped, bytes_sentLog evs, fun ev =>
    initiations_eq (tablesOk_run hfresh hrun)⟩

/-! ## A retry -/

/-- Periodic work with nothing to do but the retries. -/
def idle (tick : UInt32) : Input :=
  .periodic tick
    { now := 0, incoming := [], txid := fun _ => Arr.zero 12, nonce := fun _ => Arr.zero 24
      sprayTail := fun _ _ => [], sendOk := fun _ => true, clientRand := 0
      stunTxid := Arr.zero 12 } none

/-- A handshake starts, and nobody answers in time. -/
def unanswered : List Input := [arrives (pongOf 5) 5 9, idle 4]

theorem unanswered_log :
    readings solo soloStart unanswered = [⟨0, 0⟩] ∧
    (sentLog solo (byteKey 5) soloStart [] unanswered).map StampedSend.first = [true, false] := by
  decide +kernel

theorem unanswered_clock :
    (readings solo soloStart unanswered).Pairwise Reading.Before ∧
    ∀ r ∈ readings solo soloStart unanswered, r.Representable := by
  rw [unanswered_log.1]
  refine ⟨List.pairwise_singleton _ _, fun r hr => ?_⟩
  rw [List.mem_singleton.mp hr, Reading.Representable]
  decide

/-- The retry has the stamp of the first send. -/
theorem retry_repeats_stamp :
    Fresh soloStart ∧ (∃ s, Run solo.Steps soloStart unanswered s) ∧
    (readings solo soloStart unanswered).Pairwise Reading.Before ∧
    (∀ r ∈ readings solo soloStart unanswered, r.Representable) ∧
    ¬(sentLog solo (byteKey 5) soloStart [] unanswered).Pairwise
      fun a b => a.stamp.1 < b.stamp.1 := by
  have hrun := solo.run_after soloStart unanswered
  obtain ⟨hclock, hrep⟩ := unanswered_clock
  refine ⟨solo_fresh, ⟨_, hrun⟩, hclock, hrep, fun hstrict => ?_⟩
  have hstart : LogOk solo (byteKey 5) soloStart [] :=
    ⟨InOrder.nil, fun x hx => absurd hx List.not_mem_nil, fun p hp => by cases hp⟩
  have hlog := (logOk_run hrun hstart hclock hrep fun x hx => absurd hx List.not_mem_nil).order
  obtain ⟨x, rest, hlist, -, hrest⟩ := List.map_eq_cons_iff.mp unanswered_log.2
  obtain ⟨y, tail, hlist', hy, htail⟩ := List.map_eq_cons_iff.mp hrest
  rw [List.map_eq_nil_iff.mp htail] at hlist'
  rw [hlist, hlist'] at hstrict hlog
  obtain ⟨z, hz, hstamp, -⟩ := hlog.retry [x] y [] rfl hy
  have hxz : x = z := Option.some.inj hz
  have hlt := List.rel_of_pairwise_cons hstrict (List.mem_singleton.mpr rfl)
  rw [hxz, hstamp] at hlt
  exact absurd hlt (List.lt_irrefl _)

/-! ## Two handshakes -/

/-- A minute later there is another PONG. -/
private def laterPong : Input :=
  .packet 8 (pongOf 5) (lanAddr 5)
    { zeroDraws with index := 10, ephemeral := byteKey 11, unixSecs := 60, unixNanos := 5 }

/-- What is no response puts an end to the first handshake; the second is
sent again as well. -/
private def startedTwice : List Input :=
  unanswered ++ [arrives [2, 0, 0, 0, 0, 0, 0, 0, 9, 0, 0, 0] 66 3, laterPong, idle 12]

private theorem startedTwice_readings :
    readings solo soloStart startedTwice = [⟨0, 0⟩, ⟨60, 5⟩] := by decide +kernel

theorem initiation_stamps_in_order_solo :
    InOrder (sentLog solo (byteKey 5) soloStart [] startedTwice) ∧
    (sentLog solo (byteKey 5) soloStart [] startedTwice).map StampedSend.first =
      [true, false, true, false] := by
  refine ⟨(initiation_stamps_in_order solo soloStart _ startedTwice (byteKey 5) solo_fresh
    (solo.run_after soloStart startedTwice) ?_ ?_).1, by decide +kernel⟩
  · rw [startedTwice_readings]
    exact List.pairwise_pair.mpr (.inl (by decide))
  · rw [startedTwice_readings]
    intro r hr
    rw [Reading.Representable]
    rcases List.mem_pair.mp hr with rfl | rfl <;> decide

end TailscaleRust.Proofs
