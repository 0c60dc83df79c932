import TailscaleRust.Firmware.Dualcore
import TailscaleRust.Lib.Run
import TailscaleRust.Proofs.FastPath

/-!
# The dual-core plane refines the sequential one

Step by step the two planes leave the same state behind and send the same
datagrams: a transport packet takes effect at its commit, as if it had been
looked up, decrypted and handled there. The only thing a worker carries across
the gap is a key, and as long as an index keeps meaning the same tunnel the
key is the one a fresh lookup would find. If the tunnel is gone by then,
neither plane does anything.

The datagrams in the workers' hands are distinct and none of them has acted
yet, so no datagram can act twice.
-/

namespace TailscaleRust.Proofs

open TailscaleRust.Lib TailscaleRust.Core TailscaleRust.Core.Wg
open TailscaleRust.Firmware TailscaleRust.Firmware.Dataplane

/-- Every tunnel in the table has the key its index belongs to. A run whose
states all respect one `owner` never gives an index to another tunnel. -/
def Respects (owner : UInt32 → Key) (st : State) : Prop :=
  ∀ i e, st.tunnels.get? i = some e → e.tun.recvKey = owner i

/-! ## The simulation -/

/-- A worker's position and what the sequential plane has in its hand. -/
inductive Matches (P : Plane) (owner : UInt32 → Key) : Work → Hand → Prop
  | idle : Matches P owner .idle .empty
  | got (n : Nat) : Matches P owner (.got n) (.unread n)
  | holding {n : Nat} {key : Key} (hfast : isFast (P.datagram n).1)
      (hkey : key = owner (u32le (P.datagram n).1 4)) :
      Matches P owner (.holding n key)
        (.read n (decryptTransport P.crypto key (P.datagram n).1).isSome)

structure Simulates (P : Plane) {W : Type} (owner : UInt32 → Key) (d : Dual W)
    (s : Sequential W) : Prop where
  shared : s.shared = d.shared
  received : s.received = d.received
  hands : ∀ w, Matches P owner (d.work w) (s.hand w)

section Simulation

variable {P : Plane} {W : Type} {owner : UInt32 → Key} {d d' : Dual W} {s : Sequential W}

theorem simulates_start (sh : Shared) :
    Simulates P owner (Dual.start W sh) (Sequential.start W sh) :=
  ⟨rfl, rfl, fun _ => .idle⟩

/-- A commit with the key a fresh lookup would find is the atomic step. -/
theorem decrypted_eq_sequential {sh : Shared} {n : Nat} {inner : Bytes} (env : Draws)
    (hres : Respects owner sh.st) (hfast : isFast (P.datagram n).1)
    (hdec : decryptTransport P.crypto (owner (u32le (P.datagram n).1 4)) (P.datagram n).1 =
      some inner) :
    sh.decrypted P n inner env = sh.sequential P (.transport n env) := by
  have hstep : handleWgTransport P.crypto P.features env P.identity sh.st
        (P.datagram n).1 (P.datagram n).2 =
      handleDecrypted P.crypto P.features env P.identity sh.st
        (u32le (P.datagram n).1 4) inner (P.datagram n).2 := by
    rw [handleWgTransport_eq _ _ _ _ _ _ _ hfast.2]
    cases he : sh.st.tunnels.get? (u32le (P.datagram n).1 4) with
    | none =>
        rw [handleDecrypted, he]
        rfl
    | some e =>
        rw [Option.bind_some, hres _ e he, hdec]
  simp only [Shared.decrypted, Shared.sequential, hstep]

variable [DecidableEq W]

/-- The worker whose turn it is, in both planes, and the others as they were. -/
theorem hands_set (h : ∀ v, Matches P owner (d.work v) (s.hand v)) {w : W} {x : Work} {y : Hand}
    (hxy : Matches P owner x y) :
    ∀ v, Matches P owner ((d.setWork w x).work v) ((s.setHand w y).hand v) := by
  intro v
  simp only [Dual.setWork, Sequential.setHand]
  split
  · exact hxy
  · exact h v

theorem simulates_recv (h : Simulates P owner d s) {w : W} {out : List Datagram}
    (hs : d.step P (.recv w) = some (d', out)) :
    (s.step P (.recv w)).2 = out ∧ Simulates P owner d' (s.step P (.recv w)).1 := by
  rw [Dual.step] at hs
  split at hs
  · cases hs
    refine ⟨rfl, h.shared, congrArg (· + 1) h.received, ?_⟩
    show ∀ v, Matches P owner _
      (({ s with received := s.received + 1 }.setHand w (.unread s.received)).hand v)
    rw [h.received]
    exact hands_set (d := { d with received := d.received + 1 })
      (s := { s with received := d.received + 1 }) h.hands (.got d.received)
  · cases hs

theorem simulates_lock (hres : Respects owner d.shared.st) (h : Simulates P owner d s) {w : W}
    {env : Draws} {out : List Datagram} (hs : d.step P (.lock w env) = some (d', out)) :
    (s.step P (.lock w env)).2 = out ∧ Simulates P owner d' (s.step P (.lock w env)).1 := by
  rw [Dual.step] at hs
  split at hs
  · next n hw =>
      have hhand : s.hand w = .unread n := by
        have hmatch := h.hands w
        rw [hw] at hmatch
        generalize s.hand w = x at hmatch ⊢
        cases hmatch
        rfl
      simp only [] at hs
      by_cases hfast : isFast (P.datagram n).1
      · have haction : s.action P (.lock w env) = none := by
          simp only [Sequential.action, hhand, if_pos hfast]
        have hturn : s.turn P (.lock w env) = s.setHand w (s.look P n) := by
          simp only [Sequential.turn, hhand, if_pos hfast]
        rw [if_pos hfast] at hs
        simp only [Sequential.step, haction, hturn, Sequential.look, h.shared]
        cases he : d.shared.st.tunnels.get? (u32le (P.datagram n).1 4) with
        | none =>
            simp only [he] at hs
            cases hs
            exact ⟨rfl, h.shared, h.received, hands_set h.hands .idle⟩
        | some e =>
            simp only [he] at hs
            cases hs
            exact ⟨rfl, h.shared, h.received,
              hands_set h.hands (.holding hfast (hres _ e he))⟩
      · have haction : s.action P (.lock w env) = some (.packet n env) := by
          simp only [Sequential.action, hhand, if_neg hfast]
        have hturn : s.turn P (.lock w env) = s.setHand w .empty := by
          simp only [Sequential.turn, hhand, if_neg hfast]
        rw [if_neg hfast] at hs
        simp only [Sequential.step, haction, hturn, h.shared]
        cases hs
        exact ⟨rfl, rfl, h.received, hands_set (d := { d with shared := _ }) h.hands .idle⟩
  · cases hs

theorem simulates_commit (hres : Respects owner d.shared.st) (h : Simulates P owner d s) {w : W}
    {env : Draws} {out : List Datagram} (hs : d.step P (.commit w env) = some (d', out)) :
    (s.step P (.commit w env)).2 = out ∧ Simulates P owner d' (s.step P (.commit w env)).1 := by
  rw [Dual.step] at hs
  split at hs
  · next n key hw =>
      have hmatch := h.hands w
      rw [hw] at hmatch
      generalize hhand : s.hand w = x at hmatch
      cases hmatch with
      | holding hfast hkey =>
          cases hdec : decryptTransport P.crypto key (P.datagram n).1 with
          | none =>
              have haction : s.action P (.commit w env) = none := by
                simp only [Sequential.action, hhand, hdec, Option.isSome_none]
              simp only [hdec] at hs
              simp only [Sequential.step, haction, Sequential.turn]
              cases hs
              exact ⟨rfl, h.shared, h.received, hands_set h.hands .idle⟩
          | some inner =>
              have haction : s.action P (.commit w env) = some (.transport n env) := by
                simp only [Sequential.action, hhand, hdec, Option.isSome_some]
              have hopen := hdec
              rw [hkey] at hopen
              have heq := decrypted_eq_sequential env hres hfast hopen
              simp only [hdec, heq] at hs
              simp only [Sequential.step, haction, Sequential.turn, h.shared]
              cases hs
              exact ⟨rfl, rfl, h.received, hands_set (d := { d with shared := _ }) h.hands .idle⟩
  · cases hs

/-- One step of the machine is one of the sequential plane. -/
theorem simulates_step (hres : Respects owner d.shared.st) (h : Simulates P owner d s)
    {ev : Event W} {out : List Datagram} (hs : d.step P ev = some (d', out)) :
    (s.step P ev).2 = out ∧ Simulates P owner d' (s.step P ev).1 := by
  cases ev with
  | recv w => exact simulates_recv h hs
  | lock w env => exact simulates_lock hres h hs
  | commit w env => exact simulates_commit hres h hs
  | periodic tick hk =>
      cases hs
      simp only [Sequential.step, Sequential.action, Sequential.turn, h.shared]
      exact ⟨rfl, rfl, h.received, h.hands⟩
  | drain payloads =>
      cases hs
      simp only [Sequential.step, Sequential.action, Sequential.turn, h.shared]
      exact ⟨rfl, rfl, h.received, h.hands⟩

/-- The machine can take an event when it is the worker's turn for it. -/
theorem ready_of_simulates (h : Simulates P owner d s) (ev : Event W) :
    (d.step P ev).isSome = s.ready ev := by
  have hready : ∀ w, ∀ {x y}, Matches P owner x y → d.work w = x → s.hand w = y →
      (d.step P (.recv w)).isSome = s.ready (.recv w) ∧
      (∀ env, (d.step P (.lock w env)).isSome = s.ready (.lock w env)) ∧
      ∀ env, (d.step P (.commit w env)).isSome = s.ready (.commit w env) := by
    intro w x y hmatch hx hy
    simp only [Dual.step, Sequential.ready, hx, hy]
    cases hmatch with
    | idle => exact ⟨rfl, fun _ => rfl, fun _ => rfl⟩
    | got n =>
        refine ⟨rfl, fun env => ?_, fun _ => rfl⟩
        simp only []
        split
        · split
          · rfl
          · rfl
        · rfl
    | holding hfast hkey =>
        refine ⟨rfl, fun _ => rfl, fun env => ?_⟩
        simp only []
        split
        · rfl
        · rfl
  cases ev with
  | recv w => exact (hready w (h.hands w) rfl rfl).1
  | lock w env => exact (hready w (h.hands w) rfl rfl).2.1 env
  | commit w env => exact (hready w (h.hands w) rfl rfl).2.2 env
  | periodic tick hk => rfl
  | drain payloads => rfl

theorem simulates_run {evs : List (Event W)} (h : Simulates P owner d s)
    (hrun : Run (Guarded (fun d _ => Respects owner d.shared.st) (Dual.Steps P)) d evs d') :
    d.trace P evs = s.trace P evs ∧ Simulates P owner d' (s.after P evs) := by
  induction hrun generalizing s with
  | nil => exact ⟨rfl, h⟩
  | @cons d d₁ d' ev evs hstep _ ih =>
      obtain ⟨hres, hmap⟩ := hstep
      obtain ⟨⟨d₂, out⟩, hs, rfl⟩ := Option.map_eq_some_iff.mp hmap
      obtain ⟨hout, hnext⟩ := simulates_step hres h hs
      obtain ⟨htrace, hlast⟩ := ih hnext
      refine ⟨?_, hlast⟩
      rw [Dual.trace, hs, Sequential.trace, hout, hnext.shared]
      exact congrArg _ htrace

end Simulation

/-! ## No datagram acts twice -/

/-- What is in the hands is distinct and has not acted. -/
structure Accounted {W : Type} (s : Sequential W) (done : List Nat) : Prop where
  handled : done.Nodup
  old : ∀ n ∈ done, n < s.received
  fresh : ∀ w n, (s.hand w).datagram? = some n → n < s.received ∧ n ∉ done
  distinct : ∀ v w n, (s.hand v).datagram? = some n → (s.hand w).datagram? = some n → v = w

section Accounting

variable {P : Plane} {W : Type} {s : Sequential W} {w : W} {done : List Nat}

theorem accounted_start (sh : Shared) : Accounted (Sequential.start W sh) [] where
  handled := List.nodup_nil
  old n h := by cases h
  fresh w n h := by cases h
  distinct v w n h := by cases h

/-- The shared state does not matter. -/
theorem accounted_shared {sh : Shared} (h : Accounted s done) :
    Accounted { s with shared := sh } done :=
  ⟨h.handled, h.old, h.fresh, h.distinct⟩

theorem datagram?_look (n m : Nat) (h : (s.look P n).datagram? = some m) : n = m := by
  rw [Sequential.look] at h
  split at h
  · cases h
  · cases h
    rfl

variable [DecidableEq W]

theorem datagram?_setHand (v : W) (x : Hand) :
    ((s.setHand w x).hand v).datagram? =
      if v = w then x.datagram? else (s.hand v).datagram? := by
  simp only [Sequential.setHand]
  split <;> rfl

/-- A worker takes the next datagram off the socket. -/
theorem accounted_recv (h : Accounted s done) :
    Accounted ({ s with received := s.received + 1 }.setHand w (.unread s.received)) done where
  handled := h.handled
  old n hn := Nat.lt_succ_of_lt (h.old n hn)
  fresh v n hv := by
    rw [datagram?_setHand] at hv
    split at hv
    · cases hv
      exact ⟨Nat.lt_succ_self _, fun hmem => Nat.lt_irrefl _ (h.old _ hmem)⟩
    · exact ⟨Nat.lt_succ_of_lt (h.fresh v n hv).1, (h.fresh v n hv).2⟩
  distinct v u n hv hu := by
    rw [datagram?_setHand] at hv hu
    split at hv
    · next hvw =>
        split at hu
        · next huw => exact hvw.trans huw.symm
        · cases hv
          exact absurd (h.fresh u _ hu).1 (Nat.lt_irrefl _)
    · split at hu
      · cases hu
        exact absurd (h.fresh v _ hv).1 (Nat.lt_irrefl _)
      · exact h.distinct v u n hv hu

/-- A worker keeps its datagram, or lets go of it. -/
theorem accounted_setHand {x : Hand}
    (hx : ∀ n, x.datagram? = some n → (s.hand w).datagram? = some n) (h : Accounted s done) :
    Accounted (s.setHand w x) done := by
  have hheld : ∀ v n, ((s.setHand w x).hand v).datagram? = some n →
      (s.hand v).datagram? = some n := by
    intro v n hv
    rw [datagram?_setHand] at hv
    split at hv
    · next hvw => exact hvw ▸ hx n hv
    · exact hv
  exact
    { handled := h.handled
      old := h.old
      fresh := fun v n hv => h.fresh v n (hheld v n hv)
      distinct := fun v u n hv hu => h.distinct v u n (hheld v n hv) (hheld u n hu) }

/-- A worker's datagram acts and leaves its hand. -/
theorem accounted_handle {n : Nat} (hw : (s.hand w).datagram? = some n) (h : Accounted s done) :
    Accounted (s.setHand w .empty) (done ++ [n]) := by
  have hnew := h.fresh w n hw
  have hheld : ∀ v m, ((s.setHand w .empty).hand v).datagram? = some m →
      (s.hand v).datagram? = some m ∧ v ≠ w := by
    intro v m hv
    rw [datagram?_setHand] at hv
    split at hv
    · cases hv
    · next hvw => exact ⟨hv, hvw⟩
  refine ⟨?_, ?_, ?_, ?_⟩
  · refine List.nodup_append.mpr ⟨h.handled, List.nodup_singleton n, ?_⟩
    intro a ha b hb hab
    rw [hab, List.mem_singleton.mp hb] at ha
    exact hnew.2 ha
  · intro m hm
    rw [List.mem_append, List.mem_singleton] at hm
    rcases hm with hm | hm
    · exact h.old m hm
    · exact hm ▸ hnew.1
  · intro v m hv
    obtain ⟨hvm, hvw⟩ := hheld v m hv
    refine ⟨(h.fresh v m hvm).1, fun hm => ?_⟩
    rw [List.mem_append, List.mem_singleton] at hm
    rcases hm with hm | hm
    · exact (h.fresh v m hvm).2 hm
    · exact hvw (h.distinct v w n (hm ▸ hvm) hw)
  · intro v u m hv hu
    exact h.distinct v u m (hheld v m hv).1 (hheld u m hu).1

/-- The datagrams that act at an event. -/
def acted (P : Plane) (s : Sequential W) (ev : Event W) : List Nat :=
  (s.action P ev).toList.filterMap Action.datagram?

theorem acted_none {ev : Event W} (h : s.action P ev = none) : acted P s ev = [] := by
  rw [acted, h]
  rfl

theorem accounted_turn (h : Accounted s done) (ev : Event W) :
    Accounted (s.turn P ev) (done ++ acted P s ev) := by
  have hidle : ∀ {x : Sequential W}, acted P s ev = [] → Accounted x done →
      Accounted x (done ++ acted P s ev) := by
    intro x hnone hx
    rwa [hnone, List.append_nil]
  cases ev with
  | recv w => exact hidle rfl (accounted_recv h)
  | lock w env =>
      cases hhand : s.hand w with
      | empty =>
          simp only [Sequential.turn, hhand]
          exact hidle (acted_none (by simp only [Sequential.action, hhand])) h
      | unread n =>
          simp only [Sequential.turn, hhand]
          split
          · next hfast =>
              have hnone : s.action P (.lock w env) = none := by
                simp only [Sequential.action, hhand, if_pos hfast]
              refine hidle (acted_none hnone) (accounted_setHand (fun m hm => ?_) h)
              rw [hhand]
              exact congrArg some (datagram?_look n m hm)
          · next hfast =>
              have hone : acted P s (.lock w env) = [n] := by
                simp only [acted, Sequential.action, hhand, if_neg hfast]
                rfl
              rw [hone]
              exact accounted_handle (by rw [hhand]; rfl) h
      | read n opens =>
          simp only [Sequential.turn, hhand]
          exact hidle (acted_none (by simp only [Sequential.action, hhand])) h
  | commit w env =>
      have hdrop : Accounted (s.setHand w .empty) done :=
        accounted_setHand (fun m hm => by cases hm) h
      cases hhand : s.hand w with
      | empty => exact hidle (acted_none (by simp only [Sequential.action, hhand])) hdrop
      | unread n => exact hidle (acted_none (by simp only [Sequential.action, hhand])) hdrop
      | read n opens =>
          cases opens with
          | true =>
              have hone : acted P s (.commit w env) = [n] := by
                simp only [acted, Sequential.action, hhand]
                rfl
              rw [hone]
              exact accounted_handle (by rw [hhand]; rfl) h
          | false => exact hidle (acted_none (by simp only [Sequential.action, hhand])) hdrop
  | periodic tick hk => exact hidle rfl h
  | drain payloads => exact hidle rfl h

theorem accounted_step (h : Accounted s done) (ev : Event W) :
    Accounted (s.step P ev).1 (done ++ acted P s ev) := by
  rw [Sequential.step]
  split
  · exact accounted_turn h ev
  · exact accounted_shared (accounted_turn h ev)

theorem accounted_run (h : Accounted s done) (evs : List (Event W)) :
    Accounted (s.after P evs) (done ++ (s.actions P evs).filterMap Action.datagram?) := by
  induction evs generalizing s done with
  | nil =>
      rw [Sequential.actions, List.filterMap_nil, List.append_nil]
      exact h
  | cons ev evs ih =>
      rw [Sequential.actions, List.filterMap_append, ← List.append_assoc]
      exact ih (accounted_step h ev)

end Accounting

/-- For every order of the workers' steps in which an index keeps its
tunnel: step by step the states and the datagrams sent are those of the
sequential plane, the machine can go on where the sequential plane can, and no
datagram of the socket acts twice. -/
theorem dualcore_refines_sequential {P : Plane} {W : Type} [DecidableEq W]
    {owner : UInt32 → Key} {sh : Shared} {evs : List (Event W)} {d : Dual W}
    (hrun : Run (Guarded (fun d _ => Respects owner d.shared.st) (Dual.Steps P))
      (Dual.start W sh) evs d) :
    let s := Sequential.start W sh
    (Dual.start W sh).trace P evs = s.trace P evs ∧
    (∀ ev, (d.step P ev).isSome = (s.after P evs).ready ev) ∧
    ((s.actions P evs).filterMap Action.datagram?).Nodup ∧
    ∀ n ∈ (s.actions P evs).filterMap Action.datagram?, n < d.received := by
  intro s
  obtain ⟨htrace, hlast⟩ := simulates_run (simulates_start sh) hrun
  have haccounted := accounted_run (P := P) (accounted_start (W := W) sh) evs
  rw [List.nil_append] at haccounted
  refine ⟨htrace, ready_of_simulates hlast, haccounted.handled, ?_⟩
  rw [← hlast.received]
  exact haccounted.old

theorem respects_of_entries {owner : UInt32 → Key} {st : State}
    (h : (st.tunnels.entries.all fun p => p.2.tun.recvKey = owner p.1) = true) :
    Respects owner st := by
  intro i e he
  have hmem := List.all_eq_true.mp h (i, e) (Table.mem_entries_iff.mpr he)
  simpa using hmem

section Example

/-- Every datagram is the same ping of the peer, from another port each. -/
def twinPlane : Plane where
  crypto := transparent
  features := defaultFeatures
  identity := zeroIdentity
  stunAddr := none
  mdnsOurIp := Arr.zero 4
  mdnsPartnerIp := Arr.zero 4
  mdnsPartnerNode := Arr.zero 32
  datagram n := (((zeroTunnel 7 1).encrypt transparent
    ([0x45, 0, 0, 28, 0, 0, 0, 0, 64, 1, 0, 0, 100, 64, 0, 5, 100, 64, 0, 17]
      ++ [8, 0, 0, 0, 0, 1, 0, 1])).1, .v4 (Arr.zero 4) (UInt16.ofNat n))

def twinShared : Shared where
  st := { State.empty with
    tunnels := Table.empty.insert 7
      ⟨zeroTunnel 1 7, .v4 (Arr.zero 4) 9, Arr.zero 32, Tcp.TcpServer.new⟩ }
  lp := ⟨[], Table.empty, 0, 0, 0⟩
  tick := 0

/-- Both workers copy the key before either commits, and they commit in the
opposite order. -/
def twinEvents : List (Event Bool) :=
  [.recv false, .recv true, .lock false zeroDraws, .lock true zeroDraws,
    .commit true zeroDraws, .commit false zeroDraws]

def zeroOwner (_ : UInt32) : Key := Arr.zero 32

def twinOk (d : Dual Bool) (_ : Event Bool) : Bool :=
  d.shared.st.tunnels.entries.all fun p => p.2.tun.recvKey = zeroOwner p.1

/-- The pings are answered at the commits, the second one first. -/
theorem dualcore_refines_sequential_twin :
    ∃ d, Run (Guarded (fun d _ => Respects zeroOwner d.shared.st) (Dual.Steps twinPlane))
        (Dual.start Bool twinShared) twinEvents d ∧
      ((Dual.start Bool twinShared).trace twinPlane twinEvents).map
        (fun r => r.2.map Datagram.dst) =
        [[], [], [], [], [.v4 (Arr.zero 4) 1], [.v4 (Arr.zero 4) 0]] ∧
      (Dual.start Bool twinShared).trace twinPlane twinEvents =
        (Sequential.start Bool twinShared).trace twinPlane twinEvents := by
  have heval : (evalRun twinOk (fun d ev => (d.step twinPlane ev).map Prod.fst)
      (Dual.start Bool twinShared) twinEvents).isSome = true := by
    decide +kernel
  have hsent : ((Dual.start Bool twinShared).trace twinPlane twinEvents).map
      (fun r => r.2.map Datagram.dst) =
      [[], [], [], [], [.v4 (Arr.zero 4) 1], [.v4 (Arr.zero 4) 0]] := by
    decide +kernel
  obtain ⟨d, hd⟩ := Option.isSome_iff_exists.mp heval
  have hrun : Run (Guarded (fun d _ => Respects zeroOwner d.shared.st) (Dual.Steps twinPlane))
      (Dual.start Bool twinShared) twinEvents d :=
    run_of_evalRun (fun _ _ h => respects_of_entries h) hd
  exact ⟨d, hrun, hsent, (dualcore_refines_sequential hrun).1⟩

end Example

end TailscaleRust.Proofs
