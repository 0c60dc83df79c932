import TailscaleRust.Proofs.Sealed
import TailscaleRust.Proofs.Targets
import Mathlib.Algebra.Group.Int.Defs

/-!
# The birthday spray

The windows of the sweep are numbered by how far they are from the base, and
the number is computed from `probe_round`, which counts since boot and not
since the target appeared. The window around the base is number zero and the
one above it number one. Only the first few values of the counter give these
numbers (and, by the wrapping of the arithmetic, a few values before and after
every multiple of 2^24), so the region is reached exactly if the counter
passes through them in time.
-/

namespace TailscaleRust.Proofs

open TailscaleRust.Lib TailscaleRust.Core
open TailscaleRust.Firmware.Dataplane

/-! ## Wrapping -/

theorem i32_eq (x : Int) :
    ∃ k : Int, i32 x = x + k * 2 ^ 32 ∧ -2 ^ 31 ≤ i32 x ∧ i32 x < 2 ^ 31 := by
  refine ⟨-Int.bdiv x (2 ^ 32), ?_, ?_, ?_⟩
  · have h := Int.bmod_add_bdiv' x (2 ^ 32)
    rw [i32]
    push_cast at h ⊢
    omega
  · exact Int.le_bmod (by decide)
  · exact Int.bmod_lt (by decide)

theorem i32_of_range {x : Int} (h : -2 ^ 31 ≤ x) (h' : x < 2 ^ 31) : i32 x = x := by
  obtain ⟨k, hk, hlow, hhigh⟩ := i32_eq x
  omega

/-! ## Windows -/

/-- The number of the window of a round: its distance from the base in
windows, upwards. -/
def sweepIndex (tick : UInt32) : Int :=
  let round : Int := (tick / 2).toNat
  i32 ((if round % 2 = 0 then 1 else -1) * (i32 (round + 1)).tdiv 2)

/-- The rounds count up on even numbers and down on odd ones. -/
theorem sweepIndex_eq (tick : UInt32) :
    ∃ k : Int, sweepIndex tick = k * 2 ^ 22 +
      if tick.toNat / 2 % 2 = 0 then (tick.toNat / 2 / 2 : Int)
      else -((tick.toNat / 2 + 1) / 2 : Int) := by
  have htick := tick.toNat_lt
  have hround : ((tick / 2).toNat : Int) = (tick.toNat / 2 : Int) := by
    rw [UInt32.toNat_div]
    rfl
  rw [sweepIndex, hround]
  have heven : (tick.toNat / 2 : Int) % 2 = 0 ↔ tick.toNat / 2 % 2 = 0 := by omega
  by_cases hparity : tick.toNat / 2 % 2 = 0
  · have hsmall : i32 ((tick.toNat / 2 : Int) + 1) = tick.toNat / 2 + 1 :=
      i32_of_range (by omega) (by omega)
    rw [if_pos (heven.mpr hparity), if_pos hparity, hsmall,
      Int.tdiv_eq_ediv_of_nonneg (by omega)]
    obtain ⟨k, hk, -, -⟩ := i32_eq (1 * ((tick.toNat / 2 + 1 : Int) / 2))
    exact ⟨k * 2 ^ 10, by omega⟩
  · rw [if_neg (heven.not.mpr hparity), if_neg hparity]
    by_cases hlast : (tick.toNat / 2 : Int) + 1 < 2 ^ 31
    · rw [i32_of_range (by omega) hlast, Int.tdiv_eq_ediv_of_nonneg (by omega)]
      obtain ⟨k, hk, -, -⟩ := i32_eq (-1 * ((tick.toNat / 2 + 1 : Int) / 2))
      exact ⟨k * 2 ^ 10, by omega⟩
    · -- the one round whose successor wraps
      have hmax : (tick.toNat / 2 : Int) + 1 = 2 ^ 31 := by omega
      have hwrap : i32 (2 ^ 31) = -2 ^ 31 := by decide
      have hhalf : (-2 ^ 31 : Int).tdiv 2 = -2 ^ 30 := by decide
      have hback : i32 (-1 * -2 ^ 30) = 2 ^ 30 := by decide
      rw [hmax, hwrap, hhalf, hback]
      exact ⟨2 ^ 9, by omega⟩

/-- The counter values of the window around the base. -/
theorem sweepIndex_zero_iff (tick : UInt32) :
    (∃ k : Int, sweepIndex tick = k * 2 ^ 22) ↔ (tick.toNat + 2) % 2 ^ 24 < 4 := by
  obtain ⟨k, hk⟩ := sweepIndex_eq tick
  rw [hk]
  split
  · next hparity =>
      refine ⟨?_, ?_⟩
      · rintro ⟨j, hj⟩
        omega
      · intro h
        exact ⟨k + tick.toNat / 2 ^ 24, by omega⟩
  · next hparity =>
      refine ⟨?_, ?_⟩
      · rintro ⟨j, hj⟩
        omega
      · intro h
        exact ⟨k - (tick.toNat + 2) / 2 ^ 24, by omega⟩

/-- Those of the window above it. -/
theorem sweepIndex_one_iff (tick : UInt32) :
    (∃ k : Int, sweepIndex tick = 1 + k * 2 ^ 22) ↔
      (tick.toNat + 6) % 2 ^ 24 < 2 ∨ (tick.toNat + 6) % 2 ^ 24 / 2 = 5 := by
  obtain ⟨k, hk⟩ := sweepIndex_eq tick
  rw [hk]
  split
  · next hparity =>
      refine ⟨?_, ?_⟩
      · rintro ⟨j, hj⟩
        omega
      · intro h
        exact ⟨k + (tick.toNat - 4) / 2 ^ 24, by omega⟩
  · next hparity =>
      refine ⟨?_, ?_⟩
      · rintro ⟨j, hj⟩
        omega
      · intro h
        exact ⟨k - (tick.toNat + 6) / 2 ^ 24, by omega⟩

/-- The ports of the window of a round: the arithmetic is exact up to a
multiple of 2^32. -/
theorem mem_window_iff (base : UInt16) (tick : UInt32) (p : UInt16) :
    p ∈ birthdayPorts base tick [] ↔ 1024 ≤ p.toNat ∧ ∃ d : Nat, d < 1024 ∧ ∃ k : Int,
      (p.toNat : Int) = base.toNat + 1024 * sweepIndex tick - 512 + d + k * 2 ^ 32 := by
  have hp := p.toNat_lt
  have hmod : ∀ d : Nat, ∃ k : Int,
      i32 (i32 (i32 (base.toNat + i32 (sweepIndex tick * sweepWin)) - sweepWin / 2) + d) =
        base.toNat + 1024 * sweepIndex tick - 512 + d + k * 2 ^ 32 := by
    intro d
    obtain ⟨k1, h1, -, -⟩ := i32_eq (sweepIndex tick * sweepWin)
    obtain ⟨k2, h2, -, -⟩ := i32_eq (base.toNat + i32 (sweepIndex tick * sweepWin))
    obtain ⟨k3, h3, -, -⟩ :=
      i32_eq (i32 (base.toNat + i32 (sweepIndex tick * sweepWin)) - sweepWin / 2)
    obtain ⟨k4, h4, -, -⟩ :=
      i32_eq (i32 (i32 (base.toNat + i32 (sweepIndex tick * sweepWin)) - sweepWin / 2) + d)
    rw [sweepWin] at *
    exact ⟨k1 + k2 + k3 + k4, by omega⟩
  have hport : ∀ q : Int,
      (if 1024 ≤ q ∧ q ≤ 65535 then some (UInt16.ofNat q.toNat) else none) = some p ↔
        1024 ≤ p.toNat ∧ (p.toNat : Int) = q := by
    intro q
    split
    · next hq =>
        rw [Option.some.injEq, ← UInt16.toNat_inj, UInt16.toNat_ofNat']
        omega
    · next hq =>
        simp only [reduceCtorEq, false_iff]
        omega
  have hrange : sweepWin.toNat = 1024 := rfl
  have hindex : i32 ((if ((tick / 2).toNat : Int) % 2 = 0 then 1 else -1) *
      (i32 ((tick / 2).toNat + 1)).tdiv 2) = sweepIndex tick := rfl
  rw [birthdayPorts, List.filter_nil, List.append_nil, List.mem_filterMap]
  simp only [List.bind_eq_flatMap, List.mem_flatMap, List.mem_range, hrange, hport, hindex,
    List.pure_def, List.mem_singleton]
  refine ⟨?_, ?_⟩
  · rintro ⟨_, ⟨d, hd, rfl⟩, hlow, hd'⟩
    obtain ⟨k, hk⟩ := hmod d
    exact ⟨hlow, d, hd, k, hd'.trans hk⟩
  · rintro ⟨hlow, d, hd, k, hk⟩
    obtain ⟨j, hj⟩ := hmod d
    obtain ⟨-, -, hmin, hmax⟩ := i32_eq
      (i32 (i32 (base.toNat + i32 (sweepIndex tick * sweepWin)) - sweepWin / 2) + d)
    exact ⟨d, ⟨d, hd, rfl⟩, hlow, by omega⟩

/-- The ports within half a window of the base belong to the window around it,
but the highest is the first of the window above. -/
theorem mem_window_near_iff {base p : UInt16} (hlow : 1024 ≤ p.toNat)
    (hbelow : base.toNat ≤ p.toNat + 512) (habove : p.toNat ≤ base.toNat + 512) (tick : UInt32) :
    p ∈ birthdayPorts base tick [] ↔
      if p.toNat = base.toNat + 512 then
        (tick.toNat + 6) % 2 ^ 24 < 2 ∨ (tick.toNat + 6) % 2 ^ 24 / 2 = 5
      else (tick.toNat + 2) % 2 ^ 24 < 4 := by
  rw [mem_window_iff]
  split
  · next htop =>
      rw [← sweepIndex_one_iff]
      refine ⟨?_, ?_⟩
      · rintro ⟨-, d, hd, k, hk⟩
        exact ⟨-k, by omega⟩
      · rintro ⟨k, hk⟩
        exact ⟨hlow, 0, by omega, -k, by omega⟩
  · next htop =>
      rw [← sweepIndex_zero_iff]
      refine ⟨?_, ?_⟩
      · rintro ⟨-, d, hd, k, hk⟩
        exact ⟨-k, by omega⟩
      · rintro ⟨k, hk⟩
        exact ⟨hlow, p.toNat + 512 - base.toNat, by omega, -k, by omega⟩

/-- The counter of the `i`-th round from now. -/
def roundAfter (now : UInt32) (i : Nat) : UInt32 := now + UInt32.ofNat i + 1

theorem toNat_roundAfter (now : UInt32) (i : Nat) :
    (roundAfter now i).toNat = (now.toNat + i + 1) % 2 ^ 32 := by
  have hone : (1 : UInt32).toNat = 1 := rfl
  rw [roundAfter, UInt32.toNat_add, UInt32.toNat_add, UInt32.toNat_ofNat', hone]
  omega

/-- The counter passes through the window around the base in time. -/
theorem exists_round_zero_iff (now : UInt32) :
    (∃ i < 260, ((roundAfter now i).toNat + 2) % 2 ^ 24 < 4) ↔
      (now.toNat + 262) % 2 ^ 24 ≤ 262 := by
  simp only [toNat_roundAfter]
  refine ⟨?_, ?_⟩
  · rintro ⟨i, hi, h⟩
    omega
  · intro h
    exact ⟨259 - (now.toNat + 262) % 2 ^ 24, by omega, by omega⟩

/-- And through the one above it. -/
theorem exists_round_one_iff (now : UInt32) :
    (∃ i < 260, ((roundAfter now i).toNat + 6) % 2 ^ 24 < 2 ∨
      ((roundAfter now i).toNat + 6) % 2 ^ 24 / 2 = 5) ↔ (now.toNat + 266) % 2 ^ 24 ≤ 270 := by
  simp only [toNat_roundAfter]
  refine ⟨?_, ?_⟩
  · rintro ⟨i, hi, h⟩
    omega
  · intro h
    rcases Nat.lt_or_ge ((now.toNat + 266) % 2 ^ 24) 261 with hsmall | hlarge
    · exact ⟨259 - (now.toNat + 266) % 2 ^ 24, by omega, by omega⟩
    · exact ⟨270 - (now.toNat + 266) % 2 ^ 24, by omega, by omega⟩

/-- The ports near the base that can be probed at all. -/
def NearBase (base p : UInt16) : Prop :=
  1024 ≤ p.toNat ∧ base.toNat ≤ p.toNat + 512 ∧ p.toNat ≤ base.toNat + 512

/-- Where the counter must stand for the sweep to pass the base: at the start
of a period of 2^24, or so close before it that the 260 rounds reach it. A
base at the lower end of the ports has fewer windows to pass or none. -/
def SweepAhead (now : UInt32) (base : UInt16) : Prop :=
  base.toNat < 512 ∨ (base.toNat = 512 ∧ (now.toNat + 266) % 2 ^ 24 ≤ 270) ∨
    (512 < base.toNat ∧ (now.toNat + 262) % 2 ^ 24 ≤ 262)

theorem sweepAhead_iff (now : UInt32) (base : UInt16) :
    (∀ p, NearBase base p → ∃ i < 260, p ∈ birthdayPorts base (roundAfter now i) []) ↔
      SweepAhead now base := by
  have hbase := base.toNat_lt
  have hmem : ∀ p, NearBase base p → ((∃ i < 260, p ∈ birthdayPorts base (roundAfter now i) []) ↔
      if p.toNat = base.toNat + 512 then (now.toNat + 266) % 2 ^ 24 ≤ 270
      else (now.toNat + 262) % 2 ^ 24 ≤ 262) := by
    rintro p ⟨hlow, hbelow, habove⟩
    simp only [mem_window_near_iff hlow hbelow habove]
    split
    · exact exists_round_one_iff now
    · exact exists_round_zero_iff now
  rw [SweepAhead]
  refine ⟨?_, ?_⟩
  · intro h
    rcases Nat.lt_or_ge base.toNat 512 with hsmall | hlarge
    · exact .inl hsmall
    · -- the highest port there is for a base of 512, one of the window else
      have hto : (UInt16.ofNat (max 1024 base.toNat)).toNat = max 1024 base.toNat := by
        rw [UInt16.toNat_ofNat']
        omega
      have hnear : NearBase base (UInt16.ofNat (max 1024 base.toNat)) := by
        rw [NearBase, hto]
        omega
      have hreached := (hmem _ hnear).mp (h _ hnear)
      rw [hto] at hreached
      split at hreached <;> omega
  · rintro h p hp
    rw [hmem p hp]
    obtain ⟨hlow, hbelow, habove⟩ := hp
    split <;> omega

/-! ## The rounds of a run -/

/-- Does the input find the next probe round due? -/
def roundDue (s : NodeState) : Input → Bool
  | .periodic _ hk _ => decide (hk.now - s.lp.lastProbe ≥ 2000)
  | .packet .. => false
  | .process .. => false
  | .drain _ => false

/-- The probe rounds of a run, each with the state it starts from. -/
def probeRounds (H : Host) : NodeState → List Input → List (NodeState × Input)
  | _, [] => []
  | s, ev :: evs =>
      if roundDue s ev then (s, ev) :: probeRounds H (H.step s ev).1 evs
      else probeRounds H (H.step s ev).1 evs

section Due

variable (C : Crypto) (F : Features) {hk : Housekeeping} (id : Identity) (st : State) {lp : Loop}
  (tick : UInt32) (stunAddr : Option SocketAddr)

/-- What a due round does to the variables of the loop, and that its probes go
out. -/
theorem runPeriodic_due (h : hk.now - lp.lastProbe ≥ 2000) :
    (runPeriodic C F hk id st lp tick stunAddr).2.1.probeRound = lp.probeRound + 1 ∧
    (runPeriodic C F hk id st lp tick stunAddr).2.1.lastProbe = hk.now ∧
    (probeTargets C F hk id st.tunnels (lp.probeRound + 1) 0
      (hk.incoming.foldl mergeTarget lp.targets) lp.strikes (retryAll st tick).2).2 ⊆
      (runPeriodic C F hk id st lp tick stunAddr).2.2 := by
  rw [runPeriodic]
  simp only []
  simp only [if_pos h]
  split
  · refine ⟨rfl, rfl, ?_⟩
    intro d hd
    exact List.mem_append_left _ (List.mem_append_left _ (List.mem_append_left _ hd))
  · refine ⟨rfl, rfl, ?_⟩
    intro d hd
    exact List.mem_append_left _ (List.mem_append_left _ hd)

theorem runPeriodic_not_due (h : ¬hk.now - lp.lastProbe ≥ 2000) :
    (runPeriodic C F hk id st lp tick stunAddr).2.1.probeRound = lp.probeRound := by
  rw [runPeriodic]
  simp only []
  simp only [if_neg h]
  split <;> rfl

end Due

theorem probeRound_step (H : Host) (s : NodeState) (ev : Input) :
    (H.step s ev).1.lp.probeRound =
      if roundDue s ev then s.lp.probeRound + 1 else s.lp.probeRound := by
  cases ev with
  | periodic tick hk stunAddr =>
      rw [roundDue]
      by_cases hdue : hk.now - s.lp.lastProbe ≥ 2000
      · rw [if_pos (decide_eq_true hdue)]
        exact (runPeriodic_due H.crypto H.features H.identity s.st tick stunAddr hdue).1
      · rw [if_neg fun h => hdue (of_decide_eq_true h)]
        exact runPeriodic_not_due H.crypto H.features H.identity s.st tick stunAddr hdue
  | packet tick pkt src env => rfl
  | process tick pkt src env => rfl
  | drain payloads => rfl

/-- The counter of a round is the counter at the start plus the rounds before
it. -/
theorem probeRound_of_round {H : Host} {s : NodeState} {evs : List Input} {i : Nat}
    {r : NodeState × Input} (h : (probeRounds H s evs)[i]? = some r) :
    r.1.lp.probeRound = s.lp.probeRound + UInt32.ofNat i := by
  induction evs generalizing s i with
  | nil => cases h
  | cons ev evs ih =>
      have hstep := probeRound_step H s ev
      rw [probeRounds] at h
      split at h
      · next hdue =>
          rw [if_pos hdue] at hstep
          cases i with
          | zero =>
              cases h
              exact (UInt32.add_zero _).symm
          | succ i =>
              rw [ih h, hstep, UInt32.ofNat_add, UInt32.add_assoc, UInt32.add_comm 1]
              rfl
      · next hdue =>
          rw [if_neg hdue] at hstep
          rw [ih h, hstep]

/-! ## The target while it is sprayed -/

theorem mem_addEndpoints {xs new : List SocketAddr} {ep : SocketAddr} (h : ep ∈ new) :
    ep ∈ addEndpoints xs new := by
  induction new generalizing xs with
  | nil => cases h
  | cons e new ih =>
      rw [addEndpoints, List.foldl_cons]
      rcases List.mem_cons.mp h with rfl | h
      · refine (prefix_addEndpoints _ new).subset ?_
        split
        · next hmem => exact List.contains_iff_mem.mp hmem
        · exact List.mem_append_right xs List.mem_cons_self
      · exact ih h

/-- The entry of this node key is sprayed and has this endpoint. -/
def Sprayed (k : Key) (ep : SocketAddr) (targets : List Target) : Prop :=
  ∃ e, entryOf targets k = some e ∧ e.spray = true ∧ ep ∈ e.endpoints

theorem sprayed_mergeTarget {k : Key} {ep : SocketAddr} {l : List Target} (h : Sprayed k ep l)
    (t : Target) : Sprayed k ep (mergeTarget l t) := by
  obtain ⟨e, he, hspray, hep⟩ := h
  rw [Sprayed, entryOf_mergeTarget, he]
  split
  · refine ⟨absorbTarget e t, rfl, ?_, (prefix_addEndpoints _ _).subset hep⟩
    rw [absorbTarget, hspray, Bool.true_or]
  · exact ⟨e, rfl, hspray, hep⟩

theorem sprayed_of_merged (l : List Target) {t : Target} {ep : SocketAddr} (h : t.spray = true)
    (hep : ep ∈ t.endpoints) : Sprayed t.nodePub ep (mergeTarget l t) := by
  rw [Sprayed, entryOf_mergeTarget, if_pos rfl]
  cases entryOf l t.nodePub with
  | none => exact ⟨t, rfl, h, hep⟩
  | some e =>
      refine ⟨absorbTarget e t, rfl, ?_, mem_addEndpoints hep⟩
      rw [absorbTarget, h, Bool.or_true]

theorem sprayed_foldl {k : Key} {ep : SocketAddr} {l : List Target} (h : Sprayed k ep l)
    (ts : List Target) : Sprayed k ep (ts.foldl mergeTarget l) := by
  induction ts generalizing l with
  | nil => exact h
  | cons t ts ih => exact ih (sprayed_mergeTarget h t)

theorem sprayed_of_mem {t : Target} {ts : List Target} {ep : SocketAddr} (ht : t ∈ ts)
    (h : t.spray = true) (hep : ep ∈ t.endpoints) (l : List Target) :
    Sprayed t.nodePub ep (ts.foldl mergeTarget l) := by
  induction ts generalizing l with
  | nil => cases ht
  | cons t' ts ih =>
      rcases List.mem_cons.mp ht with rfl | ht
      · exact sprayed_foldl (sprayed_of_merged l h hep) ts
      · exact ih ht (mergeTarget l t')

/-- The targets a round probes. -/
def probedTargets (r : NodeState × Input) : List Target :=
  (targetsReceived r.2).foldl mergeTarget r.1.lp.targets

/-- A target stays sprayed to the end of the run. -/
theorem sprayed_round {H : Host} {s : NodeState} {evs : List Input} {k : Key} {ep : SocketAddr}
    (h : Sprayed k ep s.lp.targets) {r : NodeState × Input} (hr : r ∈ probeRounds H s evs) :
    Sprayed k ep (probedTargets r) := by
  induction evs generalizing s with
  | nil => cases hr
  | cons ev evs ih =>
      have hnext : Sprayed k ep (H.step s ev).1.lp.targets := by
        rw [targets_step (show H.Steps s ev _ from rfl)]
        exact sprayed_foldl h _
      rw [probeRounds] at hr
      split at hr
      · rcases List.mem_cons.mp hr with rfl | hr
        · exact sprayed_foldl h _
        · exact ih hnext hr
      · exact ih hnext hr

/-- From the step that receives it on. -/
theorem sprayed_from_arrival {H : Host} {s : NodeState} {tick : UInt32} {hk : Housekeeping}
    {stunAddr : Option SocketAddr} {evs : List Input} {t : Target} {ep : SocketAddr}
    (ht : t ∈ hk.incoming) (hspray : t.spray = true) (hep : ep ∈ t.endpoints) :
    ∀ r ∈ probeRounds H s (.periodic tick hk stunAddr :: evs),
      Sprayed t.nodePub ep (probedTargets r) := by
  intro r hr
  have hmerged : Sprayed t.nodePub ep (hk.incoming.foldl mergeTarget s.lp.targets) :=
    sprayed_of_mem ht hspray hep s.lp.targets
  have hnext : Sprayed t.nodePub ep (H.step s (.periodic tick hk stunAddr)).1.lp.targets := by
    rw [targets_step (show H.Steps s (.periodic tick hk stunAddr) _ from rfl)]
    exact hmerged
  rw [probeRounds] at hr
  split at hr
  · rcases List.mem_cons.mp hr with rfl | hr
    · exact hmerged
    · exact sprayed_round hnext hr
  · exact sprayed_round hnext hr

/-! ## What a round sends -/

/-- The window is part of what a round draws. -/
theorem mem_birthdayPorts_of_window {base : UInt16} {tick : UInt32} {p : UInt16}
    (h : p ∈ birthdayPorts base tick []) (tail : List UInt16) :
    p ∈ birthdayPorts base tick tail := by
  rw [birthdayPorts, List.filter_nil, List.append_nil] at h
  exact List.mem_append_left _ h

section Send

variable (F : Features) (hk : Housekeeping) (tunnels : Table UInt32 TunnelEntry)

/-- No tunnel leads to an address of the target. -/
def NoTunnel (t : Target) : Prop :=
  ∀ ep ∈ t.endpoints, ∀ e ∈ tunnels.values, ep.ip ≠ e.addr.ip

theorem noTunnel_skips {t : Target} (h : NoTunnel tunnels t) :
    (t.endpoints.any fun ep => tunnels.values.any fun e => e.addr = ep) = false ∧
    (tunnels.values.any fun e => t.endpoints.any fun ep => ep.ip = e.addr.ip) = false := by
  refine ⟨?_, ?_⟩
  · rw [List.any_eq_false]
    intro ep hep
    rw [Bool.not_eq_true, List.any_eq_false]
    intro e he heq
    rw [decide_eq_true_eq] at heq
    exact h ep hep e he (congrArg SocketAddr.ip heq.symm)
  · rw [List.any_eq_false]
    intro e he
    rw [Bool.not_eq_true, List.any_eq_false]
    intro ep hep heq
    exact h ep hep e he (of_decide_eq_true heq)

theorem mem_sprayTarget {t : Target} {ip : Ipv4Addr} {base : UInt16} {round : UInt32}
    (hF : F.birthday = true) (hspray : t.spray = true) (hno : NoTunnel tunnels t)
    (hep : SocketAddr.v4 ip base ∈ t.endpoints) (hpublic : isPublicV4 ip = true) {p : UInt16}
    (hp : p ∈ birthdayPorts base round []) (n : Nat) (pkt : Bytes) :
    ⟨.v4 ip p, pkt⟩ ∈ sprayTarget F hk tunnels t n pkt round := by
  rw [sprayTarget, if_pos ⟨hF, hspray, by simp [(noTunnel_skips tunnels hno).2]⟩]
  obtain ⟨i, hi, hget⟩ := List.mem_iff_getElem.mp hep
  refine List.mem_flatten.mpr ⟨_, List.mem_mapIdx.mpr ⟨i, hi, rfl⟩, ?_⟩
  rw [hget, sprayEndpoint, if_pos hpublic]
  exact List.mem_map.mpr ⟨p, mem_birthdayPorts_of_window hp _, rfl⟩

theorem subset_probeTargets (C : Crypto) (id : Identity) (round : UInt32) {n : Nat}
    {ts : List Target} {strikes : Table SocketAddr UInt8} {out : List Datagram} :
    out ⊆ (probeTargets C F hk id tunnels round n ts strikes out).2 := by
  obtain ⟨rest, hrest, -⟩ := probeTargets_append C F hk id tunnels round n ts strikes out
  rw [hrest]
  exact List.subset_append_left out rest

/-- Each target that can be reached by no tunnel is sprayed with its own ping. -/
theorem probeTargets_sprays {C : Crypto} {id : Identity}
    (hseal : ∀ pub nonce m, (C.boxSeal id.discoPriv pub nonce m).isSome = true) (round : UInt32)
    {t : Target} (hno : NoTunnel tunnels t) {ts : List Target} (ht : t ∈ ts) (n : Nat)
    (strikes : Table SocketAddr UInt8) (out : List Datagram) :
    ∃ m pkt, SealedPing C id t.discoPub pkt ∧ sprayTarget F hk tunnels t m pkt round ⊆
      (probeTargets C F hk id tunnels round n ts strikes out).2 := by
  induction ts generalizing n strikes out with
  | nil => cases ht
  | cons t' ts ih =>
      rcases List.mem_cons.mp ht with rfl | ht
      · obtain ⟨ct, hct⟩ := Option.isSome_iff_exists.mp
          (hseal t.discoPub (hk.nonce n) (Disco.pingPlaintext (hk.txid n) id.nodePub))
        have hpkt : Disco.sealPacket C id.discoPriv id.discoPub t.discoPub
            (Disco.pingPlaintext (hk.txid n) id.nodePub) (hk.nonce n) =
              .ok (Disco.magic ++ id.discoPub.1 ++ (hk.nonce n).1 ++ ct) := by
          rw [Disco.sealPacket, hct]
        rw [probeTargets, (noTunnel_skips tunnels hno).1, if_neg Bool.false_ne_true, hpkt]
        simp only []
        refine ⟨n, _, ⟨_, _, hpkt⟩, fun d hd => ?_⟩
        exact subset_probeTargets F hk tunnels C id round (List.mem_append_right _ hd)
      · rw [probeTargets]
        split
        · exact ih ht _ _ _
        · split
          · exact ih ht _ _ _
          · exact ih ht _ _ _

end Send

/-- The window of a round has this port, and a ping for the disco key of the
peer goes out to it. -/
def SweepSends (H : Host) (k : Key) (ip : Ipv4Addr) (base p : UInt16) (r : NodeState × Input) :
    Prop :=
  p ∈ birthdayPorts base (r.1.lp.probeRound + 1) [] ∧
    ∃ e pkt, entryOf (probedTargets r) k = some e ∧
      SealedPing H.crypto H.identity e.discoPub pkt ∧ ⟨.v4 ip p, pkt⟩ ∈ (H.step r.1 r.2).2

/-- No tunnel, to whichever peer, leads to an IP address of the target when the
round is taken. -/
def Unreached (k : Key) (r : NodeState × Input) : Prop :=
  ∀ e, entryOf (probedTargets r) k = some e → NoTunnel r.1.st.tunnels e

section Rounds

variable {H : Host} {k : Key} {ip : Ipv4Addr} {base : UInt16}

theorem roundDue_of_mem {s : NodeState} {evs : List Input} {r : NodeState × Input}
    (h : r ∈ probeRounds H s evs) : roundDue r.1 r.2 = true := by
  induction evs generalizing s with
  | nil => cases h
  | cons ev evs ih =>
      rw [probeRounds] at h
      split at h
      · next hdue =>
          rcases List.mem_cons.mp h with rfl | h
          · exact hdue
          · exact ih h
      · exact ih h

/-- A round sends all of its window. -/
theorem sweepSends_of_window
    (hseal : ∀ pub nonce m, (H.crypto.boxSeal H.identity.discoPriv pub nonce m).isSome = true)
    (hF : H.features.birthday = true) (hpublic : isPublicV4 ip = true) {r : NodeState × Input}
    (hdue : roundDue r.1 r.2 = true) (hsprayed : Sprayed k (.v4 ip base) (probedTargets r))
    (hopen : Unreached k r) {p : UInt16}
    (hp : p ∈ birthdayPorts base (r.1.lp.probeRound + 1) []) : SweepSends H k ip base p r := by
  refine ⟨hp, ?_⟩
  obtain ⟨s, ev⟩ := r
  cases ev with
  | periodic tick hk stunAddr =>
      obtain ⟨e, he, hspray, hep⟩ := hsprayed
      obtain ⟨m, pkt, hping, hsub⟩ := probeTargets_sprays H.features hk s.st.tunnels hseal
        (s.lp.probeRound + 1) (hopen e he) (List.mem_of_find?_eq_some he) 0 s.lp.strikes
        (retryAll s.st tick).2
      have hsent := (runPeriodic_due H.crypto H.features H.identity s.st tick stunAddr
        (of_decide_eq_true hdue)).2.2
      exact ⟨e, pkt, he, hping, hsent (hsub (mem_sprayTarget H.features hk s.st.tunnels hF hspray
        (hopen e he) hep hpublic hp m pkt))⟩
  | packet tick pkt src env => cases hdue
  | process tick pkt src env => cases hdue
  | drain payloads => cases hdue

/-- While the peer has no tunnel, its region is swept in the first 260 rounds
exactly if the counter passes it in time. -/
theorem swept_iff
    (hseal : ∀ pub nonce m, (H.crypto.boxSeal H.identity.discoPriv pub nonce m).isSome = true)
    (hF : H.features.birthday = true) (hpublic : isPublicV4 ip = true) {s : NodeState}
    {evs : List Input} (hrounds : 260 ≤ (probeRounds H s evs).length)
    (hsprayed : ∀ r ∈ probeRounds H s evs, Sprayed k (.v4 ip base) (probedTargets r))
    (hopen : ∀ r ∈ (probeRounds H s evs).take 260, Unreached k r) :
    (∀ p, NearBase base p → ∃ r ∈ (probeRounds H s evs).take 260, SweepSends H k ip base p r) ↔
      SweepAhead s.lp.probeRound base := by
  have hround : ∀ p, (∃ r ∈ (probeRounds H s evs).take 260, SweepSends H k ip base p r) ↔
      ∃ i < 260, p ∈ birthdayPorts base (roundAfter s.lp.probeRound i) [] := by
    intro p
    refine ⟨?_, ?_⟩
    · rintro ⟨r, hr, hwindow, -⟩
      obtain ⟨i, hi, hget⟩ := List.mem_take_iff_getElem.mp hr
      have hcount := probeRound_of_round (List.getElem?_eq_some_iff.mpr ⟨_, hget⟩)
      rw [hcount] at hwindow
      exact ⟨i, by omega, hwindow⟩
    · rintro ⟨i, hi, hwindow⟩
      have hlt : i < (probeRounds H s evs).length := by omega
      have hcount := probeRound_of_round (List.getElem?_eq_getElem hlt)
      have htake : (probeRounds H s evs)[i] ∈ (probeRounds H s evs).take 260 :=
        List.mem_take_iff_getElem.mpr ⟨i, by omega, rfl⟩
      have hmem := List.mem_of_mem_take htake
      refine ⟨_, htake, sweepSends_of_window hseal hF hpublic (roundDue_of_mem hmem)
        (hsprayed _ hmem) (hopen _ htake) ?_⟩
      rw [hcount]
      exact hwindow
  simp only [hround]
  exact sweepAhead_iff s.lp.probeRound base

end Rounds

/-- A target with the spray flag arrives and has no tunnel for 260 probe
rounds, whatever else the node receives in between. Every port within 512 of
its public endpoint is probed by the sweep in these rounds, if and only if
the counter of the node stood at the start of its period of 2^24 or at most
262 before it (266 to 4 for an endpoint whose region is one port, and anywhere
if its region is empty). -/
theorem sweep_reaches_region_iff (H : Host) (s : NodeState) (tick : UInt32) (hk : Housekeeping)
    (stunAddr : Option SocketAddr) (evs : List Input) (t : Target) (ip : Ipv4Addr) (base : UInt16)
    (hseal : ∀ pub nonce m, (H.crypto.boxSeal H.identity.discoPriv pub nonce m).isSome = true)
    (hF : H.features.birthday = true) (ht : t ∈ hk.incoming) (hspray : t.spray = true)
    (hep : SocketAddr.v4 ip base ∈ t.endpoints) (hpublic : isPublicV4 ip = true)
    (hrounds : 260 ≤ (probeRounds H s (.periodic tick hk stunAddr :: evs)).length)
    (hopen : ∀ r ∈ (probeRounds H s (.periodic tick hk stunAddr :: evs)).take 260,
      Unreached t.nodePub r) :
    (∀ p, NearBase base p →
      ∃ r ∈ (probeRounds H s (.periodic tick hk stunAddr :: evs)).take 260,
        SweepSends H t.nodePub ip base p r) ↔
      SweepAhead s.lp.probeRound base :=
  swept_iff hseal hF hpublic hrounds (sprayed_from_arrival ht hspray hep) hopen

/-! ## A node that only probes -/

/-- A round at this time, with these targets on the channel. -/
def roundAt (now : Nat) (incoming : List Target) : Input :=
  .periodic 0 { probeDue with now := now, incoming := incoming } none

/-- Rounds in which nothing else happens, the first at this time. -/
def quietRounds : Nat → Nat → List Input
  | _, 0 => []
  | now, n + 1 => roundAt now [] :: quietRounds (now + 2000) n

section Quiet

variable (H : Host) {s : NodeState} {now : Nat} (incoming : List Target)

theorem probeRounds_roundAt (h : s.lp.lastProbe + 2000 ≤ now) (evs : List Input) :
    probeRounds H s (roundAt now incoming :: evs) =
      (s, roundAt now incoming) :: probeRounds H (H.step s (roundAt now incoming)).1 evs := by
  have hdue : now - s.lp.lastProbe ≥ 2000 := by omega
  rw [probeRounds, if_pos (show roundDue s (roundAt now incoming) = true from decide_eq_true hdue)]

theorem lastProbe_roundAt (h : s.lp.lastProbe + 2000 ≤ now) :
    (H.step s (roundAt now incoming)).1.lp.lastProbe = now := by
  have hdue : now - s.lp.lastProbe ≥ 2000 := by omega
  exact (runPeriodic_due H.crypto H.features H.identity s.st 0 none hdue).2.1

/-- A node without tunnels gets none from its periodic work. -/
theorem no_tunnels_roundAt (h : ∀ i, s.st.tunnels.get? i = none) :
    ∀ i, (H.step s (roundAt now incoming)).1.st.tunnels.get? i = none := by
  intro i
  have hkept := (runPeriodic_spec H.crypto H.features
    { probeDue with now := now, incoming := incoming } H.identity s.st s.lp 0 none).1.tunnels i
  rw [show (retryAll s.st 0).1.tunnels.get? i = none from h i] at hkept
  exact Option.map_eq_none_iff.mp hkept

theorem unreached_of_no_tunnels (h : ∀ i, s.st.tunnels.get? i = none) (k : Key) (ev : Input) :
    Unreached k (s, ev) := by
  intro e he ep hep x hx
  obtain ⟨⟨i, y⟩, hmem, rfl⟩ := List.mem_map.mp hx
  rw [Table.mem_entries_iff, h i] at hmem
  cases hmem

theorem length_quietRounds (h : s.lp.lastProbe + 2000 ≤ now) (n : Nat) :
    (probeRounds H s (quietRounds now n)).length = n := by
  induction n generalizing s now with
  | zero => rfl
  | succ n ih =>
      have hlast := lastProbe_roundAt H [] h
      rw [quietRounds, probeRounds_roundAt H [] h, List.length_cons, ih (by omega)]

theorem unreached_quietRounds (h : s.lp.lastProbe + 2000 ≤ now)
    (hnone : ∀ i, s.st.tunnels.get? i = none) (k : Key) (n : Nat) :
    ∀ r ∈ probeRounds H s (quietRounds now n), Unreached k r := by
  induction n generalizing s now with
  | zero => exact fun r hr => absurd hr List.not_mem_nil
  | succ n ih =>
      intro r hr
      have hlast := lastProbe_roundAt H [] h
      rw [quietRounds, probeRounds_roundAt H [] h] at hr
      rcases List.mem_cons.mp hr with rfl | hr
      · exact unreached_of_no_tunnels hnone k _
      · exact ih (by omega) (no_tunnels_roundAt H [] hnone) r hr

end Quiet

/-- The single node, built with the spray. -/
def sprayer : Host := { solo with features := { defaultFeatures with birthday := true } }

def sprayIp : Ipv4Addr := ⟨[203, 0, 113, 5], rfl⟩

/-- A peer found through the relay, behind a NAT. -/
def natPeer : Target where
  name := "nat"
  discoPub := byteKey 2
  nodePub := byteKey 1
  endpoints := [.v4 sprayIp 41641]
  spray := true

/-- The node after this many rounds without it. -/
def sprayerAt (round : UInt32) : NodeState := { soloStart with lp.probeRound := round }

/-- The peer arrives, and 259 rounds follow. -/
def natPeerRun : List Input := quietRounds 4000 259

theorem natPeer_rounds (round : UInt32) :
    (probeRounds sprayer (sprayerAt round) (roundAt 2000 [natPeer] :: natPeerRun)).length =
      260 := by
  have hdue : (sprayerAt round).lp.lastProbe + 2000 ≤ 2000 := Nat.le_refl 2000
  have hlast := lastProbe_roundAt sprayer [natPeer] hdue
  rw [probeRounds_roundAt sprayer [natPeer] hdue, List.length_cons, natPeerRun,
    length_quietRounds sprayer (by omega)]

theorem natPeer_unreached (round : UInt32) :
    ∀ r ∈ (probeRounds sprayer (sprayerAt round) (roundAt 2000 [natPeer] :: natPeerRun)).take 260,
      Unreached natPeer.nodePub r := by
  intro r hr
  have hdue : (sprayerAt round).lp.lastProbe + 2000 ≤ 2000 := Nat.le_refl 2000
  have hlast := lastProbe_roundAt sprayer [natPeer] hdue
  have hnone : ∀ i, (sprayerAt round).st.tunnels.get? i = none := fun i => rfl
  replace hr := List.mem_of_mem_take hr
  rw [probeRounds_roundAt sprayer [natPeer] hdue] at hr
  rcases List.mem_cons.mp hr with rfl | hr
  · exact unreached_of_no_tunnels hnone _ _
  · exact unreached_quietRounds sprayer (by omega) (no_tunnels_roundAt sprayer [natPeer] hnone) _ _
      r hr

theorem sprayer_seals (pub : Key) (nonce : Arr 24) (m : Bytes) :
    (sprayer.crypto.boxSeal sprayer.identity.discoPriv pub nonce m).isSome = true := rfl

/-- A peer that arrives after the first round: the 260 rounds that follow do
not sweep all of the region around its port. -/
theorem late_target_is_missed :
    (probeRounds sprayer (sprayerAt 1) (roundAt 2000 [natPeer] :: natPeerRun)).length = 260 ∧
    (∀ r ∈ (probeRounds sprayer (sprayerAt 1) (roundAt 2000 [natPeer] :: natPeerRun)).take 260,
      Unreached natPeer.nodePub r) ∧
    ¬∀ p, NearBase 41641 p →
      ∃ r ∈ (probeRounds sprayer (sprayerAt 1) (roundAt 2000 [natPeer] :: natPeerRun)).take 260,
        SweepSends sprayer natPeer.nodePub sprayIp 41641 p r := by
  refine ⟨natPeer_rounds 1, natPeer_unreached 1, ?_⟩
  intro h
  have hahead := (swept_iff sprayer_seals rfl rfl (Nat.le_of_eq (natPeer_rounds 1).symm)
    (sprayed_from_arrival (List.mem_singleton.mpr rfl) rfl (List.mem_singleton.mpr rfl))
    (natPeer_unreached 1)).mp h
  revert hahead
  rw [SweepAhead]
  decide

/-- One that arrives before the first round is swept. -/
theorem first_target_is_swept :
    (probeRounds sprayer (sprayerAt 0) (roundAt 2000 [natPeer] :: natPeerRun)).length = 260 ∧
    ∀ p, NearBase 41641 p →
      ∃ r ∈ (probeRounds sprayer (sprayerAt 0) (roundAt 2000 [natPeer] :: natPeerRun)).take 260,
        SweepSends sprayer natPeer.nodePub sprayIp 41641 p r := by
  have hiff := sweep_reaches_region_iff sprayer (sprayerAt 0) 0
    { probeDue with now := 2000, incoming := [natPeer] } none natPeerRun natPeer sprayIp 41641
    sprayer_seals rfl (List.mem_singleton.mpr rfl) rfl (List.mem_singleton.mpr rfl) rfl
    (Nat.le_of_eq (natPeer_rounds 0).symm) (natPeer_unreached 0)
  exact ⟨natPeer_rounds 0, hiff.mpr (.inr (.inr (by decide)))⟩

end TailscaleRust.Proofs
