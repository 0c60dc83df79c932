import TailscaleRust.Proofs.Spray
import TailscaleRust.Strict.Dataplane

/-!
# The windows of the sweep tile the ports

Round `r` of the sweep takes the window number `0, -1, 1, -2, 2, …` from the
base. Window number `w` is the interval of the 1024 ports from
`base + 1024 w - 512` on, so windows with neighbouring numbers touch and no
two overlap: the number of the window a port belongs to is a division, and
the round is the place of that number in the list. The last port a base can
have to sweep for is 65535 above 0, which is in window 64, round 128; up to
there no operation on `i32` comes near its bounds.
-/

namespace TailscaleRust.Proofs

open TailscaleRust.Lib TailscaleRust.Lib.Checked TailscaleRust.Core
open TailscaleRust.Firmware.Dataplane

/-! ## A window by its first port -/

/-- The port at place `d` of the window that starts at `lo`, if it is one. -/
def windowPort (lo : Int) (d : Nat) : Option UInt16 :=
  if 1024 ≤ lo + d ∧ lo + d ≤ 65535 then some (UInt16.ofNat (lo + d).toNat) else none

def windowFrom (lo : Int) : List UInt16 := (List.range 1024).filterMap (windowPort lo)

/-- Where the code starts the window of a round. -/
def windowStart (base : UInt16) (tick : UInt32) : Int :=
  i32 (i32 (base.toNat + i32 (sweepIndex tick * sweepWin)) - sweepWin / 2)

theorem windowPort_eq_some {lo : Int} {d : Nat} {p : UInt16} (h : windowPort lo d = some p) :
    (p.toNat : Int) = lo + d ∧ 1024 ≤ p.toNat := by
  rw [windowPort] at h
  split at h
  · next hq =>
      cases h
      rw [UInt16.toNat_ofNat']
      omega
  · cases h

theorem windowFrom_increasing (lo : Int) : (windowFrom lo).Pairwise (· < ·) := by
  refine List.pairwise_filterMap.mpr (List.pairwise_lt_range.imp ?_)
  intro d d' hlt p hp p' hp'
  obtain ⟨hd, -⟩ := windowPort_eq_some hp
  obtain ⟨hd', -⟩ := windowPort_eq_some hp'
  rw [UInt16.lt_iff_toNat_lt]
  omega

theorem windowFrom_ports {lo : Int} {p : UInt16} (h : p ∈ windowFrom lo) : 1024 ≤ p.toNat := by
  obtain ⟨d, -, hd⟩ := List.mem_filterMap.mp h
  exact (windowPort_eq_some hd).2

/-- A place whose sum wraps is below every port, so wrapping takes no port
away and adds none. -/
theorem windowPort_wrapping {lo : Int} (hmin : -2 ^ 31 ≤ lo) (hmax : lo < 2 ^ 31) {d : Nat}
    (hd : d < 1024) :
    windowPort lo d = if 1024 ≤ i32 (lo + d) ∧ i32 (lo + d) ≤ 65535
      then some (UInt16.ofNat (i32 (lo + d)).toNat) else none := by
  obtain ⟨k, hk, hlow, hhigh⟩ := i32_eq (lo + d)
  rw [windowPort]
  by_cases hport : 1024 ≤ lo + d ∧ lo + d ≤ 65535
  · have hsame : i32 (lo + d) = lo + d := by omega
    rw [hsame]
  · rw [if_neg hport, if_neg (by omega)]

/-- The window of any round, and the tail. -/
theorem birthdayPorts_eq (base : UInt16) (tick : UInt32) (tail : List UInt16) :
    birthdayPorts base tick tail =
      windowFrom (windowStart base tick) ++ tail.filter fun p => p ≥ 1024 := by
  obtain ⟨-, -, hmin, hmax⟩ :=
    i32_eq (i32 (base.toNat + i32 (sweepIndex tick * sweepWin)) - sweepWin / 2)
  rw [← windowStart] at hmin hmax
  have hplaces : windowFrom (windowStart base tick) = (List.range 1024).filterMap _ :=
    List.filterMap_congr fun d hd => windowPort_wrapping hmin hmax (List.mem_range.mp hd)
  rw [hplaces, birthdayPorts]
  simp only [List.bind_eq_flatMap, List.pure_def, ← List.map_eq_flatMap, List.filterMap_map]
  rfl

/-! ## The number of a round's window -/

/-- The window of a round, by its distance from the base. -/
def roundIndex (r : Nat) : Int := if r % 2 = 0 then (r / 2 : Nat) else -((r + 1) / 2 : Nat)

/-- The round that takes a window. -/
def roundOf (w : Int) : Nat := if 0 ≤ w then (2 * w).toNat else (-2 * w - 1).toNat

theorem roundIndex_eq_iff (r : Nat) (w : Int) : roundIndex r = w ↔ r = roundOf w := by
  rw [roundIndex, roundOf]
  split <;> split <;> omega

section Round

variable {tick : UInt32} (h : tick.toNat / 2 ≤ 128)

include h

theorem roundIndex_bounds :
    -64 ≤ roundIndex (tick.toNat / 2) ∧ roundIndex (tick.toNat / 2) ≤ 64 := by
  rw [roundIndex]
  split <;> omega

/-- The steps of the code up to the number of the window. -/
theorem round_steps :
    i32 (((tick / 2).toNat : Int) + 1) = (tick / 2).toNat + 1 ∧
    (if ((tick / 2).toNat : Int) % 2 = 0 then 1 else -1) *
      (((tick / 2).toNat : Int) + 1).tdiv 2 = roundIndex (tick.toNat / 2) := by
  have hround : (tick / 2).toNat = tick.toNat / 2 := by
    rw [UInt32.toNat_div]
    rfl
  rw [hround, roundIndex]
  refine ⟨i32_of_range (by omega) (by omega), ?_⟩
  rw [Int.tdiv_eq_ediv_of_nonneg (by omega)]
  split <;> split <;> omega

theorem sweepIndex_of_round : sweepIndex tick = roundIndex (tick.toNat / 2) := by
  obtain ⟨hsucc, hindex⟩ := round_steps h
  have hbounds := roundIndex_bounds h
  simp only [sweepIndex]
  rw [hsucc, hindex, i32_of_range (by omega) (by omega)]

/-- The ports of a round are the ones of an interval. -/
theorem mem_round_iff (base p : UInt16) :
    p ∈ birthdayPorts base tick [] ↔ 1024 ≤ p.toNat ∧
      base.toNat + 1024 * roundIndex (tick.toNat / 2) - 512 ≤ p.toNat ∧
      p.toNat < base.toNat + 1024 * roundIndex (tick.toNat / 2) + 512 := by
  have hp := p.toNat_lt
  have hb := base.toNat_lt
  have hbounds := roundIndex_bounds h
  rw [mem_window_iff, sweepIndex_of_round h]
  -- the window is too near the ports for its sums to wrap, so `k` is zero
  refine ⟨?_, ?_⟩
  · rintro ⟨hlow, d, hd, k, hk⟩
    omega
  · rintro ⟨hlow, hfrom, hto⟩
    refine ⟨hlow, (p.toNat - (base.toNat + 1024 * roundIndex (tick.toNat / 2) - 512)).toNat,
      ?_, 0, ?_⟩ <;> omega

/-- A port is in the window of the one round its number stands at. -/
theorem mem_round_iff_eq (base : UInt16) {p : UInt16} (hp : 1024 ≤ p.toNat) :
    p ∈ birthdayPorts base tick [] ↔
      tick.toNat / 2 = roundOf (((p.toNat : Int) + 512 - base.toNat) / 1024) := by
  rw [mem_round_iff h, ← roundIndex_eq_iff]
  omega

theorem windowStart_of_round (base : UInt16) :
    windowStart base tick = base.toNat + roundIndex (tick.toNat / 2) * 1024 - 512 := by
  have hb := base.toNat_lt
  have hbounds := roundIndex_bounds h
  have hwin : sweepWin = 1024 := rfl
  have hoffset : i32 (roundIndex (tick.toNat / 2) * 1024) = roundIndex (tick.toNat / 2) * 1024 :=
    i32_of_range (by omega) (by omega)
  have hcenter : i32 (base.toNat + roundIndex (tick.toNat / 2) * 1024) =
      base.toNat + roundIndex (tick.toNat / 2) * 1024 := i32_of_range (by omega) (by omega)
  have hhalf : (1024 / 2 : Int) = 512 := rfl
  rw [windowStart, sweepIndex_of_round h, hwin, hoffset, hcenter, hhalf,
    i32_of_range (by omega) (by omega)]

/-- No operation of a round overflows. -/
theorem birthdayPorts_safe (base : UInt16) (tail : List UInt16) :
    Strict.birthdayPorts base tick tail = .ok (birthdayPorts base tick tail) := by
  have hb := base.toNat_lt
  have hbounds := roundIndex_bounds h
  obtain ⟨-, hindex⟩ := round_steps h
  have hround : (tick / 2).toNat ≤ 128 := by
    rw [UInt32.toNat_div]
    exact h
  have hwin : sweepWin = 1024 := rfl
  have hplaces : ∀ d ∈ List.range 1024,
      (do let p ← toI32 ((← toI32 (base.toNat + roundIndex (tick.toNat / 2) * 1024 -
            1024 / 2)) + d)
          return if 1024 ≤ p ∧ p ≤ 65535 then some (UInt16.ofNat p.toNat) else none) =
        (.ok (windowPort (base.toNat + roundIndex (tick.toNat / 2) * 1024 - 512) d) :
          Checked (Option UInt16)) := by
    intro d hd
    have hlt : d < 1024 := List.mem_range.mp hd
    have hhalf : (1024 / 2 : Int) = 512 := rfl
    rw [hhalf, toI32_ok (by omega) (by omega), ok_bind, toI32_ok (by omega) (by omega), ok_bind,
      pure_eq, windowPort]
  rw [birthdayPorts_eq, windowStart_of_round h, Strict.birthdayPorts]
  simp only [hwin]
  rw [toI32_ok (by omega) (by omega), ok_bind, hindex, toI32_ok (by omega) (by omega), ok_bind,
    toI32_ok (by omega) (by omega), ok_bind, toI32_ok (by omega) (by omega), ok_bind]
  rw [show (1024 : Int).toNat = 1024 from rfl, mapM_ok hplaces, ok_bind, pure_eq,
    List.filterMap_map]
  rfl

end Round

/-! ## The sweep -/

/-- How far a port is from the base. -/
def distance (base p : UInt16) : Nat := ((p.toNat : Int) - base.toNat).natAbs

/-- Neither port is above the base, or neither below it. -/
def SameSide (base p q : UInt16) : Prop :=
  (base ≤ p ∧ base ≤ q) ∨ (p ≤ base ∧ q ≤ base)

/-- The windows of the sweep, taken without the drawn tail. Every port from
1024 on is in the window of exactly one of the rounds 0 to 128, in which
nothing overflows; a window lists ports from 1024 on in increasing order; and
two rounds later the ports of a side are all farther from the base. -/
theorem windows_tile_ports (base : UInt16) :
    (∀ p : UInt16, 1024 ≤ p.toNat → ∃ r ≤ 128, ∀ tick : UInt32, tick.toNat / 2 ≤ 128 →
      (p ∈ birthdayPorts base tick [] ↔ tick.toNat / 2 = r)) ∧
    (∀ (tick : UInt32) tail, tick.toNat / 2 ≤ 128 →
      Strict.birthdayPorts base tick tail = .ok (birthdayPorts base tick tail)) ∧
    (∀ tick, (birthdayPorts base tick []).Pairwise (· < ·) ∧ (birthdayPorts base tick []).Nodup ∧
      (∀ p ∈ birthdayPorts base tick [], 1024 ≤ p.toNat ∧ p.toNat ≤ 65535) ∧
      ∀ tail, birthdayPorts base tick tail =
        birthdayPorts base tick [] ++ tail.filter fun p => p ≥ 1024) ∧
    ∀ (tick tick' : UInt32) (p p' : UInt16), tick'.toNat / 2 = tick.toNat / 2 + 2 →
      tick'.toNat / 2 ≤ 128 → p ∈ birthdayPorts base tick [] →
      p' ∈ birthdayPorts base tick' [] → SameSide base p p' →
      distance base p < distance base p' := by
  have hb := base.toNat_lt
  have hwindow : ∀ tick, birthdayPorts base tick [] = windowFrom (windowStart base tick) := by
    intro tick
    rw [birthdayPorts_eq, List.filter_nil, List.append_nil]
  refine ⟨?_, fun tick tail h => birthdayPorts_safe h base tail, ?_, ?_⟩
  · intro p hp
    have hp' := p.toNat_lt
    refine ⟨roundOf (((p.toNat : Int) + 512 - base.toNat) / 1024), ?_,
      fun tick h => mem_round_iff_eq h base hp⟩
    rw [roundOf]
    split <;> omega
  · intro tick
    rw [hwindow]
    have hincreasing := windowFrom_increasing (windowStart base tick)
    refine ⟨hincreasing, hincreasing.imp fun hlt => ?_, fun p hp => ?_, fun tail => ?_⟩
    · exact UInt16.ne_of_lt hlt
    · have hp' := p.toNat_lt
      exact ⟨windowFrom_ports hp, by omega⟩
    · rw [birthdayPorts_eq]
  · intro tick tick' p p' hnext hlast hp hp' hside
    rw [mem_round_iff (by omega)] at hp hp'
    rw [SameSide, UInt16.le_iff_toNat_le, UInt16.le_iff_toNat_le, UInt16.le_iff_toNat_le,
      UInt16.le_iff_toNat_le] at hside
    rw [hnext, roundIndex] at hp'
    rw [roundIndex] at hp
    rw [distance, distance]
    -- both rounds go up or both go down
    split at hp <;> split at hp' <;> omega

/-- The rounds 0 and 2 of the usual port. -/
theorem windows_of_usual_port :
    (∃ r ≤ 128, ∀ tick : UInt32, tick.toNat / 2 ≤ 128 →
      ((42200 : UInt16) ∈ birthdayPorts 41641 tick [] ↔ tick.toNat / 2 = r)) ∧
    Strict.birthdayPorts 41641 4 [] = .ok (birthdayPorts 41641 4 []) ∧
    (41641 : UInt16) ∈ birthdayPorts 41641 0 [] ∧ (42200 : UInt16) ∈ birthdayPorts 41641 4 [] ∧
    distance 41641 41641 < distance 41641 42200 := by
  have hzero : (41641 : UInt16) ∈ birthdayPorts 41641 0 [] :=
    (mem_round_iff (by decide) 41641 41641).mpr (by decide)
  have htwo : (42200 : UInt16) ∈ birthdayPorts 41641 4 [] :=
    (mem_round_iff (by decide) 41641 42200).mpr (by decide)
  obtain ⟨hone, hsafe, -, hout⟩ := windows_tile_ports 41641
  exact ⟨hone 42200 (by decide), hsafe 4 [] (by decide), hzero, htwo,
    hout 0 4 41641 42200 (by decide) (by decide) hzero htwo (.inl (by decide))⟩

end TailscaleRust.Proofs
