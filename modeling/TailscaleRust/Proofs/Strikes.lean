import TailscaleRust.Firmware.Startup
import TailscaleRust.Lib.Strikes
import TailscaleRust.Proofs.Destinations
import TailscaleRust.Proofs.Spray

/-!
# Endpoints that are given up

A probe whose `send_to` fails is a strike against its endpoint, and one that
goes out clears them. The counters are threaded through the loops of a round,
over targets and endpoints, and through all rounds, and several targets may
list one endpoint. `sendResults` reads the probes of a round and their results
off what is sent, the random spray apart, and over these the counters take the
steps of `Strikes.Tries`.
-/

namespace TailscaleRust.Proofs.Strikes

open TailscaleRust.Lib TailscaleRust.Lib.Strikes TailscaleRust.Core
open TailscaleRust.Firmware TailscaleRust.Firmware.Dataplane
open TailscaleRust.Proofs.Destinations

/-- The strikes against an endpoint. -/
def strikesOf (strikes : Table SocketAddr UInt8) (a : SocketAddr) : Nat :=
  ((strikes.get? a).getD 0).toNat

theorem strikesOf_insert (strikes : Table SocketAddr UInt8) (a b : SocketAddr) (s : UInt8) :
    strikesOf (strikes.insert a s) b = if b = a then s.toNat else strikesOf strikes b := by
  rw [strikesOf, Table.get?_insert]
  split <;> rfl

section Round

variable (C : Crypto) (F : Features) (hk : Housekeeping) (id : Identity)

/-- What was sent behind `out`, with the results of `send_to`. -/
def sendResults (out out' : List Datagram) : List (SocketAddr × Bool) :=
  (out'.drop out.length).mapIdx fun i d => (d.dst, hk.sendOk (out.length + i))

theorem sendResults_self (out : List Datagram) : sendResults hk out out = [] := by
  rw [sendResults, List.drop_length]
  rfl

theorem sendResults_cons (out rest : List Datagram) (d : Datagram) :
    sendResults hk out (out ++ [d] ++ rest) =
      (d.dst, hk.sendOk out.length) :: sendResults hk (out ++ [d]) (out ++ [d] ++ rest) := by
  rw [sendResults, sendResults, List.drop_left, List.append_assoc, List.drop_left,
    List.singleton_append, List.mapIdx_cons, Nat.add_zero]
  have hindex : ∀ i, (out ++ [d]).length + i = out.length + (i + 1) := by
    intro i
    rw [List.length_append, List.length_singleton]
    omega
  simp only [hindex]

/-- The probes of one target. -/
theorem probeEndpoints_run (pkt : Bytes) (eps : List SocketAddr)
    (strikes : Table SocketAddr UInt8) (out : List Datagram) :
    Run (Tries maxStrikes.toNat) (strikesOf strikes)
      (sendResults hk out (probeEndpoints hk pkt eps strikes out).2)
      (strikesOf (probeEndpoints hk pkt eps strikes out).1) := by
  induction eps generalizing strikes out with
  | nil =>
      rw [probeEndpoints, sendResults_self]
      exact .nil
  | cons ep eps ih =>
      rw [probeEndpoints]
      simp only []
      split
      · have hsame : strikesOf (strikes.insert ep ((strikes.get? ep).getD 0)) =
            strikesOf strikes := by
          funext a
          rw [strikesOf_insert]
          split
          · next ha => rw [ha, strikesOf]
          · rfl
        have hrest := ih (strikes.insert ep ((strikes.get? ep).getD 0)) out
        rwa [hsame] at hrest
      · next hbelow =>
          obtain ⟨rest, hout, -⟩ := probeEndpoints_append hk pkt eps (strikes.insert ep
            (if hk.sendOk out.length = true then 0 else (strikes.get? ep).getD 0 + 1))
            (out ++ [⟨ep, pkt⟩])
          have hrest := ih (strikes.insert ep
            (if hk.sendOk out.length = true then 0 else (strikes.get? ep).getD 0 + 1))
            (out ++ [⟨ep, pkt⟩])
          rw [hout] at hrest ⊢
          rw [sendResults_cons]
          have hlt : strikesOf strikes ep < maxStrikes.toNat := by
            rw [strikesOf, ← UInt8.lt_iff_toNat_lt]
            exact UInt8.not_le.mp hbelow
          refine .cons ⟨hlt, ?_, fun a ha => ?_⟩ hrest
          · simp only []
            rw [strikesOf_insert, if_pos rfl]
            split
            · rfl
            · rw [UInt8.toNat_add, strikesOf]
              rw [strikesOf] at hlt
              have hmax : maxStrikes.toNat = 3 := rfl
              have hone : (1 : UInt8).toNat = 1 := rfl
              omega
          · rw [strikesOf_insert, if_neg ha]

/-- An endpoint in the list is probed or given up. -/
theorem probeEndpoints_tries (pkt : Bytes) {eps : List SocketAddr} {a : SocketAddr}
    (ha : a ∈ eps) (strikes : Table SocketAddr UInt8) (out : List Datagram) :
    ⟨a, pkt⟩ ∈ (probeEndpoints hk pkt eps strikes out).2 ∨
      maxStrikes.toNat ≤ strikesOf (probeEndpoints hk pkt eps strikes out).1 a := by
  induction eps generalizing strikes out with
  | nil => cases ha
  | cons ep eps ih =>
      rw [probeEndpoints]
      simp only []
      rcases List.mem_cons.mp ha with rfl | ha
      · split
        · next hmax =>
            refine .inr ?_
            have hcount : maxStrikes.toNat ≤
                strikesOf (strikes.insert a ((strikes.get? a).getD 0)) a := by
              rw [strikesOf_insert, if_pos rfl, ← UInt8.le_iff_toNat_le]
              exact hmax
            rw [givenUp_run (probeEndpoints_run hk pkt eps _ out) hcount]
            exact hcount
        · obtain ⟨rest, hout, -⟩ := probeEndpoints_append hk pkt eps (strikes.insert a
            (if hk.sendOk out.length = true then 0 else (strikes.get? a).getD 0 + 1))
            (out ++ [⟨a, pkt⟩])
          rw [hout]
          exact .inl (List.mem_append_left rest (List.mem_append_right out List.mem_cons_self))
      · split
        · exact ih ha _ _
        · exact ih ha _ _

/-- The probes of a round and their results, target by target. -/
def roundTries (tunnels : Table UInt32 TunnelEntry) (round : UInt32) :
    Nat → List Target → Table SocketAddr UInt8 → List Datagram → List (SocketAddr × Bool)
  | _, [], _, _ => []
  | n, t :: ts, strikes, out =>
      if t.endpoints.any fun ep => tunnels.values.any fun e => e.addr = ep then
        roundTries tunnels round (n + 1) ts strikes out
      else
        match Disco.sealPacket C id.discoPriv id.discoPub t.discoPub
            (Disco.pingPlaintext (hk.txid n) id.nodePub) (hk.nonce n) with
        | .error _ => roundTries tunnels round (n + 1) ts strikes out
        | .ok pkt =>
            let probed := probeEndpoints hk pkt t.endpoints strikes out
            sendResults hk out probed.2 ++ roundTries tunnels round (n + 1) ts probed.1
              (probed.2 ++ sprayTarget F hk tunnels t n pkt round)

theorem probeTargets_run (tunnels : Table UInt32 TunnelEntry) (round : UInt32) (n : Nat)
    (ts : List Target) (strikes : Table SocketAddr UInt8) (out : List Datagram) :
    Run (Tries maxStrikes.toNat) (strikesOf strikes)
      (roundTries C F hk id tunnels round n ts strikes out)
      (strikesOf (probeTargets C F hk id tunnels round n ts strikes out).1) := by
  induction ts generalizing n strikes out with
  | nil => exact .nil
  | cons t ts ih =>
      rw [roundTries, probeTargets]
      split
      · exact ih _ _ _
      · cases Disco.sealPacket C id.discoPriv id.discoPub t.discoPub
            (Disco.pingPlaintext (hk.txid n) id.nodePub) (hk.nonce n) with
        | error e => exact ih _ _ _
        | ok pkt => exact (probeEndpoints_run hk pkt t.endpoints strikes out).append (ih _ _ _)

/-- What the counters follow is sent, as the pings of targets to endpoints of
theirs. -/
theorem roundTries_sent {tunnels : Table UInt32 TunnelEntry} {round : UInt32} {n : Nat}
    {ts : List Target} {strikes : Table SocketAddr UInt8} {out : List Datagram}
    {t : SocketAddr × Bool} (ht : t ∈ roundTries C F hk id tunnels round n ts strikes out) :
    ∃ d ∈ (probeTargets C F hk id tunnels round n ts strikes out).2, d.dst = t.1 ∧
      ∃ x ∈ ts, t.1 ∈ x.endpoints ∧ SealedPing C id x.discoPub d.bytes := by
  induction ts generalizing n strikes out with
  | nil => cases ht
  | cons target ts ih =>
      have hlater : ∀ {strikes out}, t ∈ roundTries C F hk id tunnels round (n + 1) ts strikes out →
          ∃ d ∈ (probeTargets C F hk id tunnels round (n + 1) ts strikes out).2, d.dst = t.1 ∧
            ∃ x ∈ target :: ts, t.1 ∈ x.endpoints ∧ SealedPing C id x.discoPub d.bytes := by
        intro strikes out ht
        obtain ⟨d, hd, hdst, x, hx, hping⟩ := ih ht
        exact ⟨d, hd, hdst, x, List.mem_cons_of_mem target hx, hping⟩
      rw [roundTries] at ht
      rw [probeTargets]
      split at ht
      · next hskip =>
          rw [if_pos hskip]
          exact hlater ht
      · next hskip =>
          rw [if_neg hskip]
          cases hseal : Disco.sealPacket C id.discoPriv id.discoPub target.discoPub
              (Disco.pingPlaintext (hk.txid n) id.nodePub) (hk.nonce n) with
          | error e =>
              rw [hseal] at ht
              exact hlater ht
          | ok pkt =>
              rw [hseal] at ht
              rcases List.mem_append.mp ht with ht | ht
              · obtain ⟨new, hnew, hall⟩ :=
                  probeEndpoints_append hk pkt target.endpoints strikes out
                rw [sendResults, hnew, List.drop_left] at ht
                obtain ⟨i, hi, rfl⟩ := List.mem_mapIdx.mp ht
                have hmem : new[i] ∈ new := List.getElem_mem hi
                have hping : SealedPing C id target.discoPub pkt := ⟨_, _, hseal⟩
                obtain ⟨hbytes, hdst⟩ := hall _ hmem
                refine ⟨new[i], ?_, rfl, target, List.mem_cons_self, hdst, hbytes ▸ hping⟩
                refine subset_probeTargets F hk tunnels C id round (List.mem_append_left _ ?_)
                rw [hnew]
                exact List.mem_append_right out hmem
              · exact hlater ht

/-- A target without a tunnel has all its endpoints probed, but for those that
are given up. -/
theorem probeTargets_tries
    (hseal : ∀ pub nonce m, (C.boxSeal id.discoPriv pub nonce m).isSome = true)
    {tunnels : Table UInt32 TunnelEntry} (round : UInt32) {t : Target}
    (hno : (t.endpoints.any fun ep => tunnels.values.any fun e => e.addr = ep) = false)
    {ts : List Target} (ht : t ∈ ts) {a : SocketAddr} (ha : a ∈ t.endpoints) (n : Nat)
    (strikes : Table SocketAddr UInt8) (out : List Datagram) :
    (∃ d ∈ (probeTargets C F hk id tunnels round n ts strikes out).2,
      d.dst = a ∧ SealedPing C id t.discoPub d.bytes) ∨
    maxStrikes.toNat ≤ strikesOf (probeTargets C F hk id tunnels round n ts strikes out).1 a := by
  induction ts generalizing n strikes out with
  | nil => cases ht
  | cons target ts ih =>
      rw [probeTargets]
      rcases List.mem_cons.mp ht with rfl | ht
      · rw [hno, if_neg Bool.false_ne_true]
        cases hpkt : Disco.sealPacket C id.discoPriv id.discoPub t.discoPub
            (Disco.pingPlaintext (hk.txid n) id.nodePub) (hk.nonce n) with
        | error e =>
            obtain ⟨ct, hct⟩ := Option.isSome_iff_exists.mp
              (hseal t.discoPub (hk.nonce n) (Disco.pingPlaintext (hk.txid n) id.nodePub))
            rw [Disco.sealPacket, hct] at hpkt
            cases hpkt
        | ok pkt =>
            simp only []
            rcases probeEndpoints_tries hk pkt ha strikes out with hsent | hmax
            · refine .inl ⟨⟨a, pkt⟩, ?_, rfl, _, _, hpkt⟩
              exact subset_probeTargets F hk tunnels C id round (List.mem_append_left _ hsent)
            · refine .inr ?_
              rw [givenUp_run (probeTargets_run C F hk id tunnels round (n + 1) ts _ _) hmax]
              exact hmax
      · split
        · exact ih ht _ _ _
        · split
          · exact ih ht _ _ _
          · exact ih ht _ _ _

end Round

section Due

variable (C : Crypto) (F : Features) {hk : Housekeeping} (id : Identity) (st : State) {lp : Loop}
  (tick : UInt32) (stunAddr : Option SocketAddr)

/-- The counters a step leaves are those of its probes. -/
theorem strikes_due (h : hk.now - lp.lastProbe ≥ 2000) :
    (runPeriodic C F hk id st lp tick stunAddr).2.1.strikes =
      (probeTargets C F hk id st.tunnels (lp.probeRound + 1) 0
        (hk.incoming.foldl mergeTarget lp.targets) lp.strikes (retryAll st tick).2).1 := by
  rw [runPeriodic]
  simp only []
  simp only [if_pos h]
  split <;> rfl

theorem strikes_not_due (h : ¬hk.now - lp.lastProbe ≥ 2000) :
    (runPeriodic C F hk id st lp tick stunAddr).2.1.strikes = lp.strikes := by
  rw [runPeriodic]
  simp only []
  simp only [if_neg h]
  split <;> rfl

end Due

/-! ## Every run -/

section Runs

variable (H : Host) (s : NodeState)

/-- The probes of a step and their results. -/
def stepTries : Input → List (SocketAddr × Bool)
  | .periodic tick hk _ =>
      if hk.now - s.lp.lastProbe ≥ 2000 then
        roundTries H.crypto H.features hk H.identity s.st.tunnels (s.lp.probeRound + 1) 0
          (hk.incoming.foldl mergeTarget s.lp.targets) s.lp.strikes (retryAll s.st tick).2
      else []
  | .packet .. => []
  | .process .. => []
  | .drain _ => []

/-- Those of a run, in order. -/
def triesOf : NodeState → List Input → List (SocketAddr × Bool)
  | _, [] => []
  | s, ev :: evs => stepTries H s ev ++ triesOf (H.step s ev).1 evs

theorem step_run (ev : Input) :
    Run (Tries maxStrikes.toNat) (strikesOf s.lp.strikes) (stepTries H s ev)
      (strikesOf (H.step s ev).1.lp.strikes) := by
  cases ev with
  | periodic tick hk stunAddr =>
      have hlp : (H.step s (.periodic tick hk stunAddr)).1.lp = (runPeriodic H.crypto H.features hk
          H.identity s.st s.lp tick stunAddr).2.1 := rfl
      rw [stepTries, hlp]
      split
      · next hdue =>
          rw [strikes_due H.crypto H.features H.identity s.st tick stunAddr hdue]
          exact probeTargets_run H.crypto H.features hk H.identity _ _ _ _ _ _
      · next hdue =>
          rw [strikes_not_due H.crypto H.features H.identity s.st tick stunAddr hdue]
          exact .nil
  | packet tick pkt src env => exact .nil
  | process tick pkt src env => exact .nil
  | drain payloads => exact .nil

theorem stepTries_sent {ev : Input} {t : SocketAddr × Bool} (ht : t ∈ stepTries H s ev) :
    ∃ d ∈ (H.step s ev).2, d.dst = t.1 ∧ ∃ x ∈ probedTargets (s, ev),
      t.1 ∈ x.endpoints ∧ SealedPing H.crypto H.identity x.discoPub d.bytes := by
  cases ev with
  | periodic tick hk stunAddr =>
      rw [stepTries] at ht
      split at ht
      · next hdue =>
          obtain ⟨d, hd, hkind⟩ := roundTries_sent H.crypto H.features hk H.identity ht
          have hsent := (runPeriodic_due H.crypto H.features H.identity s.st tick stunAddr hdue).2.2
          exact ⟨d, hsent hd, hkind⟩
      · cases ht
  | packet tick pkt src env => cases ht
  | process tick pkt src env => cases ht
  | drain payloads => cases ht

theorem tries_run (evs : List Input) :
    Run (Tries maxStrikes.toNat) (strikesOf s.lp.strikes) (triesOf H s evs)
      (strikesOf (H.after s evs).lp.strikes) := by
  induction evs generalizing s with
  | nil => exact .nil
  | cons ev evs ih => exact (step_run H s ev).append (ih (H.step s ev).1)

end Runs

end TailscaleRust.Proofs.Strikes
