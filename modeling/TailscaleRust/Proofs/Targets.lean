import TailscaleRust.Firmware.NodeRun
import TailscaleRust.Proofs.Tables
import Mathlib.Data.List.Induction

/-!
# Targets added at runtime

The entry of a peer is the first target seen for its node key with the later
ones merged into it. Endpoints and the spray flag are merged, so the entry
has all that was received, each endpoint once and in the order of arrival.
The disco key is not: the entry keeps the one it started with. So the list
is the freshest view of every peer exactly if no peer's disco key changed in
between.
-/

namespace TailscaleRust.Proofs

open TailscaleRust.Lib TailscaleRust.Core
open TailscaleRust.Firmware.Dataplane

/-! ## Keeping first arrivals -/

section Arrivals

variable {α : Type} [BEq α] [LawfulBEq α]

theorem eraseDups_concat (xs : List α) (x : α) :
    (xs ++ [x]).eraseDups = if x ∈ xs then xs.eraseDups else xs.eraseDups ++ [x] := by
  rw [List.eraseDups_append]
  split
  · next h => simp [List.removeAll, h]
  · next h => simp [List.removeAll, h, List.eraseDups_cons]

theorem nodup_eraseDups (xs : List α) : xs.eraseDups.Nodup := by
  induction xs using List.reverseRecOn with
  | nil => exact List.nodup_nil
  | append_singleton xs x ih =>
      rw [eraseDups_concat]
      split
      · exact ih
      · next h =>
          rw [List.nodup_append]
          refine ⟨ih, List.nodup_singleton x, ?_⟩
          intro a ha b hb heq
          rw [List.mem_singleton.mp hb] at heq
          rw [heq] at ha
          exact h (List.mem_eraseDups.mp ha)

theorem eraseDups_of_nodup {xs : List α} (h : xs.Nodup) : xs.eraseDups = xs := by
  induction xs using List.reverseRecOn with
  | nil => rfl
  | append_singleton xs x ih =>
      obtain ⟨hxs, -, hdis⟩ := List.nodup_append.mp h
      have hx : x ∉ xs := fun hmem => hdis x hmem x (List.mem_singleton.mpr rfl) rfl
      rw [eraseDups_concat, if_neg hx, ih hxs]

end Arrivals

/-- Adding endpoints to first arrivals gives first arrivals. -/
theorem addEndpoints_eraseDups (xs new : List SocketAddr) :
    addEndpoints xs.eraseDups new = (xs ++ new).eraseDups := by
  induction new generalizing xs with
  | nil => rw [List.append_nil]; rfl
  | cons ep new ih =>
      have hstep : addEndpoints xs.eraseDups (ep :: new) =
          addEndpoints (xs ++ [ep]).eraseDups new := by
        show addEndpoints (if xs.eraseDups.contains ep then _ else _) new = _
        rw [eraseDups_concat]
        by_cases hmem : ep ∈ xs
        · rw [if_pos (by simpa using hmem), if_pos hmem]
        · rw [if_neg (by simpa using hmem), if_neg hmem]
      rw [hstep, ih, List.append_assoc, List.singleton_append]

/-- What was there stays in front. -/
theorem prefix_addEndpoints (xs new : List SocketAddr) : xs <+: addEndpoints xs new := by
  induction new generalizing xs with
  | nil => exact List.prefix_refl xs
  | cons ep new ih =>
      rw [addEndpoints, List.foldl_cons]
      split
      · exact ih xs
      · exact (List.prefix_append xs [ep]).trans (ih _)

/-! ## The entry of a peer -/

/-- The entry of a node key. -/
def entryOf (targets : List Target) (k : Key) : Option Target :=
  targets.find? fun e => e.nodePub = k

/-- The targets of one node key, in the order they were seen. -/
def seenOf (targets : List Target) (k : Key) : List Target :=
  targets.filter fun e => e.nodePub = k

def absorbTarget (e t : Target) : Target :=
  { e with endpoints := addEndpoints e.endpoints t.endpoints, spray := e.spray || t.spray }

def absorbInto (o : Option Target) (t : Target) : Option Target :=
  match o with
  | none => some t
  | some e => some (absorbTarget e t)

/-- A merge changes the entry of its own key only. -/
theorem entryOf_mergeTarget (l : List Target) (t : Target) (k : Key) :
    entryOf (mergeTarget l t) k =
      if t.nodePub = k then absorbInto (entryOf l k) t else entryOf l k := by
  induction l with
  | nil =>
      rw [mergeTarget, entryOf, List.find?_cons, List.find?_nil]
      split
      · next h => rw [if_pos (of_decide_eq_true h)]; rfl
      · next h => rw [if_neg (of_decide_eq_false h)]; rfl
  | cons e l ih =>
      rw [mergeTarget]
      by_cases hsame : e.nodePub = t.nodePub
      · rw [if_pos hsame, entryOf, entryOf, List.find?_cons, List.find?_cons]
        by_cases hk : t.nodePub = k
        · have hdec : decide (e.nodePub = k) = true := decide_eq_true (hsame.trans hk)
          rw [if_pos hk]
          simp only [hdec]
          rfl
        · have hdec : decide (e.nodePub = k) = false :=
            decide_eq_false fun h => hk (hsame.symm.trans h)
          rw [if_neg hk]
          simp only [hdec]
      · rw [if_neg hsame, entryOf, List.find?_cons]
        by_cases hk : e.nodePub = k
        · have hne : t.nodePub ≠ k := fun h => hsame (hk.trans h.symm)
          rw [if_neg hne, entryOf, List.find?_cons]
          simp only [hk, decide_true]
        · have hcons : entryOf (e :: l) k = entryOf l k := by
            rw [entryOf, List.find?_cons]
            simp only [hk, decide_false]
            rfl
          rw [hcons, ← ih]
          simp only [hk, decide_false]
          rfl

theorem entryOf_foldl (ts l : List Target) (k : Key) :
    entryOf (ts.foldl mergeTarget l) k = (seenOf ts k).foldl absorbInto (entryOf l k) := by
  induction ts generalizing l with
  | nil => rfl
  | cons t ts ih =>
      rw [List.foldl_cons, ih, entryOf_mergeTarget, seenOf, seenOf, List.filter_cons]
      by_cases hk : t.nodePub = k
      · simp only [hk, decide_true, if_true, List.foldl_cons]
      · simp only [hk, decide_false, if_false, Bool.false_eq_true]

/-! ## One entry for every key -/

theorem keys_mergeTarget (l : List Target) (t : Target) :
    (mergeTarget l t).map Target.nodePub =
      if t.nodePub ∈ l.map Target.nodePub then l.map Target.nodePub
      else l.map Target.nodePub ++ [t.nodePub] := by
  induction l with
  | nil => rfl
  | cons e l ih =>
      rw [mergeTarget]
      by_cases hsame : e.nodePub = t.nodePub
      · rw [if_pos hsame, if_pos (by rw [List.map_cons, hsame]; exact List.mem_cons_self)]
        rfl
      · have hmem : t.nodePub ∈ (e :: l).map Target.nodePub ↔ t.nodePub ∈ l.map Target.nodePub := by
          rw [List.map_cons, List.mem_cons]
          exact ⟨fun h => h.resolve_left fun he => hsame he.symm, .inr⟩
        rw [if_neg hsame, List.map_cons, ih]
        by_cases h : t.nodePub ∈ l.map Target.nodePub
        · rw [if_pos h, if_pos (hmem.mpr h), List.map_cons]
        · rw [if_neg h, if_neg (hmem.not.mpr h), List.map_cons, List.cons_append]

/-- The keys are those seen, in the order they were first seen. -/
theorem keys_foldl {init : List Target} (h : (init.map Target.nodePub).Nodup) (ts : List Target) :
    (ts.foldl mergeTarget init).map Target.nodePub =
      ((init ++ ts).map Target.nodePub).eraseDups := by
  induction ts using List.reverseRecOn with
  | nil => rw [List.append_nil, eraseDups_of_nodup h]; rfl
  | append_singleton ts t ih =>
      have hmap : (init ++ (ts ++ [t])).map Target.nodePub =
          (init ++ ts).map Target.nodePub ++ [t.nodePub] := by
        rw [← List.append_assoc, List.map_append, List.map_singleton]
      rw [List.foldl_concat, keys_mergeTarget, ih, hmap, eraseDups_concat]
      by_cases hmem : t.nodePub ∈ (init ++ ts).map Target.nodePub
      · rw [if_pos (List.mem_eraseDups.mpr hmem), if_pos hmem]
      · rw [if_neg fun h => hmem (List.mem_eraseDups.mp h), if_neg hmem]

theorem entryOf_of_mem {l : List Target} (h : (l.map Target.nodePub).Nodup) {e : Target}
    (he : e ∈ l) : entryOf l e.nodePub = some e := by
  induction l with
  | nil => cases he
  | cons x l ih =>
      rw [List.map_cons, List.nodup_cons] at h
      rw [entryOf, List.find?_cons]
      rcases List.mem_cons.mp he with rfl | hmem
      · rw [decide_eq_true rfl]
      · have hne : x.nodePub ≠ e.nodePub := fun heq =>
          h.1 (heq ▸ List.mem_map_of_mem hmem)
        rw [decide_eq_false hne]
        exact ih h.2 hmem

/-- In a list without repeated keys at most one target has the key. -/
theorem seenOf_of_nodup {l : List Target} (h : (l.map Target.nodePub).Nodup) (k : Key) :
    seenOf l k = (entryOf l k).toList := by
  induction l with
  | nil => rfl
  | cons x l ih =>
      rw [List.map_cons, List.nodup_cons] at h
      rw [seenOf, entryOf, List.filter_cons, List.find?_cons]
      by_cases hk : x.nodePub = k
      · have hnone : l.filter (fun e => decide (e.nodePub = k)) = [] := by
          rw [List.filter_eq_nil_iff]
          intro e he hdec
          exact h.1 (hk.trans (of_decide_eq_true hdec).symm ▸ List.mem_map_of_mem he)
        rw [decide_eq_true hk, if_pos rfl, hnone]
        rfl
      · rw [decide_eq_false hk, if_neg Bool.false_ne_true]
        exact ih h.2

/-! ## What an entry has of the targets merged into it -/

/-- The entry made of a first target and later ones. -/
def mergedEntry (f : Target) (more : List Target) : Target := more.foldl absorbTarget f

theorem foldl_absorbInto (f : Target) (more : List Target) :
    more.foldl absorbInto (some f) = some (mergedEntry f more) := by
  induction more generalizing f with
  | nil => rfl
  | cons t more ih => exact ih (absorbTarget f t)

theorem mergedEntry_keeps (f : Target) (more : List Target) :
    (mergedEntry f more).discoPub = f.discoPub ∧ (mergedEntry f more).nodePub = f.nodePub := by
  induction more generalizing f with
  | nil => exact ⟨rfl, rfl⟩
  | cons t more ih => exact ih (absorbTarget f t)

theorem mergedEntry_spray (f : Target) (more : List Target) :
    (mergedEntry f more).spray = (f :: more).any Target.spray := by
  induction more generalizing f with
  | nil => simp [mergedEntry]
  | cons t more ih =>
      have hstep : mergedEntry f (t :: more) = mergedEntry (absorbTarget f t) more := rfl
      rw [hstep, ih, List.any_cons, List.any_cons, List.any_cons, ← Bool.or_assoc]
      rfl

theorem mergedEntry_endpoints {f : Target} (h : f.endpoints.Nodup) (more : List Target) :
    (mergedEntry f more).endpoints = ((f :: more).flatMap Target.endpoints).eraseDups := by
  induction more using List.reverseRecOn with
  | nil => rw [List.flatMap_singleton, eraseDups_of_nodup h]; rfl
  | append_singleton more t ih =>
      have hstep : (mergedEntry f (more ++ [t])).endpoints =
          addEndpoints (mergedEntry f more).endpoints t.endpoints := by
        rw [mergedEntry, List.foldl_concat]
        rfl
      rw [hstep, ih, addEndpoints_eraseDups, ← List.cons_append, List.flatMap_append,
        List.flatMap_singleton]

theorem prefix_mergedEntry (f : Target) (more : List Target) :
    f.endpoints <+: (mergedEntry f more).endpoints := by
  induction more generalizing f with
  | nil => exact List.prefix_refl _
  | cons t more ih =>
      exact (prefix_addEndpoints f.endpoints t.endpoints).trans (ih (absorbTarget f t))

/-! ## The freshest view -/

/-- What the list of targets should be after these were received: an entry for
every key seen, in the order of their first arrival, with every endpoint
once in the order of arrival, sprayed if one of them asked for it, and with
the disco key of the last of them. -/
structure FreshestView (init received result : List Target) : Prop where
  keys : result.map Target.nodePub = ((init ++ received).map Target.nodePub).eraseDups
  endpoints : ∀ e ∈ result, e.endpoints =
    ((seenOf (init ++ received) e.nodePub).flatMap Target.endpoints).eraseDups
  spray : ∀ e ∈ result, e.spray = (seenOf (init ++ received) e.nodePub).any Target.spray
  disco : ∀ e ∈ result,
    (seenOf (init ++ received) e.nodePub).getLast?.map Target.discoPub = some e.discoPub

/-- The last target received for a key has the disco key of the first. -/
def DiscoSteady (seen : List Target) : Prop :=
  ∀ k, (seenOf seen k).getLast?.map Target.discoPub = (seenOf seen k).head?.map Target.discoPub

section View

variable {init received : List Target}

/-- Every entry is a first target with the later ones merged into it. -/
theorem entry_merged (h : (init.map Target.nodePub).Nodup) {e : Target}
    (he : e ∈ received.foldl mergeTarget init) :
    ∃ f more, seenOf (init ++ received) e.nodePub = f :: more ∧ e = mergedEntry f more ∧
      (f ∈ init ∨ f ∈ received) := by
  have hnodup : ((received.foldl mergeTarget init).map Target.nodePub).Nodup := by
    rw [keys_foldl h]
    exact nodup_eraseDups _
  have hentry := entryOf_of_mem hnodup he
  rw [entryOf_foldl] at hentry
  have hseen : seenOf (init ++ received) e.nodePub =
      (entryOf init e.nodePub).toList ++ seenOf received e.nodePub := by
    rw [← seenOf_of_nodup h, seenOf, List.filter_append]
    rfl
  cases hinit : entryOf init e.nodePub with
  | some f =>
      rw [hinit, foldl_absorbInto] at hentry
      rw [hinit] at hseen
      exact ⟨f, _, hseen, (Option.some.inj hentry).symm, .inl (List.mem_of_find?_eq_some hinit)⟩
  | none =>
      rw [hinit] at hentry hseen
      cases hrec : seenOf received e.nodePub with
      | nil =>
          rw [hrec] at hentry
          cases hentry
      | cons f more =>
          have hmem : f ∈ seenOf received e.nodePub := by rw [hrec]; exact List.mem_cons_self
          rw [hrec, List.foldl_cons] at hentry
          rw [hrec] at hseen
          refine ⟨f, more, hseen, ?_, .inr (List.mem_of_mem_filter hmem)⟩
          exact (Option.some.inj ((foldl_absorbInto f more).symm.trans hentry)).symm

/-- No target is lost. -/
theorem exists_entry (h : (init.map Target.nodePub).Nodup) {t : Target}
    (ht : t ∈ init ++ received) :
    ∃ e ∈ received.foldl mergeTarget init, e.nodePub = t.nodePub := by
  have hkey : t.nodePub ∈ (received.foldl mergeTarget init).map Target.nodePub := by
    rw [keys_foldl h, List.mem_eraseDups]
    exact List.mem_map_of_mem ht
  obtain ⟨e, he, heq⟩ := List.mem_map.mp hkey
  exact ⟨e, he, heq⟩

/-- The merged list is the freshest view exactly if the initial targets have
no endpoint twice and no peer's disco key changed. -/
theorem freshestView_iff (h : (init.map Target.nodePub).Nodup)
    (hrec : ∀ t ∈ received, t.endpoints.Nodup) :
    FreshestView init received (received.foldl mergeTarget init) ↔
      (∀ t ∈ init, t.endpoints.Nodup) ∧ DiscoSteady (init ++ received) := by
  refine ⟨?_, ?_⟩
  · intro hview
    refine ⟨?_, ?_⟩
    · intro t ht
      obtain ⟨e, he, hkey⟩ := exists_entry h (List.mem_append_left received ht)
      obtain ⟨f, more, hseen, hmerged, -⟩ := entry_merged h he
      have hfirst : seenOf (init ++ received) e.nodePub = t :: seenOf received t.nodePub := by
        rw [hkey, seenOf, List.filter_append, ← seenOf, seenOf_of_nodup h, entryOf_of_mem h ht]
        rfl
      obtain ⟨rfl, -⟩ := List.cons.inj (hseen.symm.trans hfirst)
      have hnodup : e.endpoints.Nodup := by
        rw [hview.endpoints e he]
        exact nodup_eraseDups _
      rw [hmerged] at hnodup
      exact hnodup.sublist (prefix_mergedEntry f more).sublist
    · intro k
      cases hk : seenOf (init ++ received) k with
      | nil => rfl
      | cons g rest =>
          have hg : g ∈ seenOf (init ++ received) k := by rw [hk]; exact List.mem_cons_self
          obtain ⟨hmem, hgk⟩ := List.mem_filter.mp hg
          obtain ⟨e, he, hkey⟩ := exists_entry h hmem
          obtain rfl : e.nodePub = k := hkey.trans (of_decide_eq_true hgk)
          obtain ⟨f, more, hseen, hmerged, -⟩ := entry_merged h he
          have hlast := hview.disco e he
          rw [hseen] at hk
          cases hk
          rw [hseen] at hlast
          rw [hlast, hmerged, (mergedEntry_keeps g rest).1]
          rfl
  · rintro ⟨hinit, hsteady⟩
    refine ⟨keys_foldl h received, ?_, ?_, ?_⟩
    · intro e he
      obtain ⟨f, more, hseen, hmerged, hf⟩ := entry_merged h he
      rw [hseen, hmerged]
      exact mergedEntry_endpoints (hf.elim (hinit f) (hrec f)) more
    · intro e he
      obtain ⟨f, more, hseen, hmerged, -⟩ := entry_merged h he
      rw [hseen, hmerged]
      exact mergedEntry_spray f more
    · intro e he
      obtain ⟨f, more, hseen, hmerged, -⟩ := entry_merged h he
      rw [hsteady e.nodePub, hseen, hmerged, (mergedEntry_keeps f more).1]
      rfl

end View

/-! ## Runs of the node -/

/-- The targets that arrive on the channel with an input. -/
def targetsReceived : Input → List Target
  | .periodic _ hk _ => hk.incoming
  | .packet .. => []
  | .process .. => []
  | .drain _ => []

/-- Only the periodic step changes the targets. -/
theorem targets_step {H : Host} {s t : NodeState} {ev : Input} (h : H.Steps s ev t) :
    t.lp.targets = (targetsReceived ev).foldl mergeTarget s.lp.targets := by
  subst h
  cases ev with
  | periodic tick hk stunAddr =>
      exact (runPeriodic_spec H.crypto H.features hk H.identity s.st s.lp tick stunAddr).2.1
  | packet tick pkt src env => rfl
  | process tick pkt src env => rfl
  | drain payloads => rfl

theorem targets_run {H : Host} {s t : NodeState} {evs : List Input} (h : Run H.Steps s evs t) :
    t.lp.targets = (evs.flatMap targetsReceived).foldl mergeTarget s.lp.targets := by
  induction h with
  | nil => rfl
  | cons hstep _ ih => rw [ih, targets_step hstep, List.flatMap_cons, List.foldl_append]

/-- Along every run of the node, whatever it receives in between: the targets
are the freshest view of those it started with and those it received, if and
only if it started without repeated endpoints and no disco key changed. -/
theorem targets_freshest_iff (H : Host) (s t : NodeState) (evs : List Input)
    (hrun : Run H.Steps s evs t) (h : (s.lp.targets.map Target.nodePub).Nodup)
    (hrec : ∀ x ∈ evs.flatMap targetsReceived, x.endpoints.Nodup) :
    FreshestView s.lp.targets (evs.flatMap targetsReceived) t.lp.targets ↔
      (∀ x ∈ s.lp.targets, x.endpoints.Nodup) ∧
      ∀ k, (seenOf (s.lp.targets ++ evs.flatMap targetsReceived) k).getLast?.map Target.discoPub =
        (seenOf (s.lp.targets ++ evs.flatMap targetsReceived) k).head?.map Target.discoPub := by
  rw [targets_run hrun]
  exact freshestView_iff h hrec

/-- A peer under this disco key. -/
def peerTarget (disco : UInt8) : Target where
  name := "peer"
  discoPub := byteKey disco
  nodePub := byteKey 1
  endpoints := [lanAddr 5]
  spray := false

def soloKnowing : NodeState := { soloStart with lp.targets := [peerTarget 2] }

/-- The periodic step finds this target on the channel. -/
def targetArrives (t : Target) : Input :=
  .periodic 0 { probeDue with now := 0, incoming := [t] } none

/-- The peer comes back with another disco key. -/
theorem changed_disco_is_lost :
    ∃ t, Run solo.Steps soloKnowing [targetArrives (peerTarget 3)] t ∧
      (soloKnowing.lp.targets.map Target.nodePub).Nodup ∧
      (∀ x ∈ soloKnowing.lp.targets ++ [targetArrives (peerTarget 3)].flatMap targetsReceived,
        x.endpoints.Nodup) ∧
      ¬FreshestView soloKnowing.lp.targets ([targetArrives (peerTarget 3)].flatMap targetsReceived)
        t.lp.targets := by
  have hrun := solo.run_after soloKnowing [targetArrives (peerTarget 3)]
  have hkeys : (soloKnowing.lp.targets.map Target.nodePub).Nodup := List.nodup_singleton _
  refine ⟨_, hrun, hkeys, ?_, ?_⟩
  · intro x hx
    have hpeer : x.endpoints = [lanAddr 5] := by
      rcases List.mem_cons.mp hx with rfl | hx
      · rfl
      · rw [List.mem_singleton.mp hx]
        rfl
    rw [hpeer]
    exact List.nodup_singleton _
  · intro hview
    rw [targets_run hrun] at hview
    have hrec : ∀ x ∈ [targetArrives (peerTarget 3)].flatMap targetsReceived,
        x.endpoints.Nodup := by
      intro x hx
      rw [List.mem_singleton.mp hx]
      exact List.nodup_singleton _
    have hsteady := ((freshestView_iff hkeys hrec).mp hview).2 (byteKey 1)
    exact absurd hsteady (by decide)

/-- Those with one node key have one disco key. -/
private theorem steady_of_same_disco {l : List Target} {k : Key}
    (h : ∀ x ∈ l, ∀ y ∈ l, x.nodePub = y.nodePub → x.discoPub = y.discoPub) :
    (seenOf l k).getLast?.map Target.discoPub = (seenOf l k).head?.map Target.discoPub := by
  cases hseen : seenOf l k with
  | nil => rfl
  | cons x rest =>
      have hof : ∀ y ∈ x :: rest, y ∈ l ∧ y.nodePub = k := by
        intro y hy
        rw [← hseen] at hy
        exact ⟨List.mem_of_mem_filter hy, of_decide_eq_true (List.mem_filter.mp hy).2⟩
      obtain ⟨hx, hxk⟩ := hof x List.mem_cons_self
      obtain ⟨hlast, hlastk⟩ := hof _ (List.getLast_mem (List.cons_ne_nil x rest))
      rw [List.getLast?_eq_getLast_of_ne_nil (List.cons_ne_nil x rest)]
      exact congrArg some (h _ hlast _ hx (hlastk.trans hxk.symm))

/-- The peer is heard of with another endpoint, and somebody else. -/
private def news : List Target :=
  [{ peerTarget 2 with endpoints := [lanAddr 6, lanAddr 5] },
    { peerTarget 4 with nodePub := byteKey 9, endpoints := [lanAddr 7] }]

theorem targets_freshest_same_disco :
    ∃ t, Run solo.Steps soloKnowing (news.map targetArrives) t ∧
      FreshestView soloKnowing.lp.targets ((news.map targetArrives).flatMap targetsReceived)
        t.lp.targets ∧
      t.lp.targets.map Target.endpoints = [[lanAddr 5, lanAddr 6], [lanAddr 7]] := by
  have hrun := solo.run_after soloKnowing (news.map targetArrives)
  refine ⟨_, hrun, (targets_freshest_iff solo soloKnowing _ _ hrun (List.nodup_singleton _)
    (by decide)).mpr ⟨by decide, fun k => steady_of_same_disco (by decide)⟩, ?_⟩
  rw [targets_run hrun]
  decide

end TailscaleRust.Proofs
