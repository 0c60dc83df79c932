import TailscaleRust.Firmware.Startup
import TailscaleRust.Lib.Run

/-!
# One identity over all boots

A node keeps its address in the tailnet because it keeps its keys. Whatever
the store does between and during the boots, and wherever a boot fails, a
name that holds 32 bytes is only ever read again. So the three keys can come
from different boots, of which all but the last failed, but once a boot has
returned keys, every later boot that returns any returns the same.
-/

namespace TailscaleRust.Proofs.KeyStore

open TailscaleRust.Lib TailscaleRust.Core TailscaleRust.Core.Wg
open TailscaleRust.Firmware TailscaleRust.Firmware.Keys

/-- A private key is stored under a name. -/
def Holds {S : Type} (N : Nvs S) (s : S) (name : String) (k : Key) : Prop :=
  N.content s name = some k.1

/-- So is the private key of a pair, and the public key is its own. -/
structure Keeps {S : Type} (N : Nvs S) (C : Crypto) (s : S) (name : String) (kp : Keypair) :
    Prop where
  holds : Holds N s name kp.privateKey
  derived : kp = Keypair.fromPrivate C kp.privateKey

/-- The store has the keys of the node. -/
structure Stored {S : Type} (N : Nvs S) (C : Crypto) (s : S) (keys : NodeKeys) : Prop where
  machine : Keeps N C s "k_machine" keys.machine
  node : Keeps N C s "k_node" keys.node
  disco : Keeps N C s "k_disco" keys.disco

section Load

variable {S : Type} {N : Nvs S} {C : Crypto} {s s' : S}

theorem Keeps.unique {name : String} {kp kp' : Keypair} (h : Keeps N C s name kp)
    (h' : Keeps N C s name kp') : kp = kp' := by
  have hkey : kp.privateKey = kp'.privateKey :=
    Subtype.ext (Option.some.inj (h.holds.symm.trans h'.holds))
  rw [h.derived, h'.derived, hkey]

/-- What is stored determines the keys. -/
theorem Stored.unique {keys keys' : NodeKeys} (h : Stored N C s keys)
    (h' : Stored N C s keys') : keys = keys' := by
  obtain ⟨machine, node, disco⟩ := keys
  obtain ⟨machine', node', disco'⟩ := keys'
  rw [NodeKeys.mk.injEq]
  exact ⟨h.machine.unique h'.machine, h.node.unique h'.node, h.disco.unique h'.disco⟩

/-- The store still has every key it had, whatever name it is under. -/
def Kept (N : Nvs S) (s s' : S) : Prop := ∀ name k, Holds N s name k → Holds N s' name k

theorem Keeps.later {name : String} {kp : Keypair} (h : Keeps N C s name kp)
    (hkept : Kept N s s') : Keeps N C s' name kp :=
  ⟨hkept name _ h.holds, h.derived⟩

theorem Stored.later {keys : NodeKeys} (h : Stored N C s keys) (hkept : Kept N s s') :
    Stored N C s' keys :=
  ⟨h.machine.later hkept, h.node.later hkept, h.disco.later hkept⟩

theorem Kept.trans {s'' : S} (h : Kept N s s') (h' : Kept N s' s'') : Kept N s s'' :=
  fun name k hk => h' name k (h name k hk)

theorem kept_of_content (h : N.content s' = N.content s) : Kept N s s' := by
  intro name k hk
  rw [Holds, h]
  exact hk

variable (hN : N.Lawful)
include hN

/-- Making a key writes under its own name only, and what it returns is stored. -/
theorem makeKey_spec {random : Key} {name : String} {r : Except String Keypair}
    (h : makeKey N C random s name = (s', r)) :
    (∀ name', name' ≠ name → N.content s' name' = N.content s name') ∧
    ∀ kp, r = .ok kp → Keeps N C s' name kp := by
  have hother := hN.set_other s name random.1
  rw [makeKey] at h
  split at h
  · next s₁ e hset =>
      cases h
      rw [hset] at hother
      exact ⟨hother, fun kp hkp => by cases hkp⟩
  · next s₁ hset =>
      cases h
      have hwritten := hN.set_ok s name random.1 (by rw [hset])
      rw [hset] at hother hwritten
      refine ⟨hother, fun kp hkp => ?_⟩
      cases hkp
      exact ⟨hwritten, rfl⟩

/-- A key is made only where there is none. -/
theorem makeKey_kept {s₁ : S} {random : Key} {name : String} {r : Except String Keypair}
    (hsame : N.content s₁ = N.content s) (hnone : ∀ k, ¬Holds N s name k)
    (h : makeKey N C random s₁ name = (s', r)) :
    Kept N s s' ∧ ∀ kp, r = .ok kp → Keeps N C s' name kp := by
  obtain ⟨hother, hok⟩ := makeKey_spec hN h
  refine ⟨fun name' k hk => ?_, hok⟩
  have hne : name' ≠ name := fun heq => hnone k (heq ▸ hk)
  rw [Holds, hother name' hne, hsame]
  exact hk

/-- Loading a key changes what is under its name only if this is no key, and
returns what is stored there in the end. -/
theorem loadOrMake_spec {random : Key} {name : String} {r : Except String Keypair}
    (h : loadOrMake N C random s name = (s', r)) :
    Kept N s s' ∧ ∀ kp, r = .ok kp → Keeps N C s' name kp := by
  have hsame : N.content (N.getBlob s name 32).1 = N.content s := hN.get_content s name 32
  have hread := hN.get_ok s name 32
  rw [loadOrMake] at h
  split at h
  · next s₁ e hget =>
      cases h
      rw [hget] at hsame
      exact ⟨kept_of_content hsame, fun kp hkp => by cases hkp⟩
  · next s₁ hget =>
      rw [hget] at hsame hread
      refine makeKey_kept hN hsame (fun k hk => ?_) h
      rw [Holds, ← hread none rfl] at hk
      cases hk
  · next s₁ blob hget =>
      rw [hget] at hsame hread
      have hblob := hread (some blob) rfl
      split at h
      · next k hk =>
          cases h
          rw [tryInto] at hk
          obtain ⟨hlen, hk⟩ := Option.dite_none_right_eq_some.mp hk
          refine ⟨kept_of_content hsame, fun kp hkp => ?_⟩
          cases hkp
          refine ⟨?_, rfl⟩
          rw [Holds, hsame, ← hblob, ← Option.some.inj hk]
          rfl
      · next hlen =>
          refine makeKey_kept hN hsame (fun k hk => ?_) h
          rw [Holds, ← hblob] at hk
          rw [Option.some.inj hk, tryInto_val] at hlen
          cases hlen

/-- A boot loses no key, and the keys it returns are stored. -/
theorem loadOrGenerate_spec {draws : BootDraws} {r : Except String NodeKeys}
    (h : loadOrGenerate N C draws s = (s', r)) :
    Kept N s s' ∧ ∀ keys, r = .ok keys → Stored N C s' keys := by
  have hopen : N.content (N.openNs s).1 = N.content s := hN.open_content s
  have hfailed : ∀ e, (Except.error e : Except String NodeKeys) = r →
      ∀ keys, r = .ok keys → Stored N C s' keys := by
    rintro e rfl keys hkeys
    cases hkeys
  rw [loadOrGenerate] at h
  split at h
  · next s₁ e hns =>
      cases h
      rw [hns] at hopen
      exact ⟨kept_of_content hopen, hfailed _ rfl⟩
  · next s₁ hns =>
      rw [hns] at hopen
      have hk₁ := kept_of_content hopen
      split at h
      · next s₂ e hm =>
          cases h
          obtain ⟨hk₂, -⟩ := loadOrMake_spec hN hm
          exact ⟨hk₁.trans hk₂, hfailed _ rfl⟩
      · next s₂ machine hm =>
          obtain ⟨hk₂, hmachine⟩ := loadOrMake_spec hN hm
          split at h
          · next s₃ e hn =>
              cases h
              obtain ⟨hk₃, -⟩ := loadOrMake_spec hN hn
              exact ⟨(hk₁.trans hk₂).trans hk₃, hfailed _ rfl⟩
          · next s₃ node hn =>
              obtain ⟨hk₃, hnode⟩ := loadOrMake_spec hN hn
              split at h
              · next s₄ e hd =>
                  cases h
                  obtain ⟨hk₄, -⟩ := loadOrMake_spec hN hd
                  exact ⟨((hk₁.trans hk₂).trans hk₃).trans hk₄, hfailed _ rfl⟩
              · next s₄ disco hd =>
                  cases h
                  obtain ⟨hk₄, hdisco⟩ := loadOrMake_spec hN hd
                  refine ⟨((hk₁.trans hk₂).trans hk₃).trans hk₄, fun keys hkeys => ?_⟩
                  cases hkeys
                  exact ⟨(hmachine machine rfl).later (hk₃.trans hk₄),
                    (hnode node rfl).later hk₄, hdisco disco rfl⟩

theorem boots_spec {boot : BootDraws × Except String NodeKeys} (h : Boots N C s boot s') :
    Kept N s s' ∧ ∀ keys, boot.2 = .ok keys → Stored N C s' keys := by
  obtain ⟨up, hup, hload⟩ := h
  obtain ⟨hkept, hok⟩ := loadOrGenerate_spec hN hload
  exact ⟨(kept_of_content hup).trans hkept, hok⟩

/-- The keys that any of the boots so far returned are in the store. -/
theorem boots_run {boots : List (BootDraws × Except String NodeKeys)}
    (hrun : Run (Boots N C) s boots s') :
    ∀ boot ∈ boots, ∀ keys, boot.2 = .ok keys → Stored N C s' keys := by
  refine hrun.history (P := fun past t => ∀ boot ∈ past, ∀ keys, boot.2 = .ok keys →
    Stored N C t keys) (fun boot hboot => absurd hboot List.not_mem_nil) ?_
  intro past t boot t' hpast hstep b hb keys hkeys
  obtain ⟨hkept, hok⟩ := boots_spec hN hstep
  rcases List.mem_append.mp hb with hb | hb
  · exact (hpast b hb keys hkeys).later hkept
  · rw [List.mem_singleton.mp hb] at hkeys
    exact hok keys hkeys

end Load

/-- Over any number of boots with a store that keeps what it confirmed,
whichever operations fail: all boots that return keys return the same, and the
identity that the data plane and the relay client are given has the public keys
of its private keys. -/
theorem identity_persists {S : Type} (N : Nvs S) (C : Crypto) (s s' : S)
    (boots : List (BootDraws × Except String NodeKeys)) (allowedSrcs : Option (List Peers.Cidr))
    (hN : N.Lawful) (hrun : Run (Boots N C) s boots s') :
    (∀ b₁ ∈ boots, ∀ b₂ ∈ boots, ∀ keys₁ keys₂, b₁.2 = .ok keys₁ → b₂.2 = .ok keys₂ →
      keys₁ = keys₂) ∧
    ∀ b ∈ boots, ∀ keys, b.2 = .ok keys →
      let id := Startup.identityOf keys allowedSrcs
      id.nodePub = pubkey C id.nodePriv ∧ id.discoPub = pubkey C id.discoPriv := by
  have hstored := boots_run hN hrun
  refine ⟨fun b₁ h₁ b₂ h₂ keys₁ keys₂ hok₁ hok₂ => ?_, fun b hb keys hok => ?_⟩
  · exact (hstored b₁ h₁ keys₁ hok₁).unique (hstored b₂ h₂ keys₂ hok₂)
  · have hkeys := hstored b hb keys hok
    exact ⟨congrArg Keypair.publicKey hkeys.node.derived,
      congrArg Keypair.publicKey hkeys.disco.derived⟩

/-! A store in memory, and two boots that draw different keys. -/

private def memNvs : Nvs (String → Option Bytes) where
  content s := s
  openNs s := (s, .ok ())
  getBlob s key n := (s,
    match s key with
    | some b => if b.length ≤ n then .ok (some b) else .error "invalid length"
    | none => .ok none)
  setBlob s key b := (Function.update s key (some b), .ok ())

private theorem memNvs_lawful : memNvs.Lawful where
  open_content _ := rfl
  get_content _ _ _ := rfl
  get_ok s key n r h := by
    simp only [memNvs] at h
    split at h
    · next b hb =>
        split at h
        · cases h
          exact hb.symm
        · cases h
    · next hnone =>
        cases h
        exact hnone.symm
  set_ok s key b _ := Function.update_self ..
  set_failed s key b := .inl (Function.update_self ..)
  set_other s key b key' hne := Function.update_of_ne hne ..

private def drawAll (b : UInt8) : BootDraws := ⟨byteKey b, byteKey b, byteKey b⟩

theorem identity_persists_two_boots :
    ∃ (s' : String → Option Bytes) (keys₁ keys₂ : NodeKeys),
      Run (Boots memNvs transparent) (fun _ => none)
        [(drawAll 1, .ok keys₁), (drawAll 2, .ok keys₂)] s' ∧ keys₁ = keys₂ := by
  let first := loadOrGenerate memNvs transparent (drawAll 1) fun _ => none
  let second := loadOrGenerate memNvs transparent (drawAll 2) first.1
  obtain ⟨keys₁, h₁⟩ : ∃ keys, first.2 = .ok keys := ⟨_, rfl⟩
  obtain ⟨keys₂, h₂⟩ : ∃ keys, second.2 = .ok keys := ⟨_, rfl⟩
  have hrun : Run (Boots memNvs transparent) (fun _ => none)
      [(drawAll 1, .ok keys₁), (drawAll 2, .ok keys₂)] second.1 := by
    have hboot₁ : Boots memNvs transparent (fun _ => none) (drawAll 1, .ok keys₁) first.1 :=
      ⟨_, rfl, Prod.ext rfl h₁⟩
    have hboot₂ : Boots memNvs transparent first.1 (drawAll 2, .ok keys₂) second.1 :=
      ⟨_, rfl, Prod.ext rfl h₂⟩
    exact .cons hboot₁ (.cons hboot₂ .nil)
  refine ⟨second.1, keys₁, keys₂, hrun, ?_⟩
  exact (identity_persists memNvs transparent _ _ _ none memNvs_lawful hrun).1 _
    List.mem_cons_self _ (List.mem_cons_of_mem _ List.mem_cons_self) keys₁ keys₂ rfl rfl

end TailscaleRust.Proofs.KeyStore
