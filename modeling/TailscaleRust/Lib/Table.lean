import Mathlib.Data.List.Nodup
import Mathlib.Data.List.Perm.Subperm

/-!
# Finite tables

A hash map as a list of entries with distinct keys. The order of the list
stands for the order in which the map would be iterated; no operation
promises anything about it.

Every operation that keeps, drops or rewrites entries in place is an
instance of `filterMap`, which decides for each entry on its own. Only
`insert` adds a key. Two lookup lemmas, one for `filterMap` and one for
`insert`, therefore cover all of them.
-/

namespace TailscaleRust.Lib

structure Table (K V : Type) where
  entries : List (K × V)
  nodup : (entries.map Prod.fst).Nodup

namespace Table

variable {K V W : Type}

def empty : Table K V := ⟨[], List.nodup_nil⟩

/-- The number of entries, `len`. -/
def size (t : Table K V) : Nat := t.entries.length

def values (t : Table K V) : List V := t.entries.map Prod.snd

/-- The first entry that satisfies the predicate, `iter().find`. -/
def find? (t : Table K V) (p : K → V → Bool) : Option (K × V) :=
  t.entries.find? fun e => p e.1 e.2

/-- Does every entry satisfy the predicate? -/
def all (t : Table K V) (p : K → V → Bool) : Bool := t.entries.all fun e => p e.1 e.2

theorem nodup_filterMap {l : List (K × V)} {f : K → V → Option W}
    (h : (l.map Prod.fst).Nodup) :
    ((l.filterMap fun e => (f e.1 e.2).map fun w => (e.1, w)).map Prod.fst).Nodup := by
  have hsub : ∀ l : List (K × V), List.Sublist
      ((l.filterMap fun e => (f e.1 e.2).map fun w => (e.1, w)).map Prod.fst)
      (l.map Prod.fst) := by
    intro l
    induction l with
    | nil => exact List.Sublist.slnil
    | cons e l ih =>
        cases hf : f e.1 e.2 with
        | none => simpa [hf] using ih.cons e.1
        | some w => simpa [hf] using ih.cons_cons e.1
  exact List.Nodup.sublist (hsub l) h

theorem nodup_insert {l : List (K × V)} {k : K} {v : V}
    (h : (l.map Prod.fst).Nodup) (hk : k ∉ l.map Prod.fst) :
    ((l ++ [(k, v)]).map Prod.fst).Nodup := by
  rw [List.map_append, List.map_singleton]
  refine List.nodup_append.mpr ⟨h, List.nodup_singleton k, ?_⟩
  intro a ha b hb hab
  rw [hab, List.mem_singleton.mp hb] at ha
  exact hk ha

/-- Decide for each entry on its own whether it stays and with what value. -/
def filterMap (t : Table K V) (f : K → V → Option W) : Table K W :=
  ⟨t.entries.filterMap fun e => (f e.1 e.2).map fun w => (e.1, w),
    nodup_filterMap t.nodup⟩

/-- `retain`. -/
def retain (t : Table K V) (p : K → V → Bool) : Table K V :=
  t.filterMap fun k v => if p k v then some v else none

/-- Rewrite every value, `values_mut`. -/
def mapValues (t : Table K V) (f : V → W) : Table K W :=
  t.filterMap fun _ v => some (f v)

/-! ## Rewritten values -/

theorem eq_of_entries {t t' : Table K V} (h : t.entries = t'.entries) : t = t' := by
  cases t
  cases t'
  cases h
  rfl

theorem entries_mapValues (t : Table K V) (f : V → W) :
    (t.mapValues f).entries = t.entries.map fun e => (e.1, f e.2) := by
  show t.entries.filterMap (fun e => some (e.1, f e.2)) = _
  rw [List.filterMap_eq_map']

theorem find?_mapValues (t : Table K V) (f : V → W) (p : K → W → Bool) :
    (t.mapValues f).find? p =
      (t.find? fun k v => p k (f v)).map fun e => (e.1, f e.2) := by
  rw [find?, entries_mapValues, List.find?_map]
  rfl

theorem filterMap_mapValues {X : Type} (t : Table K V) (f : V → W) (g : K → W → Option X) :
    (t.mapValues f).filterMap g = t.filterMap fun k v => g k (f v) := by
  apply eq_of_entries
  show (t.mapValues f).entries.filterMap _ = _
  rw [entries_mapValues, List.filterMap_map]
  rfl

theorem mapValues_filterMap {X : Type} (t : Table K V) (g : K → V → Option W) (f : W → X) :
    (t.filterMap g).mapValues f = t.filterMap fun k v => (g k v).map f := by
  apply eq_of_entries
  rw [entries_mapValues]
  show (t.entries.filterMap _).map _ = t.entries.filterMap _
  rw [List.map_filterMap]
  apply List.filterMap_congr
  intro e _
  rw [Option.map_map, Option.map_map]
  rfl

theorem mapValues_mapValues {X : Type} (t : Table K V) (f : V → W) (g : W → X) :
    (t.mapValues f).mapValues g = t.mapValues fun v => g (f v) := by
  rw [mapValues, filterMap_mapValues]
  rfl

section Keyed

variable [DecidableEq K]

def get? (t : Table K V) (k : K) : Option V :=
  (t.entries.find? fun e => e.1 = k).map Prod.snd

def contains (t : Table K V) (k : K) : Bool := (t.get? k).isSome

/-- `remove`. -/
def erase (t : Table K V) (k : K) : Table K V :=
  t.filterMap fun k' v => if k' = k then none else some v

/-- Update the value under one key, `get_mut`. -/
def modify (t : Table K V) (k : K) (f : V → V) : Table K V :=
  t.filterMap fun k' v => some (if k' = k then f v else v)

theorem not_mem_keys_erase (t : Table K V) (k : K) :
    k ∉ (t.erase k).entries.map Prod.fst := by
  intro h
  obtain ⟨e, he, hk⟩ := List.mem_map.mp h
  obtain ⟨e', -, he'⟩ := List.mem_filterMap.mp he
  by_cases hk' : e'.1 = k
  · simp [hk'] at he'
  · simp only [hk', if_false, Option.map_some, Option.some.injEq] at he'
    exact hk' (by rw [← hk, ← he'])

/-- `insert`: an existing entry under the key is replaced. -/
def insert (t : Table K V) (k : K) (v : V) : Table K V :=
  ⟨(t.erase k).entries ++ [(k, v)],
    nodup_insert (t.erase k).nodup (not_mem_keys_erase t k)⟩

/-! ## Lookups -/

theorem mem_entries_iff {t : Table K V} {k : K} {v : V} :
    (k, v) ∈ t.entries ↔ t.get? k = some v := by
  obtain ⟨l, h⟩ := t
  simp only [get?]
  induction l with
  | nil => simp
  | cons e l ih =>
      rw [List.map_cons, List.nodup_cons] at h
      rw [List.mem_cons, List.find?_cons]
      by_cases hk : e.1 = k
      · simp only [hk, decide_true, Option.map_some, Option.some.injEq]
        refine ⟨?_, ?_⟩
        · intro hor
          rcases hor with rfl | hmem
          · rfl
          · exact absurd (List.mem_map_of_mem hmem) (hk ▸ h.1)
        · intro heq
          subst heq
          exact .inl (Prod.ext hk.symm rfl)
      · simp only [hk, decide_false]
        rw [← ih h.2]
        refine ⟨?_, ?_⟩
        · intro hor
          rcases hor with rfl | hmem
          · exact absurd rfl hk
          · exact hmem
        · exact .inr

@[simp] theorem get?_empty (k : K) : (empty : Table K V).get? k = none := rfl

@[simp] theorem get?_filterMap (t : Table K V) (f : K → V → Option W) (k : K) :
    (t.filterMap f).get? k = (t.get? k).bind (f k) := by
  apply Option.ext
  intro w
  rw [← mem_entries_iff, Option.bind_eq_some_iff]
  simp only [← mem_entries_iff, filterMap, List.mem_filterMap]
  refine ⟨?_, ?_⟩
  · intro hfound
    obtain ⟨⟨k', v⟩, hmem, hf⟩ := hfound
    obtain ⟨w', hw', heq⟩ := Option.map_eq_some_iff.mp hf
    cases heq
    exact ⟨v, hmem, hw'⟩
  · intro hfound
    obtain ⟨v, hmem, hf⟩ := hfound
    exact ⟨(k, v), hmem, by rw [hf]; rfl⟩

@[simp] theorem get?_retain (t : Table K V) (p : K → V → Bool) (k : K) :
    (t.retain p).get? k = (t.get? k).filter (p k) := by
  rw [retain, get?_filterMap]
  cases t.get? k with
  | none => rfl
  | some v => simp [Option.filter]

@[simp] theorem get?_mapValues (t : Table K V) (f : V → W) (k : K) :
    (t.mapValues f).get? k = (t.get? k).map f := by
  rw [mapValues, get?_filterMap]
  cases t.get? k <;> rfl

@[simp] theorem get?_erase (t : Table K V) (k k' : K) :
    (t.erase k).get? k' = if k' = k then none else t.get? k' := by
  rw [erase, get?_filterMap]
  cases t.get? k' <;> simp

@[simp] theorem get?_modify (t : Table K V) (k k' : K) (f : V → V) :
    (t.modify k f).get? k' = if k' = k then (t.get? k').map f else t.get? k' := by
  rw [modify, get?_filterMap]
  cases t.get? k' <;> simp
  split <;> rfl

@[simp] theorem get?_insert (t : Table K V) (k k' : K) (v : V) :
    (t.insert k v).get? k' = if k' = k then some v else t.get? k' := by
  apply Option.ext
  intro w
  rw [← mem_entries_iff, insert, List.mem_append, mem_entries_iff, get?_erase,
    List.mem_singleton]
  split
  · next h =>
      subst h
      simp [eq_comm]
  · next h => simp [h]

/-- Only the value that is there is looked at. -/
theorem modify_congr {t : Table K V} {k : K} {f g : V → V}
    (h : ∀ v, t.get? k = some v → f v = g v) : t.modify k f = t.modify k g := by
  have hall : t.entries.filterMap (fun e =>
      (some (if e.1 = k then f e.2 else e.2)).map fun w => (e.1, w)) =
      t.entries.filterMap (fun e =>
        (some (if e.1 = k then g e.2 else e.2)).map fun w => (e.1, w)) := by
    apply List.filterMap_congr
    intro e he
    split
    · next hk => rw [h e.2 (hk ▸ mem_entries_iff.mp he)]
    · rfl
  simp only [modify, filterMap]
  congr 1

theorem modify_eq_self {t : Table K V} {k : K} {f : V → V}
    (h : ∀ v, t.get? k = some v → f v = v) : t.modify k f = t := by
  have hid : t.modify k (fun v => v) = t := by
    simp only [modify, filterMap, ite_self, Option.map_some]
    obtain ⟨l, hl⟩ := t
    congr 1
    exact List.filterMap_some
  rw [modify_congr h, hid]

theorem modify_modify (t : Table K V) (k : K) (f g : V → V) :
    (t.modify k f).modify k g = t.modify k fun v => g (f v) := by
  simp only [modify, filterMap]
  congr 1
  rw [List.filterMap_filterMap]
  apply List.filterMap_congr
  intro e _
  simp only [Option.map_some, Option.bind_some]
  split
  · rfl
  · rfl

/-! ## Searches -/

theorem find?_some {t : Table K V} {p : K → V → Bool} {k : K} {v : V}
    (h : t.find? p = some (k, v)) : t.get? k = some v ∧ p k v = true :=
  ⟨mem_entries_iff.mp (List.mem_of_find?_eq_some h), by simpa using List.find?_some h⟩

theorem find?_none {t : Table K V} {p : K → V → Bool} (h : t.find? p = none)
    {k : K} {v : V} (hk : t.get? k = some v) : p k v = false := by
  have := List.find?_eq_none.mp h (k, v) (mem_entries_iff.mpr hk)
  simpa using this

theorem all_iff {t : Table K V} {p : K → V → Bool} :
    t.all p = true ↔ ∀ k v, t.get? k = some v → p k v = true := by
  rw [all, List.all_eq_true]
  refine ⟨?_, ?_⟩
  · intro hall k v hk
    exact hall (k, v) (mem_entries_iff.mpr hk)
  · intro hall e he
    exact hall e.1 e.2 (mem_entries_iff.mp he)

theorem any_values_iff {t : Table K V} {p : V → Bool} :
    t.values.any p = true ↔ ∃ k v, t.get? k = some v ∧ p v = true := by
  rw [values, List.any_map, List.any_eq_true]
  refine ⟨?_, ?_⟩
  · intro hfound
    obtain ⟨⟨k, v⟩, hmem, hp⟩ := hfound
    exact ⟨k, v, mem_entries_iff.mp hmem, hp⟩
  · intro hfound
    obtain ⟨k, v, hk, hp⟩ := hfound
    exact ⟨(k, v), mem_entries_iff.mpr hk, hp⟩

/-! ## Rewritten values, by key -/

theorem erase_mapValues (t : Table K V) (f : V → W) (k : K) :
    (t.mapValues f).erase k = (t.erase k).mapValues f := by
  rw [erase, filterMap_mapValues, erase, mapValues_filterMap]
  congr 1
  funext k' v
  split
  · rfl
  · rfl

theorem insert_mapValues (t : Table K V) (f : V → W) (k : K) (v : V) :
    (t.mapValues f).insert k (f v) = (t.insert k v).mapValues f := by
  apply eq_of_entries
  rw [entries_mapValues]
  show ((t.mapValues f).erase k).entries ++ _ = ((t.erase k).entries ++ _).map _
  rw [erase_mapValues, entries_mapValues, List.map_append]
  rfl

/-! ## Sizes -/

theorem contains_iff_exists {t : Table K V} {k : K} :
    t.contains k = true ↔ ∃ v, t.get? k = some v :=
  Option.isSome_iff_exists

theorem get?_eq_none_iff {t : Table K V} {k : K} : t.get? k = none ↔ t.contains k = false := by
  rw [contains, ← Bool.not_eq_true, Option.not_isSome_iff_eq_none]

theorem mem_keys_iff {t : Table K V} {k : K} :
    k ∈ t.entries.map Prod.fst ↔ t.contains k = true := by
  rw [contains_iff_exists, List.mem_map]
  refine ⟨?_, ?_⟩
  · intro hmem
    obtain ⟨⟨k', v⟩, hmem, rfl⟩ := hmem
    exact ⟨v, mem_entries_iff.mp hmem⟩
  · intro hget
    obtain ⟨v, hv⟩ := hget
    exact ⟨(k, v), mem_entries_iff.mpr hv, rfl⟩

/-- A table has at most as many entries as one that has all its keys. -/
theorem size_le_of_contains {t : Table K V} {t' : Table K W}
    (h : ∀ k, t.contains k = true → t'.contains k = true) : t.size ≤ t'.size := by
  have hsub : t.entries.map Prod.fst ⊆ t'.entries.map Prod.fst := by
    intro k hk
    exact mem_keys_iff.mpr (h k (mem_keys_iff.mp hk))
  have hlen := (List.subperm_of_subset t.nodup hsub).length_le
  rw [List.length_map, List.length_map] at hlen
  exact hlen

theorem size_eq_of_contains {t : Table K V} {t' : Table K W}
    (h : ∀ k, t.contains k = t'.contains k) : t.size = t'.size :=
  Nat.le_antisymm (size_le_of_contains fun k hk => h k ▸ hk)
    (size_le_of_contains fun k hk => (h k).symm ▸ hk)

theorem size_insert (t : Table K V) (k : K) (v : V) :
    (t.insert k v).size = (t.erase k).size + 1 := by
  rw [size, insert, List.length_append]
  rfl

theorem size_erase_le (t : Table K V) (k : K) : (t.erase k).size ≤ t.size := by
  refine size_le_of_contains fun k' hk' => ?_
  obtain ⟨v, hv⟩ := contains_iff_exists.mp hk'
  rw [get?_erase] at hv
  split at hv
  · cases hv
  · exact contains_iff_exists.mpr ⟨v, hv⟩

theorem size_erase {t : Table K V} {k : K} {v : V} (h : t.get? k = some v) :
    (t.erase k).size + 1 = t.size := by
  rw [← size_insert t k v]
  refine size_eq_of_contains fun k' => ?_
  rw [contains, contains, get?_insert]
  split
  · next heq => rw [heq, h]
  · rfl

theorem size_insert_le (t : Table K V) (k : K) (v : V) :
    (t.insert k v).size ≤ t.size + 1 := by
  rw [size_insert]
  exact Nat.add_le_add_right (size_erase_le t k) 1

theorem size_retain_le (t : Table K V) (p : K → V → Bool) : (t.retain p).size ≤ t.size := by
  refine size_le_of_contains fun k hk => ?_
  obtain ⟨v, hv⟩ := contains_iff_exists.mp hk
  rw [get?_retain] at hv
  exact contains_iff_exists.mpr ⟨v, (Option.filter_eq_some_iff.mp hv).1⟩

theorem size_filterMap_le (t : Table K V) (f : K → V → Option W) :
    (t.filterMap f).size ≤ t.size := by
  refine size_le_of_contains fun k hk => ?_
  obtain ⟨w, hw⟩ := contains_iff_exists.mp hk
  rw [get?_filterMap] at hw
  obtain ⟨v, hv, -⟩ := Option.bind_eq_some_iff.mp hw
  exact contains_iff_exists.mpr ⟨v, hv⟩

end Keyed

end Table

end TailscaleRust.Lib
