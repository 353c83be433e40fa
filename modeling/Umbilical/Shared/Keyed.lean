import Mathlib.Data.List.Nodup

set_option autoImplicit false

/-!
# Lists of keyed records

What a table with a primary key is: records in a list, no two with the same key.
-/

namespace Umbilical.Keyed

variable {κ ρ : Type} [DecidableEq κ] (key : ρ → κ)

def lookup (records : List ρ) (k : κ) : Option ρ := records.find? fun record => key record = k

def Distinct (records : List ρ) : Prop := (records.map key).Nodup

instance (records : List ρ) : Decidable (Distinct key records) := inferInstanceAs (Decidable (List.Nodup _))

/-- The records with the key `k` changed by `change`. -/
def revise (change : ρ → ρ) (k : κ) (records : List ρ) : List ρ :=
  records.map fun record => if key record = k then change record else record

variable {key} {records : List ρ} {record : ρ} {k : κ}

theorem mem_of_lookup (found : lookup key records k = some record) : record ∈ records ∧ key record = k :=
  ⟨List.mem_of_find?_eq_some found, by simpa using List.find?_some found⟩

theorem lookup_eq_none : lookup key records k = none ↔ ∀ record ∈ records, key record ≠ k := by
  simp [lookup]

omit [DecidableEq κ] in
theorem Distinct.eq_of_key (distinct : Distinct key records) {other : ρ} (member : record ∈ records)
    (another : other ∈ records) (same : key record = key other) : record = other :=
  List.inj_on_of_nodup_map distinct member another same

theorem Distinct.lookup_iff (distinct : Distinct key records) :
    lookup key records k = some record ↔ record ∈ records ∧ key record = k := by
  refine ⟨mem_of_lookup, ?_⟩
  rintro ⟨member, same⟩
  cases found : lookup key records k with
  | none => exact absurd same (lookup_eq_none.mp found record member)
  | some other =>
    obtain ⟨another, also⟩ := mem_of_lookup found
    rw [distinct.eq_of_key member another (same.trans also.symm)]

theorem Distinct.lookup_self (distinct : Distinct key records) (member : record ∈ records) :
    lookup key records (key record) = some record := distinct.lookup_iff.mpr ⟨member, rfl⟩

theorem distinct_append : Distinct key (records ++ [record]) ↔
    Distinct key records ∧ lookup key records (key record) = none := by
  simp only [Distinct, List.map_append, List.map_cons, List.map_nil, List.nodup_append, List.nodup_singleton,
    true_and, List.mem_singleton, forall_eq, List.mem_map, forall_exists_index, and_imp,
    forall_apply_eq_imp_iff₂, lookup_eq_none]

theorem lookup_append : lookup key (records ++ [record]) k =
    (lookup key records k).or (if key record = k then some record else none) := by
  by_cases same : key record = k <;> simp [lookup, List.find?_append, same]

theorem lookup_append_of_some {found : ρ} (before : lookup key records k = some found) :
    lookup key (records ++ [record]) k = some found := by rw [lookup_append, before]; rfl

theorem lookup_append_self (fresh : lookup key records (key record) = none) :
    lookup key (records ++ [record]) (key record) = some record := by simp [lookup_append, fresh]

theorem lookup_append_of_ne (other : key record ≠ k) :
    lookup key (records ++ [record]) k = lookup key records k := by simp [lookup_append, other]

theorem lookup_append_fresh (fresh : lookup key records (key record) = none) (k : κ) :
    lookup key (records ++ [record]) k = if k = key record then some record else lookup key records k := by
  split_ifs with same
  · rw [same, lookup_append_self fresh]
  · exact lookup_append_of_ne (Ne.symm same)

/-- Lookup through a change of representation that keeps keys. -/
theorem lookup_map {κ' ρ' : Type} [DecidableEq κ'] (key' : ρ' → κ') (represent : ρ → ρ') {name : κ → κ'}
    (injective : Function.Injective name) (keeps : ∀ record, key' (represent record) = name (key record)) :
    lookup key' (records.map represent) (name k) = (lookup key records k).map represent := by
  induction records with
  | nil => rfl
  | cons head rest ih =>
    by_cases same : key head = k
    · simp [lookup, keeps, same]
    · have : name (key head) ≠ name k := fun equal => same (injective equal)
      simp only [lookup] at ih
      simp [lookup, keeps, same, this, ih]

omit [DecidableEq κ] in
theorem distinct_map {κ' ρ' : Type} (key' : ρ' → κ') (represent : ρ → ρ') {name : κ → κ'}
    (injective : Function.Injective name) (keeps : ∀ record, key' (represent record) = name (key record)) :
    Distinct key' (records.map represent) ↔ Distinct key records := by
  have keys : (records.map represent).map key' = (records.map key).map name := by simp [keeps]
  rw [Distinct, keys]
  exact List.nodup_map_iff injective

section Revision

variable (change : ρ → ρ) (keeps : ∀ record, key (change record) = key record)
include keeps

theorem map_key_revise : (revise key change k records).map key = records.map key := by
  unfold revise
  rw [List.map_map]
  refine List.map_congr_left fun record _ => ?_
  simp only [Function.comp_apply]
  split_ifs <;> simp [keeps]

theorem distinct_revise : Distinct key (revise key change k records) ↔ Distinct key records := by
  rw [Distinct, map_key_revise change keeps, Distinct]

theorem lookup_revise_self :
    lookup key (revise key change k records) k = (lookup key records k).map change := by
  induction records with
  | nil => rfl
  | cons head rest ih =>
    simp only [lookup, revise] at ih
    by_cases same : key head = k
    · simp [lookup, revise, keeps, same]
    · simp [lookup, revise, same, ih]

theorem lookup_revise_of_ne {other : κ} (different : other ≠ k) :
    lookup key (revise key change k records) other = lookup key records other := by
  induction records with
  | nil => rfl
  | cons head rest ih =>
    simp only [lookup, revise] at ih
    by_cases same : key head = k
    · simp [lookup, revise, keeps, same, different.symm, ih]
    · by_cases found : key head = other
      · simp [lookup, revise, found, different]
      · simp [lookup, revise, same, found, ih]

theorem lookup_revise (other : κ) : lookup key (revise key change k records) other =
    if other = k then (lookup key records k).map change else lookup key records other := by
  split_ifs with same
  · rw [same, lookup_revise_self change keeps]
  · exact lookup_revise_of_ne change keeps same

end Revision

theorem mem_revise {change : ρ → ρ} {revised : ρ} (member : revised ∈ revise key change k records) :
    (revised ∈ records ∧ key revised ≠ k) ∨ ∃ record ∈ records, key record = k ∧ revised = change record := by
  obtain ⟨record, among, rfl⟩ := List.mem_map.mp member
  split_ifs with same
  · exact .inr ⟨record, among, same, rfl⟩
  · exact .inl ⟨among, same⟩

/-- Revision through a change of representation. -/
theorem revise_map {κ' ρ' : Type} [DecidableEq κ'] (key' : ρ' → κ') (represent : ρ → ρ') {name : κ → κ'}
    (injective : Function.Injective name) (keeps : ∀ record, key' (represent record) = name (key record))
    {change : ρ → ρ} {change' : ρ' → ρ'}
    (agrees : ∀ record ∈ records, key record = k → change' (represent record) = represent (change record)) :
    revise key' change' (name k) (records.map represent) = (revise key change k records).map represent := by
  unfold revise
  rw [List.map_map, List.map_map]
  refine List.map_congr_left fun record member => ?_
  by_cases same : key record = k
  · simp [keeps, same, agrees record member same]
  · have : name (key record) ≠ name k := fun equal => same (injective equal)
    simp [keeps, same, this]

/-- A condition that singles out one record of a key changes it as `revise` does. -/
theorem map_eq_revise (distinct : Distinct key records) {change : ρ → ρ} {condition : ρ → Bool}
    (member : record ∈ records) (holds : condition record)
    (only : ∀ other, condition other → key other = key record) :
    records.map (fun other => if condition other then change other else other) =
      revise key change (key record) records := by
  unfold revise
  refine List.map_congr_left fun other among => ?_
  by_cases same : key other = key record
  · obtain rfl := distinct.eq_of_key among member same
    simp [holds]
  · have : ¬ condition other := fun met => same (only other met)
    simp [same, this]

omit [DecidableEq κ] in
theorem countP_eq_one (distinct : Distinct key records) {condition : ρ → Bool} (member : record ∈ records)
    (holds : condition record) (only : ∀ other, condition other → key other = key record) :
    records.countP condition = 1 := by
  induction records with
  | nil => cases member
  | cons head rest ih =>
    obtain ⟨fresh, distinctRest⟩ := List.nodup_cons.mp distinct
    rcases List.mem_cons.mp member with rfl | inRest
    · have none : rest.countP condition = 0 := by
        refine List.countP_eq_zero.mpr fun other among met => fresh ?_
        exact List.mem_map.mpr ⟨other, among, only other met⟩
      simp [holds, none]
    · have skipped : ¬ condition head := fun met =>
        fresh (only head met ▸ List.mem_map_of_mem inRest)
      simp [skipped, ih distinctRest inRest]

theorem exists_bound (order : ρ → Nat) (items : List ρ) : ∃ bound, ∀ item ∈ items, order item ≤ bound := by
  induction items with
  | nil => exact ⟨0, nofun⟩
  | cons head rest ih =>
    obtain ⟨bound, below⟩ := ih
    refine ⟨max (order head) bound, fun item member => ?_⟩
    rcases List.mem_cons.mp member with rfl | later
    · exact Nat.le_max_left _ _
    · exact Nat.le_trans (below item later) (Nat.le_max_right _ _)

/-- Where everything lost is related to something with a greater key, it is related to something that is not lost. -/
theorem exists_survivor {items : List ρ} (order : ρ → Nat) (related : ρ → ρ → Prop) {lost : ρ → Prop}
    (transitive : ∀ {first second third}, related first second → related second third → related first third)
    (climbs : ∀ item ∈ items, lost item → ∃ other ∈ items, related item other ∧ order item < order other)
    {item : ρ} (member : item ∈ items) (gone : lost item) :
    ∃ other ∈ items, related item other ∧ order item < order other ∧ ¬ lost other := by
  obtain ⟨bound, bounded⟩ := exists_bound order items
  -- the keys climb, and there is only so much room below the bound
  induction room : bound - order item using Nat.strongRecOn generalizing item with
  | ind left ih =>
    obtain ⟨other, among, relates, above⟩ := climbs item member gone
    by_cases also : lost other
    · have closer : bound - order other < left := by
        have := bounded other among
        omega
      obtain ⟨last, there, onward, higher, kept⟩ := ih _ closer among also rfl
      exact ⟨last, there, transitive relates onward, Nat.lt_trans above higher, kept⟩
    · exact ⟨other, among, relates, above, also⟩

end Umbilical.Keyed
