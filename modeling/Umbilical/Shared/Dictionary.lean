import Umbilical.Shared.Keyed
import Mathlib.Algebra.GroupWithZero.Nat

set_option autoImplicit false

/-!
# Dictionaries

A dictionary is the list of its items, in the order in which their keys came first.
-/

namespace Umbilical.Dictionary

open List

variable {κ ρ : Type} [DecidableEq κ] (key : ρ → κ)

/-- `dict[key] = record`: in the place of a record with the same key, or at the end. -/
def setItem (dict : List ρ) (record : ρ) : List ρ :=
  if (Keyed.lookup key dict (key record)).isSome then Keyed.revise key (fun _ => record) (key record) dict
  else dict ++ [record]

/-- The values of `{key(record): record for record in records}`. -/
def dictOf (records : List ρ) : List ρ := records.foldl (setItem key) []

variable {key}

theorem setItem_fresh {dict : List ρ} {record : ρ} (fresh : ∀ other ∈ dict, key other ≠ key record) :
    setItem key dict record = dict ++ [record] := by
  rw [setItem, Keyed.lookup_eq_none.mpr fresh]
  rfl

theorem setItem_again {dict : List ρ} {record : ρ} (fresh : ∀ other ∈ dict, key other ≠ key record) :
    setItem key (dict ++ [record]) record = dict ++ [record] := by
  have present : Keyed.lookup key (dict ++ [record]) (key record) = some record :=
    Keyed.lookup_append_self (Keyed.lookup_eq_none.mpr fresh)
  have others : dict.map (fun other => if key other = key record then record else other) = dict := by
    conv_rhs => rw [← map_id dict]
    exact map_congr_left fun other member => if_neg (fresh other member)
  rw [setItem, present]
  simp [Keyed.revise, others]

theorem setItem_revise (dict : List ρ) (record : ρ) :
    Keyed.revise key (fun _ => record) (key record) dict =
      Keyed.revise key (fun other => if key other = key record then record else other) (key record) dict :=
  map_congr_left fun other _ => by by_cases same : key other = key record <;> simp [same]

theorem lookup_setItem (dict : List ρ) (record : ρ) (k : κ) :
    Keyed.lookup key (setItem key dict record) k = if k = key record then some record else Keyed.lookup key dict k := by
  unfold setItem
  by_cases present : (Keyed.lookup key dict (key record)).isSome
  · have keeps : ∀ other, key (if key other = key record then record else other) = key other := by
      intro other
      split
      · exact Eq.symm ‹_›
      · rfl
    rw [if_pos present, setItem_revise, Keyed.lookup_revise _ keeps]
    obtain ⟨old, found⟩ := Option.isSome_iff_exists.mp present
    have same := (Keyed.mem_of_lookup found).2
    simp [found, same]
  · have fresh : Keyed.lookup key dict (key record) = none := by simpa using present
    rw [if_neg present, Keyed.lookup_append_fresh fresh]

theorem distinct_setItem {dict : List ρ} {record : ρ} (distinct : Keyed.Distinct key dict) :
    Keyed.Distinct key (setItem key dict record) := by
  unfold setItem
  by_cases present : (Keyed.lookup key dict (key record)).isSome
  · have keeps : ∀ other, key (if key other = key record then record else other) = key other := by
      intro other
      split
      · exact Eq.symm ‹_›
      · rfl
    rw [if_pos present, setItem_revise]
    exact (Keyed.distinct_revise _ keeps).mpr distinct
  · rw [if_neg present]
    exact Keyed.distinct_append.mpr ⟨distinct, by simpa using present⟩

/-- `del dict[k]`. -/
theorem lookup_eraseP {dict : List ρ} (distinct : Keyed.Distinct key dict) (k other : κ) :
    Keyed.lookup key (dict.eraseP fun record => key record = k) other =
      if other = k then none else Keyed.lookup key dict other := by
  induction dict with
  | nil => simp [Keyed.lookup]
  | cons record rest ih =>
    have later : Keyed.Distinct key rest := distinct.sublist (by simp)
    by_cases named : key record = k
    · rw [eraseP_cons_of_pos (by simpa using named)]
      by_cases same : other = k
      · -- the record that goes is the only one with the key
        subst same
        rw [if_pos rfl, Keyed.lookup_eq_none]
        intro again member equal
        unfold Keyed.Distinct at distinct
        rw [map_cons, nodup_cons] at distinct
        exact distinct.1 (named.trans equal.symm ▸ mem_map_of_mem member)
      · have different : key record ≠ other := fun equal => same (equal.symm.trans named)
        simp [Keyed.lookup, same, different]
    · rw [eraseP_cons_of_neg (by simpa using named)]
      by_cases found : key record = other
      · have same : other ≠ k := fun equal => named (found.trans equal)
        simp [Keyed.lookup, found, same]
      · have inner := ih later
        simpa [Keyed.lookup, found] using inner

theorem mem_eraseP {dict : List ρ} (distinct : Keyed.Distinct key dict) (k : κ) (record : ρ) :
    (record ∈ dict.eraseP fun record => key record = k) ↔ record ∈ dict ∧ key record ≠ k := by
  have rest : Keyed.Distinct key (dict.eraseP fun record => key record = k) :=
    distinct.sublist ((eraseP_sublist).map _)
  have erased := lookup_eraseP distinct k (key record)
  constructor
  · intro member
    rw [rest.lookup_self member] at erased
    by_cases same : key record = k
    · rw [if_pos same] at erased
      cases erased
    · exact ⟨mem_of_mem_eraseP member, same⟩
  · rintro ⟨member, different⟩
    rw [if_neg different, distinct.lookup_self member] at erased
    exact (Keyed.mem_of_lookup erased).1

/-- What is counted over all records, without one of them. -/
theorem sum_eraseP (dict : List ρ) (k : κ) (weight : ρ → Nat) :
    ((dict.eraseP fun record => key record = k).map weight).sum + ((Keyed.lookup key dict k).map weight).getD 0 =
      (dict.map weight).sum := by
  induction dict with
  | nil => rfl
  | cons record rest ih =>
    by_cases named : key record = k
    · simp [Keyed.lookup, named, Nat.add_comm]
    · have inner : Keyed.lookup key (record :: rest) k = Keyed.lookup key rest k := by simp [Keyed.lookup, named]
      rw [eraseP_cons_of_neg (by simpa using named), inner, map_cons, map_cons, sum_cons, sum_cons, ← ih]
      omega

theorem sum_setItem {dict : List ρ} (distinct : Keyed.Distinct key dict) (record : ρ) (weight : ρ → Nat) :
    ((setItem key dict record).map weight).sum + ((Keyed.lookup key dict (key record)).map weight).getD 0 =
      (dict.map weight).sum + weight record := by
  unfold setItem
  cases present : Keyed.lookup key dict (key record) with
  | none => simp
  | some old =>
    simp only [Option.isSome_some, if_true, Option.map_some, Option.getD_some]
    induction dict with
    | nil => simp [Keyed.lookup] at present
    | cons first rest ih =>
      unfold Keyed.Distinct at distinct ih
      rw [map_cons, nodup_cons] at distinct
      by_cases named : key first = key record
      · -- the others have other keys and stay
        have others : Keyed.revise key (fun _ => record) (key record) rest = rest := by
          conv_rhs => rw [← map_id rest]
          refine map_congr_left fun other member => if_neg fun equal => ?_
          exact distinct.1 (named.trans equal.symm ▸ mem_map_of_mem member)
        have same : first = old := by simpa [Keyed.lookup, named] using present
        subst same
        unfold Keyed.revise at others ⊢
        rw [map_cons, if_pos named, others]
        simp only [map_cons, sum_cons]
        omega
      · have inner := ih distinct.2 (by simpa [Keyed.lookup, named] using present)
        have kept : Keyed.revise key (fun _ => record) (key record) (first :: rest) =
            first :: Keyed.revise key (fun _ => record) (key record) rest := by simp [Keyed.revise, named]
        rw [kept, map_cons, sum_cons, map_cons, sum_cons]
        omega

theorem mem_setItem {dict : List ρ} {record other : ρ} (member : other ∈ setItem key dict record) :
    other ∈ dict ∨ other = record := by
  unfold setItem Keyed.revise at member
  split at member
  · obtain ⟨old, present, rfl⟩ := mem_map.mp member
    split
    · exact .inr rfl
    · exact .inl present
  · simpa using member

theorem mem_dictOf {records : List ρ} {record : ρ} (member : record ∈ dictOf key records) : record ∈ records := by
  have all (dict : List ρ) (records : List ρ) (member : record ∈ records.foldl (setItem key) dict) :
      record ∈ dict ∨ record ∈ records := by
    induction records generalizing dict with
    | nil => exact .inl member
    | cons first rest ih =>
      rcases ih _ member with before | later
      · rcases mem_setItem before with before | rfl
        · exact .inl before
        · exact .inr mem_cons_self
      · exact .inr (mem_cons_of_mem first later)
  exact (all [] records member).resolve_left not_mem_nil

/-- The dictionary of records that are represented otherwise. -/
theorem dictOf_map {κ' ρ' : Type} [DecidableEq κ'] (key' : ρ' → κ') (represent : ρ → ρ') {name : κ → κ'}
    (injective : Function.Injective name) (keeps : ∀ record, key' (represent record) = name (key record))
    (records : List ρ) : dictOf key' (records.map represent) = (dictOf key records).map represent := by
  have item (dict : List ρ) (record : ρ) :
      setItem key' (dict.map represent) (represent record) = (setItem key dict record).map represent := by
    unfold setItem
    rw [keeps record, Keyed.lookup_map key' represent injective keeps]
    cases Keyed.lookup key dict (key record) with
    | none => simp
    | some other =>
      simp only [Option.map_some, Option.isSome_some, if_true, Keyed.revise, map_map]
      refine map_congr_left fun old _ => ?_
      simp only [Function.comp, keeps, injective.eq_iff]
      split <;> rfl
  have all (dict : List ρ) : (records.map represent).foldl (setItem key') (dict.map represent) =
      (records.foldl (setItem key) dict).map represent := by
    induction records generalizing dict with
    | nil => rfl
    | cons record rest ih => rw [map_cons, foldl_cons, item, ih, foldl_cons]
  exact all []

end Umbilical.Dictionary

namespace Umbilical

open Dictionary

/-- A dictionary as its items. -/
structure Dict (κ ν : Type) where
  items : List (κ × ν)
  distinct : Keyed.Distinct Prod.fst items

namespace Dict

variable {κ ν : Type} [DecidableEq κ]

def empty : Dict κ ν := ⟨[], List.nodup_nil⟩

def get (dict : Dict κ ν) (key : κ) : Option ν := (Keyed.lookup Prod.fst dict.items key).map Prod.snd

/-- `dict[key] = value`. -/
def set (dict : Dict κ ν) (key : κ) (value : ν) : Dict κ ν :=
  ⟨setItem Prod.fst dict.items (key, value), distinct_setItem dict.distinct⟩

/-- `del dict[key]`. -/
def erase (dict : Dict κ ν) (key : κ) : Dict κ ν :=
  ⟨dict.items.eraseP fun item => item.1 = key, dict.distinct.sublist ((List.eraseP_sublist).map _)⟩

/-- A dictionary display, where the last value of a key counts. -/
def ofItems (items : List (κ × ν)) : Dict κ ν := items.foldl (fun dict item => dict.set item.1 item.2) empty

def update (dict other : Dict κ ν) : Dict κ ν := other.items.foldl (fun dict item => dict.set item.1 item.2) dict

def keys (dict : Dict κ ν) : List κ := dict.items.map Prod.fst

@[simp]
theorem get_empty (key : κ) : (empty : Dict κ ν).get key = none := rfl

@[simp]
theorem get_set (dict : Dict κ ν) (key : κ) (value : ν) (k : κ) :
    (dict.set key value).get k = if k = key then some value else dict.get k := by
  unfold get set
  rw [lookup_setItem]
  split <;> rfl

@[simp]
theorem get_erase (dict : Dict κ ν) (key k : κ) : (dict.erase key).get k = if k = key then none else dict.get k := by
  unfold get erase
  rw [lookup_eraseP dict.distinct]
  split <;> rfl

theorem get_update (dict other : Dict κ ν) (key : κ) : (dict.update other).get key = (other.get key).or (dict.get key) := by
  obtain ⟨items, distinct⟩ := other
  unfold update get
  induction items generalizing dict with
  | nil => rfl
  | cons item rest ih =>
    unfold Keyed.Distinct at distinct ih
    rw [List.map_cons, List.nodup_cons] at distinct
    have later := ih (dict.set item.1 item.2) distinct.2
    have set_ := get_set dict item.1 item.2 key
    unfold get at set_
    rw [List.foldl_cons, later, set_]
    by_cases same : key = item.1
    · subst same
      -- the key does not come again
      have gone : Keyed.lookup Prod.fst rest item.1 = none := by
        rw [Keyed.lookup_eq_none]
        exact fun other member equal => distinct.1 (equal ▸ List.mem_map_of_mem member)
      have first : Keyed.lookup Prod.fst (item :: rest) item.1 = some item := by simp [Keyed.lookup]
      simp [gone, first]
    · simp [Keyed.lookup, same, Ne.symm same]

theorem get_eq_some (dict : Dict κ ν) {key : κ} {value : ν} : dict.get key = some value ↔ (key, value) ∈ dict.items := by
  unfold get
  rw [Option.map_eq_some_iff]
  constructor
  · rintro ⟨item, found, rfl⟩
    obtain ⟨member, rfl⟩ := Keyed.mem_of_lookup found
    exact member
  · intro member
    exact ⟨(key, value), dict.distinct.lookup_self member, rfl⟩

theorem isSome_get (dict : Dict κ ν) (key : κ) : (dict.get key).isSome ↔ key ∈ dict.keys := by
  unfold get keys
  rw [Option.isSome_map, Option.isSome_iff_ne_none, Ne, Keyed.lookup_eq_none]
  simp

end Dict

end Umbilical
