import Mathlib.Data.List.Sort
import Mathlib.Data.List.Nodup
import Mathlib.Order.Nat

set_option autoImplicit false

/-!
# Classified changes

The rows of one scheduler in `scheduler_changes`: the changes it has been told of and has not
flushed, and whether they are important.
-/

namespace Umbilical.Schedulers

abbrev Classifications := List (Nat × Bool)

namespace Classifications

variable (rows : Classifications)

def numbers : List Nat := rows.map Prod.fst

/-- One item of the dictionary given to `classifyChanges`: an upsert. -/
def classifyChanges (changeid : Nat) (important : Bool) : Classifications :=
  if changeid ∈ rows.numbers then rows.map fun row => if row.1 = changeid then (changeid, important) else row
  else rows ++ [(changeid, important)]

def flushChangeClassifications (lessThan : Option Nat) : Classifications :=
  match lessThan with
  | none => []
  | some bound => rows.filter fun row => ¬ row.1 < bound

/-- The rows whose change satisfies the further conditions of the query. -/
def getChangeClassifications (condition : Nat → Bool) : Classifications := rows.filter fun row => condition row.1

/-- `sorted(classifications.keys())` -/
def changeids : List Nat := rows.numbers.insertionSort (· ≤ ·)

/-- `changeids[-1]`, where there are any. -/
def maxChangeid : Nat := rows.changeids.getLastD 0

variable {rows} {changeid number : Nat} {important : Bool}

theorem mem_changeids : number ∈ rows.changeids ↔ number ∈ rows.numbers := List.mem_insertionSort _

theorem changeids_eq_nil : rows.changeids = [] ↔ rows = [] := by
  rw [← List.length_eq_zero_iff, changeids, List.length_insertionSort, numbers, List.length_map,
    List.length_eq_zero_iff]

theorem changeids_nodup (distinct : rows.numbers.Nodup) : rows.changeids.Nodup :=
  (List.perm_insertionSort _ _).nodup_iff.mpr distinct

theorem le_getLastD {ids : List Nat} (sorted : ids.Pairwise (· ≤ ·)) (member : number ∈ ids) (default : Nat) :
    number ≤ ids.getLastD default := by
  induction ids generalizing number default with
  | nil => cases member
  | cons first rest ih =>
    obtain ⟨before, later⟩ := List.pairwise_cons.mp sorted
    rw [List.getLastD_cons]
    rcases List.mem_cons.mp member with rfl | after
    · cases rest with
      | nil => exact Nat.le_refl _
      | cons second rest =>
        exact Nat.le_trans (before second List.mem_cons_self) (ih later List.mem_cons_self number)
    · exact ih later after first

theorem le_maxChangeid (member : number ∈ rows.numbers) : number ≤ rows.maxChangeid := by
  have sorted : rows.changeids.Pairwise (· ≤ ·) := List.pairwise_insertionSort _ _
  exact le_getLastD sorted (mem_changeids.mpr member) 0

theorem numbers_classifyChanges : (rows.classifyChanges changeid important).numbers =
    if changeid ∈ rows.numbers then rows.numbers else rows.numbers ++ [changeid] := by
  unfold classifyChanges
  split
  · simp only [numbers, List.map_map]
    refine List.map_congr_left fun row _ => ?_
    simp only [Function.comp_apply]
    split
    · rename_i same
      exact same.symm
    · rfl
  · simp [numbers]

theorem mem_classifyChanges {row : Nat × Bool} (member : row ∈ rows.classifyChanges changeid important) :
    row = (changeid, important) ∨ row ∈ rows ∧ row.1 ≠ changeid := by
  unfold classifyChanges at member
  split at member
  · obtain ⟨before, listed, rfl⟩ := List.mem_map.mp member
    split
    · exact .inl rfl
    · rename_i other
      exact .inr ⟨listed, other⟩
  · rename_i fresh
    rcases List.mem_append.mp member with earlier | now
    · exact .inr ⟨earlier, fun same => fresh (same ▸ List.mem_map_of_mem earlier)⟩
    · exact .inl (List.mem_singleton.mp now)

theorem mem_numbers_classify :
    number ∈ (rows.classifyChanges changeid important).numbers ↔ number ∈ rows.numbers ∨ number = changeid := by
  rw [numbers_classifyChanges]
  split
  · rename_i listed
    refine ⟨.inl, ?_⟩
    rintro (earlier | rfl)
    · exact earlier
    · exact listed
  · rw [List.mem_append, List.mem_singleton]

theorem classify_nodup (distinct : rows.numbers.Nodup) :
    (rows.classifyChanges changeid important).numbers.Nodup := by
  rw [numbers_classifyChanges]
  split
  · exact distinct
  · rename_i fresh
    exact distinct.append (List.nodup_singleton _) (by simpa using fresh)

theorem mem_numbers_flush {bound : Nat} :
    number ∈ (rows.flushChangeClassifications (some bound)).numbers ↔ number ∈ rows.numbers ∧ bound ≤ number := by
  simp only [numbers, flushChangeClassifications, List.mem_map, List.mem_filter, Nat.not_lt, decide_eq_true_eq]
  constructor
  · rintro ⟨row, ⟨member, above⟩, rfl⟩
    exact ⟨⟨row, member, rfl⟩, above⟩
  · rintro ⟨⟨row, member, rfl⟩, above⟩
    exact ⟨row, ⟨member, above⟩, rfl⟩

theorem flush_nodup {bound : Nat} (distinct : rows.numbers.Nodup) :
    (rows.flushChangeClassifications (some bound)).numbers.Nodup := distinct.sublist (List.filter_sublist.map _)

end Classifications

end Umbilical.Schedulers
