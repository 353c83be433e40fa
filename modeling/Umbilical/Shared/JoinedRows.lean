import Umbilical.Shared.Dictionary
import Umbilical.Shared.StableSort
import Mathlib.Algebra.Order.BigOperators.Group.List
import Mathlib.Algebra.GroupWithZero.Nat

set_option autoImplicit false

/-!
# Joined rows

A join gives a record as often as there are rows to join it with. Sorting and filtering
do not see that, and a dictionary by key has every record once again. A bound on the
number of rows does see it.
-/

namespace Umbilical.JoinedRows

open List StableSort Dictionary

variable {κ ρ σ : Type} [DecidableEq κ]

/-! ## Every record so many times -/

def repeated (copies : ρ → Nat) (records : List ρ) : List ρ :=
  records.flatMap fun record => replicate (copies record) record

variable {copies : ρ → Nat}

@[simp] theorem repeated_nil : repeated copies [] = [] := rfl

@[simp] theorem repeated_cons (record : ρ) (records : List ρ) :
    repeated copies (record :: records) = replicate (copies record) record ++ repeated copies records := rfl

@[simp] theorem repeated_append (first second : List ρ) :
    repeated copies (first ++ second) = repeated copies first ++ repeated copies second := flatMap_append

theorem mem_repeated {record : ρ} {records : List ρ} :
    record ∈ repeated copies records ↔ record ∈ records ∧ copies record ≠ 0 := by
  simp only [repeated, mem_flatMap, mem_replicate]
  constructor
  · rintro ⟨other, member, some, rfl⟩
    exact ⟨member, some⟩
  · rintro ⟨member, some⟩
    exact ⟨record, member, some, rfl⟩

theorem length_repeated (records : List ρ) : (repeated copies records).length = (records.map copies).sum := by
  simp [repeated, length_flatMap]

/-- A join that only counts the partners of a record. -/
theorem flatMap_const (partners : ρ → List σ) (records : List ρ) :
    (records.flatMap fun record => (partners record).map fun _ => record) =
      repeated (fun record => (partners record).length) records := by
  simp [repeated, map_const']

theorem filter_repeated (p : ρ → Bool) (records : List ρ) :
    (repeated copies records).filter p = repeated copies (records.filter p) := by
  induction records with
  | nil => rfl
  | cons record rest ih =>
    rw [repeated_cons, filter_append, ih, filter_replicate, filter_cons]
    by_cases kept : p record <;> simp [kept]

theorem repeated_filter_ne_zero (records : List ρ) :
    repeated copies (records.filter fun record => copies record ≠ 0) = repeated copies records := by
  induction records with
  | nil => rfl
  | cons record rest ih =>
    rw [filter_cons, repeated_cons]
    by_cases none : copies record = 0
    · simpa [none] using ih
    · simpa [none] using ih

/-! ## Sorting -/

section Sorting

variable {r : ρ → ρ → Prop} [DecidableRel r] [Std.Total r]

omit [Std.Total r] in
theorem orderedInsert_replicate {a b : ρ} (behind : ¬ r a b) (n : Nat) (rest : List ρ) :
    (replicate n b ++ rest).orderedInsert r a = replicate n b ++ rest.orderedInsert r a := by
  induction n with
  | zero => rfl
  | succ n ih => rw [replicate_succ, cons_append, orderedInsert_of_not_le r _ behind, ih, cons_append]

/-- So many insertions of one record. -/
theorem iterate_orderedInsert [IsTrans ρ r] (a : ρ) {records : List ρ} (sorted : records.Pairwise r) :
    (orderedInsert r a)^[copies a] (repeated copies records) = repeated copies (records.orderedInsert r a) := by
  have front {rows : List ρ} (before : ∀ b ∈ rows, r a b) (n : Nat) :
      (orderedInsert r a)^[n] rows = replicate n a ++ rows := by
    induction n with
    | zero => rfl
    | succ n ih =>
      rw [Function.iterate_succ_apply', ih, orderedInsert_of_forall r, replicate_succ, cons_append]
      intro b member
      rcases mem_append.mp member with again | member
      · rw [eq_of_mem_replicate again]
        exact (Std.Total.total a a).elim id id
      · exact before b member
  induction records with
  | nil =>
    have alone : (orderedInsert r a)^[copies a] [] = replicate (copies a) a ++ [] := front (by simp) (copies a)
    simpa using alone
  | cons b rest ih =>
    obtain ⟨first, later⟩ := pairwise_cons.mp sorted
    by_cases before : r a b
    · -- every record goes behind the new one, and so does every copy
      have all : ∀ c ∈ repeated copies (b :: rest), r a c := by
        intro c member
        rcases mem_cons.mp (mem_repeated.mp member).1 with rfl | member
        · exact before
        · exact IsTrans.trans a b c before (first c member)
      rw [front all, orderedInsert_cons_of_le r rest before, repeated_cons a]
    · have inner (n : Nat) (rows : List ρ) : (orderedInsert r a)^[n] (replicate (copies b) b ++ rows) =
          replicate (copies b) b ++ (orderedInsert r a)^[n] rows := by
        induction n with
        | zero => rfl
        | succ n ih =>
          rw [Function.iterate_succ_apply', ih, orderedInsert_replicate before, Function.iterate_succ_apply']
      rw [orderedInsert_of_not_le r rest before, repeated_cons, repeated_cons, inner, ih later]

theorem insertionSort_repeated [IsTrans ρ r] (records : List ρ) :
    (repeated copies records).insertionSort r = repeated copies (records.insertionSort r) := by
  induction records with
  | nil => rfl
  | cons a rest ih =>
    have insertions (n : Nat) : (replicate n a ++ repeated copies rest).insertionSort r =
        (orderedInsert r a)^[n] ((repeated copies rest).insertionSort r) := by
      induction n with
      | zero => rfl
      | succ n ih => rw [replicate_succ, cons_append, insertionSort_cons, ih, Function.iterate_succ_apply']
    rw [repeated_cons, insertions, ih, iterate_orderedInsert a (pairwise_insertionSort r rest), insertionSort_cons]

end Sorting

/-! ## A dictionary of the rows -/

variable {key : ρ → κ}

/-- The copies of a record count once. -/
theorem dictOf_repeated {records : List ρ} (distinct : Keyed.Distinct key records)
    (some : ∀ record ∈ records, copies record ≠ 0) : dictOf key (repeated copies records) = records := by
  have copied {dict : List ρ} {record : ρ} (fresh : ∀ other ∈ dict, key other ≠ key record) (n : Nat) :
      (replicate (n + 1) record).foldl (setItem key) dict = dict ++ [record] := by
    induction n with
    | zero => exact setItem_fresh fresh
    | succ n ih => rw [replicate_succ', foldl_concat, ih, setItem_again fresh]
  have all (dict : List ρ) (distinct : Keyed.Distinct key (dict ++ records)) :
      (repeated copies records).foldl (setItem key) dict = dict ++ records := by
    clear * - distinct copied some
    induction records generalizing dict with
    | nil => simp
    | cons record rest ih =>
      have fresh : ∀ other ∈ dict, key other ≠ key record := by
        intro other member
        unfold Keyed.Distinct at distinct
        rw [map_append, nodup_append] at distinct
        exact distinct.2.2 _ (mem_map_of_mem member) _ (mem_map_of_mem mem_cons_self)
      obtain ⟨n, positive⟩ := Nat.exists_eq_succ_of_ne_zero (some record mem_cons_self)
      rw [repeated_cons, foldl_append, positive, copied fresh,
        ih (fun other member => some other (mem_cons_of_mem record member)) (dict ++ [record]) (by simpa using distinct)]
      simp
  exact all [] (by simpa using distinct)

/-! ## A bound on the rows -/

/-- So many rows reach the last record. -/
def reach (copies : ρ → Nat) (records : List ρ) : Nat := (records.dropLast.map copies).sum + 1

theorem length_le_reach {records : List ρ} (some : ∀ record ∈ records, copies record ≠ 0) :
    records.length ≤ reach copies records := by
  rcases List.eq_nil_or_concat records with rfl | ⟨front, last, rfl⟩
  · simp
  · rw [concat_eq_append] at some ⊢
    have ones : ∀ count ∈ front.map copies, 1 ≤ count := by
      intro count member
      obtain ⟨record, inside, rfl⟩ := mem_map.mp member
      exact Nat.one_le_iff_ne_zero.mpr (some record (mem_append_left _ inside))
    have rows := length_le_sum_of_one_le _ ones
    rw [length_map] at rows
    simp only [reach, dropLast_concat, length_append, length_singleton]
    omega

/-- The first rows hold all records if they reach the last one. -/
theorem dictOf_take {records : List ρ} (distinct : Keyed.Distinct key records)
    (some : ∀ record ∈ records, copies record ≠ 0) {n : Nat} (enough : records = [] ∨ reach copies records ≤ n) :
    dictOf key ((repeated copies records).take n) = records := by
  rcases List.eq_nil_or_concat records with rfl | ⟨front, last, rfl⟩
  · simp [dictOf]
  · rw [concat_eq_append] at distinct some enough ⊢
    have reached : (front.map copies).sum + 1 ≤ n := by simpa [reach] using enough
    have positive : copies last ≠ 0 := some last (by simp)
    -- the last record is left with at least one of its copies
    let left (record : ρ) : Nat :=
      if key record = key last then min (n - (front.map copies).sum) (copies last) else copies record
    have apart : ∀ record ∈ front, key record ≠ key last := by
      intro record member
      unfold Keyed.Distinct at distinct
      rw [map_append, nodup_append] at distinct
      exact distinct.2.2 _ (mem_map_of_mem member) _ (by simp)
    have before : repeated left front = repeated copies front :=
      flatMap_congr fun record member => by simp [left, apart record member]
    have rows : (repeated copies (front ++ [last])).take n = repeated left (front ++ [last]) := by
      rw [repeated_append, take_append, length_repeated, take_of_length_le (by rw [length_repeated]; omega),
        repeated_append, before]
      simp [left, take_replicate]
    rw [rows]
    refine dictOf_repeated distinct fun record member => ?_
    simp only [left]
    split
    · omega
    · exact some record member

/-- The last record is only among the first rows if these reach it. -/
theorem reach_le {front : List ρ} {last : ρ} (fresh : last ∉ front) {n : Nat}
    (member : last ∈ (repeated copies (front ++ [last])).take n) : reach copies (front ++ [last]) ≤ n := by
  by_contra short
  have within : n ≤ (front.map copies).sum := by
    simp only [reach, dropLast_concat] at short
    omega
  rw [repeated_append, take_append_of_le_length (by rwa [length_repeated])] at member
  exact fresh (mem_repeated.mp (mem_of_mem_take member)).1

end Umbilical.JoinedRows
