import Mathlib.Data.List.Sort

set_option autoImplicit false

/-!
# Stable sorting

Insertion sort keeps the order of what its relation does not tell apart. A filter
commutes with it, and sorting by one relation and then by another is sorting by the
second relation with the first one for its ties.
-/

namespace Umbilical.StableSort

open List

variable {α : Type} (r s : α → α → Prop) [DecidableRel r] [DecidableRel s]

theorem orderedInsert_congr {a : α} {l : List α} (same : ∀ b ∈ l, r a b ↔ s a b) :
    l.orderedInsert r a = l.orderedInsert s a := by
  induction l with
  | nil => rfl
  | cons b rest ih =>
    rw [orderedInsert_cons, orderedInsert_cons, ih fun c member => same c (mem_cons_of_mem b member)]
    simp only [same b mem_cons_self]

theorem orderedInsert_of_forall {a : α} {l : List α} (before : ∀ b ∈ l, r a b) : l.orderedInsert r a = a :: l := by
  cases l with
  | nil => rfl
  | cons b rest => exact orderedInsert_cons_of_le r rest (before b mem_cons_self)

theorem insertionSort_congr {l : List α} (same : ∀ a ∈ l, ∀ b ∈ l, r a b ↔ s a b) :
    l.insertionSort r = l.insertionSort s := by
  induction l with
  | nil => rfl
  | cons a rest ih =>
    have later := ih fun b first c second => same b (mem_cons_of_mem a first) c (mem_cons_of_mem a second)
    rw [insertionSort_cons, insertionSort_cons, later]
    refine orderedInsert_congr r s fun b member => ?_
    exact same a mem_cons_self b (mem_cons_of_mem a ((mem_insertionSort s).mp member))

variable {r} in
/-- A filter passes through an insertion into a sorted list. -/
theorem filter_orderedInsert [IsTrans α r] (p : α → Bool) {a : α} {l : List α} (sorted : l.Pairwise r) :
    (l.orderedInsert r a).filter p =
      if p a then (l.filter p).orderedInsert r a else l.filter p := by
  induction l with
  | nil => by_cases kept : p a <;> simp [kept]
  | cons b rest ih =>
    obtain ⟨first, later⟩ := pairwise_cons.mp sorted
    by_cases before : r a b
    · have all : ∀ c ∈ (b :: rest).filter p, r a c := by
        intro c member
        rcases mem_cons.mp (mem_of_mem_filter member) with rfl | member
        · exact before
        · exact IsTrans.trans a b c before (first c member)
      rw [orderedInsert_cons_of_le r rest before, orderedInsert_of_forall r all]
      by_cases kept : p a <;> simp [kept]
    · rw [orderedInsert_of_not_le r rest before, filter_cons, filter_cons, ih later]
      by_cases kept : p a <;> by_cases also : p b <;> simp [kept, also, before]

variable {r} in
theorem filter_insertionSort [Std.Total r] [IsTrans α r] (p : α → Bool) (l : List α) :
    (l.insertionSort r).filter p = (l.filter p).insertionSort r := by
  induction l with
  | nil => rfl
  | cons a rest ih =>
    rw [insertionSort_cons, filter_orderedInsert p (pairwise_insertionSort r rest), ih]
    by_cases kept : p a <;> simp [kept]

/-- By `r`, and by `s` where `r` does not tell two apart. -/
def lex (a b : α) : Prop := r a b ∧ (r b a → s a b)

instance : DecidableRel (lex r s) := fun a b => inferInstanceAs (Decidable (r a b ∧ (r b a → s a b)))

variable {r s}

/-- An insertion by `r` passes one by `lex r s` of an element that `s` puts behind. -/
theorem orderedInsert_lex_comm [Std.Total r] [IsTrans α r] {a b : α} (behind : ¬ s a b) (l : List α)
    (sorted : l.Pairwise r) :
    (l.orderedInsert (lex r s) a).orderedInsert r b = (l.orderedInsert r b).orderedInsert (lex r s) a := by
  have apart : lex r s a b ↔ ¬ r b a := by
    constructor
    · intro before back
      exact behind (before.2 back)
    · intro ahead
      exact ⟨(Std.Total.total a b).resolve_right ahead, fun back => absurd back ahead⟩
  induction l with
  | nil =>
    by_cases before : r b a <;> simp [orderedInsert_cons, apart, before]
  | cons c rest ih =>
    obtain ⟨first, later⟩ := pairwise_cons.mp sorted
    by_cases ahead : lex r s a c
    · by_cases before : r b c
      · by_cases pair : r b a
        · simp [orderedInsert_cons, ahead, before, apart, pair]
        · simp [orderedInsert_cons, ahead, before, apart, pair]
      · -- the element that goes behind `c` goes behind `a` as well
        have pair : ¬ r b a := fun back => before (IsTrans.trans b a c back ahead.1)
        simp [orderedInsert_cons, ahead, before, pair]
    · by_cases before : r b c
      · have pair : r b a := by
          by_contra back
          have forward : r a b := (Std.Total.total a b).resolve_right back
          refine ahead ⟨IsTrans.trans a b c forward before, fun reached => ?_⟩
          exact absurd (IsTrans.trans b c a before reached) back
        simp [orderedInsert_cons, ahead, before, apart, pair]
      · simp [orderedInsert_cons, ahead, before, ih later]

theorem insertionSort_orderedInsert [Std.Total r] [IsTrans α r] [IsTrans α s] {a : α} {l : List α}
    (sorted : l.Pairwise s) :
    (l.orderedInsert s a).insertionSort r = (l.insertionSort r).orderedInsert (lex r s) a := by
  induction l with
  | nil => rfl
  | cons b rest ih =>
    obtain ⟨first, later⟩ := pairwise_cons.mp sorted
    by_cases before : s a b
    · rw [orderedInsert_cons_of_le s rest before, insertionSort_cons]
      refine orderedInsert_congr r (lex r s) fun c member => ?_
      have ahead : s a c := by
        rcases mem_cons.mp ((mem_insertionSort r).mp member) with rfl | member
        · exact before
        · exact IsTrans.trans a b c before (first c member)
      exact ⟨fun le => ⟨le, fun _ => ahead⟩, fun both => both.1⟩
    · rw [orderedInsert_of_not_le s rest before, insertionSort_cons, ih later, insertionSort_cons]
      exact orderedInsert_lex_comm before _ (pairwise_insertionSort r rest)

/-- Sorting by `s` and then by `r` is one sort. -/
theorem insertionSort_insertionSort [Std.Total r] [IsTrans α r] [Std.Total s] [IsTrans α s] (l : List α) :
    (l.insertionSort s).insertionSort r = l.insertionSort (lex r s) := by
  induction l with
  | nil => rfl
  | cons a rest ih =>
    rw [insertionSort_cons, insertionSort_orderedInsert (pairwise_insertionSort s rest), ih, insertionSort_cons]

end Umbilical.StableSort
