import Umbilical.Data.ResultSpec
import Umbilical.Shared.StableSort

set_option autoImplicit false

/-!
# The order of results

The keys of an order compare lexicographically, in Python and in SQL. So a sort by some
keys after a sort by others is a sort by all of them.
-/

namespace Umbilical.Data

open StableSort

variable {φ ν α : Type} [LinearOrder ν]

/-- The comparison of one key. -/
def before (reverse : Bool) (a b : Option ν) : Bool := if reverse then noneLt b a else noneLt a b

theorem noneLt_trans {a b c : Option ν} (first : noneLt a b) (second : noneLt b c) : noneLt a c := by
  cases a <;> cases b <;> cases c <;> simp [noneLt] at *
  exact first.trans second

theorem noneLt_asymm {a b : Option ν} (first : noneLt a b) : noneLt b a = false := by
  cases a <;> cases b <;> simp [noneLt] at *
  exact first.le

theorem noneLt_connected {a b : Option ν} (different : a ≠ b) : noneLt a b ∨ noneLt b a := by
  cases a <;> cases b <;> simp [noneLt] at *
  exact different

theorem before_trans {reverse : Bool} {a b c : Option ν} (first : before reverse a b) (second : before reverse b c) :
    before reverse a c := by
  cases reverse
  · exact noneLt_trans first second
  · exact noneLt_trans second first

theorem before_asymm {reverse : Bool} {a b : Option ν} (first : before reverse a b) : before reverse b a = false := by
  cases reverse
  · exact noneLt_asymm first
  · exact noneLt_asymm first

theorem before_connected (reverse : Bool) {a b : Option ν} (different : a ≠ b) :
    before reverse a b ∨ before reverse b a := by
  cases reverse
  · exact noneLt_connected different
  · exact (noneLt_connected different).symm

variable (value : α → φ → Option ν)

theorem keyLt_cons (k : Key φ) (rest : List (Key φ)) (a b : α) : keyLt value (k :: rest) a b =
    if value a k.field = value b k.field then keyLt value rest a b
    else before k.reverse (value a k.field) (value b k.field) := rfl

theorem keyLt_asymm {order : List (Key φ)} {a b : α} (first : keyLt value order a b) : keyLt value order b a = false := by
  induction order with
  | nil => rfl
  | cons k rest ih =>
    rw [keyLt_cons] at first ⊢
    by_cases same : value a k.field = value b k.field
    · rw [if_pos same] at first
      rw [if_pos same.symm]
      exact ih first
    · rw [if_neg same] at first
      rw [if_neg (Ne.symm same)]
      exact before_asymm first

instance (order : List (Key φ)) : Std.Total (Ordered value order) where
  total a b := by
    by_cases less : keyLt value order b a
    · exact .inr (keyLt_asymm value less)
    · exact .inl (Bool.eq_false_of_not_eq_true less)

instance (order : List (Key φ)) : IsTrans α (Ordered value order) where
  trans a b c := by
    unfold Ordered
    induction order with
    | nil => exact fun _ _ => rfl
    | cons k rest ih =>
      intro first second
      rw [keyLt_cons] at *
      by_cases left : value b k.field = value a k.field <;> by_cases right : value c k.field = value b k.field
      · rw [if_pos left] at first
        rw [if_pos right] at second
        rw [if_pos (right.trans left)]
        exact ih first second
      · rw [if_neg right] at second
        rw [← left, if_neg right]
        exact second
      · rw [if_neg left] at first
        rw [right, if_neg left]
        exact first
      · rw [if_neg left] at first
        rw [if_neg right] at second
        -- the key puts `a` before `b` and `b` before `c`
        have ahead := (before_connected k.reverse left).resolve_left (by simp [first])
        have behind := (before_connected k.reverse right).resolve_left (by simp [second])
        have both := before_trans ahead behind
        have apart : value c k.field ≠ value a k.field := by
          intro same
          rw [same] at both
          exact absurd both (by rw [before_asymm both]; decide)
        rw [if_neg apart]
        exact before_asymm both

/-- Keys that do not tell two apart do not count. -/
theorem keyLt_filter {p : Key φ → Bool} {order : List (Key φ)} {a b : α}
    (tied : ∀ o ∈ order, p o → value a o.field = value b o.field) :
    keyLt value order a b = keyLt value (order.filter fun o => !p o) a b := by
  induction order with
  | nil => rfl
  | cons k rest ih =>
    have later := ih fun o member => tied o (List.mem_cons_of_mem k member)
    by_cases counts : p k
    · rw [keyLt_cons, if_pos (tied k List.mem_cons_self counts), later, List.filter_cons_of_neg (by simp [counts])]
    · rw [List.filter_cons_of_pos (by simp [counts]), keyLt_cons, keyLt_cons, later]

/-- Two that stand in either order have the same values. -/
theorem tied_of_ordered {order : List (Key φ)} {a b : α} (first : Ordered value order a b)
    (second : Ordered value order b a) : ∀ o ∈ order, value a o.field = value b o.field := by
  unfold Ordered at first second
  induction order with
  | nil => simp
  | cons k rest ih =>
    rw [keyLt_cons] at first second
    have same : value a k.field = value b k.field := by
      by_contra different
      rw [if_neg (Ne.symm different)] at first
      rw [if_neg different] at second
      rcases before_connected k.reverse different with less | less
      · exact absurd less (by simp [second])
      · exact absurd less (by simp [first])
    rw [if_pos same.symm] at first
    rw [if_pos same] at second
    exact List.forall_mem_cons.mpr ⟨same, ih first second⟩

theorem ordered_of_tied {order : List (Key φ)} {a b : α} (tied : ∀ o ∈ order, value a o.field = value b o.field) :
    Ordered value order a b := by
  have none_ : order.filter (fun _ => !true) = [] := by simp
  unfold Ordered
  rw [keyLt_filter value (p := fun _ => true) fun o member _ => (tied o member).symm, none_]
  rfl

/-- The keys of a longer order decide where the first ones do not. -/
theorem ordered_append (first second : List (Key φ)) (a b : α) :
    Ordered value (first ++ second) a b ↔ lex (Ordered value first) (Ordered value second) a b := by
  unfold lex Ordered
  induction first with
  | nil => simp [keyLt]
  | cons k rest ih =>
    rw [List.cons_append]
    simp only [keyLt_cons]
    by_cases same : value b k.field = value a k.field
    · simp only [same, if_true]
      exact ih
    · have other : value a k.field ≠ value b k.field := fun equal => same equal.symm
      simp only [same, other, if_false]
      refine ⟨fun ahead => ⟨ahead, fun back => ?_⟩, fun both => both.1⟩
      -- a key that differs puts one of the two before the other
      rcases before_connected k.reverse same with less | less
      · exact absurd less (by simp [ahead])
      · exact absurd less (by simp [back])

theorem insertionSort_append (first second : List (Key φ)) (l : List α) :
    (l.insertionSort (Ordered value second)).insertionSort (Ordered value first) =
      l.insertionSort (Ordered value (first ++ second)) := by
  rw [insertionSort_insertionSort]
  have same : lex (Ordered value first) (Ordered value second) = Ordered value (first ++ second) := by
    funext a b
    exact propext (ordered_append value first second a b).symm
  congr

theorem insertionSort_nil_order (l : List α) : l.insertionSort (Ordered value []) = l :=
  List.Pairwise.insertionSort_eq (List.pairwise_of_forall fun _ _ => rfl)

end Umbilical.Data
