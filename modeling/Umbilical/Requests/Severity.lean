import Mathlib.Data.List.Basic

set_option autoImplicit false

/-!
# Results and which of them is worse

The numbers that stand for results in the database, of build requests and of
buildsets.
-/

namespace Umbilical.Requests

def SUCCESS : Int := 0
def WARNINGS : Int := 1
def FAILURE : Int := 2
def SKIPPED : Int := 3
def EXCEPTION : Int := 4
def RETRY : Int := 5
def CANCELLED : Int := 6

/-- The results from the worst one on. -/
def severity : List Int := [CANCELLED, RETRY, EXCEPTION, FAILURE, WARNINGS, SUCCESS, SKIPPED]

def worstStatus (a b : Option Int) : Option Int := severity.find? fun s => some s = a ∨ some s = b

def rank (result : Int) : Nat := severity.idxOf result

theorem idxOf_le_of_find {α : Type} [DecidableEq α] {items : List α} {condition : α → Bool} {first other : α}
    (found : items.find? condition = some first) (also : condition other) : items.idxOf first ≤ items.idxOf other := by
  induction items with
  | nil => cases found
  | cons head rest ih =>
    by_cases here : condition head
    · rw [List.find?_cons_of_pos here] at found
      cases found
      simp
    · rw [List.find?_cons_of_neg here] at found
      have apart : ∀ item, condition item → head ≠ item := fun item holds same => here (same ▸ holds)
      rw [List.idxOf_cons_ne _ (apart first (List.find?_some found)), List.idxOf_cons_ne _ (apart other also)]
      exact Nat.succ_le_succ (ih found)

/-- One of several results that is as bad as any of them. -/
structure Worst (among : List (Option Int)) (result : Int) : Prop where
  known : result ∈ severity
  member : some result ∈ among
  least : ∀ other, some other ∈ among → rank result ≤ rank other

theorem worstStatus_worst {a b : Option Int} {result : Int} (worst : worstStatus a b = some result) :
    Worst [a, b] result where
  known := List.mem_of_find?_eq_some worst
  member := by simpa using List.find?_some worst
  least other member := idxOf_le_of_find worst (by simpa using member)

/-- The worst of a result and more of them, one after the other. -/
theorem foldl_worstStatus_worst {first : Int} (known : first ∈ severity) (results : List (Option Int)) :
    ∃ result, results.foldl worstStatus (some first) = some result ∧ Worst (some first :: results) result := by
  induction results generalizing first with
  | nil => exact ⟨first, rfl, known, by simp, by simp⟩
  | cons next results ih =>
    obtain ⟨worse, worst⟩ : ∃ worse, worstStatus (some first) next = some worse := by
      apply Option.isSome_iff_exists.mp
      exact List.find?_isSome.mpr ⟨first, known, by simp⟩
    have step := worstStatus_worst worst
    obtain ⟨result, folded, last⟩ := ih step.known
    refine ⟨result, by rw [List.foldl_cons, worst, folded], last.known, ?_, ?_⟩
    · have member := last.member
      have start := step.member
      simp only [List.mem_cons, List.not_mem_nil, or_false] at member start ⊢
      rcases member with same | later
      · rcases start with left | right
        · exact .inl (same.trans left)
        · exact .inr (.inl (same.trans right))
      · exact .inr (.inr later)
    · intro other member
      have reached := last.least worse (by simp)
      simp only [List.mem_cons] at member
      rcases member with same | same | later
      · exact Nat.le_trans reached (step.least other (by simp [same]))
      · exact Nat.le_trans reached (step.least other (by simp [same]))
      · exact last.least other (by simp [later])

theorem Worst.unique {among : List (Option Int)} {left right : Int} (first : Worst among left)
    (second : Worst among right) : left = right := by
  have same : rank left = rank right := Nat.le_antisymm (first.least right second.member) (second.least left first.member)
  exact (List.idxOf_inj first.known).mp same

end Umbilical.Requests
