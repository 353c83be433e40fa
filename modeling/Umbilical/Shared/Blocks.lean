import Mathlib.Data.List.TakeDrop

set_option autoImplicit false

/-!
# Data cut into blocks

What a sender does that may read so many elements at a time, and no more than a limit in all.
-/

namespace Umbilical

variable {α : Type}

/-- The data cut every `size` elements. -/
def blocks (size : Nat) (data : List α) : List (List α) :=
  if data = [] ∨ size = 0 then [] else data.take size :: blocks size (data.drop size)
termination_by data.length
decreasing_by
  rename_i more
  simp only [not_or] at more
  have nonempty := List.length_pos_iff.mpr more.1
  rw [List.length_drop]
  omega

/-- The data up to a limit. -/
def limited (limit : Option Nat) (data : List α) : List α :=
  match limit with
  | none => data
  | some limit => data.take limit

@[simp] theorem blocks_nil (size : Nat) : blocks size ([] : List α) = [] := by simp [blocks]

theorem blocks_eq_cons {size : Nat} (positive : 0 < size) {data : List α} (nonempty : data ≠ []) :
    blocks size data = data.take size :: blocks size (data.drop size) := by
  rw [blocks, if_neg]
  simp [nonempty, Nat.ne_of_gt positive]

@[simp] theorem limited_nil (limit : Option Nat) : limited limit ([] : List α) = [] := by
  cases limit <;> simp [limited]

@[simp] theorem limited_none (data : List α) : limited none data = data := rfl

@[simp] theorem limited_some (limit : Nat) (data : List α) : limited (some limit) data = data.take limit := rfl

theorem limited_eq_self_iff {limit : Option Nat} {data : List α} :
    limited limit data = data ↔ ∀ most, limit = some most → data.length ≤ most := by
  cases limit with
  | none => simp
  | some most => simp [List.take_eq_self_iff]

theorem take_limited (limit : Option Nat) (data : List α) : data.take (limited limit data).length = limited limit data := by
  cases limit with
  | none => exact List.take_length
  | some limit =>
    rw [limited_some, List.length_take]
    by_cases short : limit ≤ data.length
    · rw [Nat.min_eq_left short]
    · have past : data.length ≤ limit := by omega
      rw [Nat.min_eq_right past, List.take_length, List.take_of_length_le past]

/-- How much one block may hold under the limit. -/
def allowed (size : Nat) (limit : Option Nat) : Nat :=
  match limit with
  | none => size
  | some limit => if size > limit then limit else size

theorem allowed_eq_min (size limit : Nat) : allowed size (some limit) = min size limit := by
  simp only [allowed]
  split <;> omega

theorem take_allowed (size : Nat) (limit : Option Nat) (data : List α) :
    data.take (allowed size limit) = (limited limit data).take size := by
  cases limit with
  | none => rfl
  | some limit => rw [allowed_eq_min, limited_some, List.take_take]

theorem drop_length_take (count : Nat) (data : List α) : data.drop (data.take count).length = data.drop count := by
  rw [List.length_take]
  by_cases short : count ≤ data.length
  · rw [Nat.min_eq_left short]
  · have past : data.length ≤ count := by omega
    rw [Nat.min_eq_right past, List.drop_length, List.drop_eq_nil_of_le past]

theorem take_length_take (count : Nat) (data : List α) : data.take (data.take count).length = data.take count := by
  rw [List.length_take]
  by_cases short : count ≤ data.length
  · rw [Nat.min_eq_left short]
  · have past : data.length ≤ count := by omega
    rw [Nat.min_eq_right past, List.take_length, List.take_of_length_le past]

theorem allowed_eq_zero {size : Nat} (positive : 0 < size) {limit : Option Nat} :
    allowed size limit = 0 ↔ limit = some 0 := by
  cases limit with
  | none => simp [allowed, Nat.ne_of_gt positive]
  | some limit =>
    rw [allowed_eq_min]
    simp only [Option.some.injEq]
    omega

/-- What is left of the data under what is left of the limit. -/
theorem limited_drop (limit : Option Nat) (count : Nat) (data : List α) :
    limited (limit.map (· - count)) (data.drop count) = (limited limit data).drop count := by
  cases limit with
  | none => rfl
  | some limit => simp only [Option.map_some, limited_some, List.drop_take]

end Umbilical
