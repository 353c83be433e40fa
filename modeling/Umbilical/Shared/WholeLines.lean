import Umbilical.Shared.Lines

set_option autoImplicit false

/-!
# Whole lines

A text is cut after its last newline; what was cut off before another text stays as it is.
-/

namespace Umbilical.Lines

variable {α : Type} [DecidableEq α] (newline : α)

/-- The text up to its last newline. -/
def wholeLines : List α → List α
  | [] => []
  | char :: rest => if newline ∈ char :: rest then char :: wholeLines rest else []

/-- What follows the last newline. -/
def lastPart : List α → List α
  | [] => []
  | char :: rest => if newline ∈ char :: rest then lastPart rest else char :: rest

/-- A text that ends with a newline, or is empty. -/
def Whole (text : List α) : Prop := text = [] ∨ ∃ body, text = body ++ [newline]

variable {newline}

theorem wholeLines_append_lastPart (text : List α) : wholeLines newline text ++ lastPart newline text = text := by
  induction text with
  | nil => rfl
  | cons char rest ih =>
    unfold wholeLines lastPart
    split
    · rw [List.cons_append, ih]
    · rfl

theorem not_mem_lastPart (text : List α) : newline ∉ lastPart newline text := by
  induction text with
  | nil => exact List.not_mem_nil
  | cons char rest ih =>
    unfold lastPart
    split
    · exact ih
    · assumption

theorem wholeLines_of_not_mem {text : List α} (unbroken : newline ∉ text) : wholeLines newline text = [] := by
  cases text with
  | nil => rfl
  | cons char rest => exact if_neg unbroken

theorem lastPart_of_not_mem {text : List α} (unbroken : newline ∉ text) : lastPart newline text = text := by
  cases text with
  | nil => rfl
  | cons char rest => exact if_neg unbroken

theorem wholeLines_cons {char : α} {rest : List α} (broken : newline ∈ char :: rest) :
    wholeLines newline (char :: rest) = char :: wholeLines newline rest := if_pos broken

theorem lastPart_cons {char : α} {rest : List α} (broken : newline ∈ char :: rest) :
    lastPart newline (char :: rest) = lastPart newline rest := if_pos broken

theorem wholeLines_ends {text : List α} (broken : newline ∈ text) : ∃ body, wholeLines newline text = body ++ [newline] := by
  induction text with
  | nil => cases broken
  | cons char rest ih =>
    rw [wholeLines_cons broken]
    by_cases later : newline ∈ rest
    · obtain ⟨body, ends⟩ := ih later
      exact ⟨char :: body, congrArg _ ends⟩
    · obtain rfl := (List.mem_cons.mp broken).resolve_right later
      exact ⟨[], congrArg _ (wholeLines_of_not_mem later)⟩

theorem wholeLines_whole (text : List α) : Whole newline (wholeLines newline text) := by
  by_cases broken : newline ∈ text
  · exact .inr (wholeLines_ends broken)
  · exact .inl (wholeLines_of_not_mem broken)

theorem wholeLines_of_whole {text : List α} (whole : Whole newline text) :
    wholeLines newline text = text ∧ lastPart newline text = [] := by
  rcases whole with rfl | ⟨body, rfl⟩
  · exact ⟨rfl, rfl⟩
  · induction body with
    | nil => simp [wholeLines, lastPart]
    | cons char body ih =>
      have broken : newline ∈ char :: (body ++ [newline]) := by simp
      rw [List.cons_append, wholeLines_cons broken, lastPart_cons broken, ih.1, ih.2]
      exact ⟨rfl, rfl⟩

/-- A text with a newline in it is cut there, whatever is before it. -/
theorem wholeLines_append_of_mem {text : List α} (broken : newline ∈ text) (before : List α) :
    wholeLines newline (before ++ text) = before ++ wholeLines newline text ∧
      lastPart newline (before ++ text) = lastPart newline text := by
  induction before with
  | nil => exact ⟨rfl, rfl⟩
  | cons char before ih =>
    have later : newline ∈ char :: (before ++ text) := List.mem_cons_of_mem _ (List.mem_append_right before broken)
    rw [List.cons_append, wholeLines_cons later, lastPart_cons later, ih.1, ih.2]
    exact ⟨rfl, rfl⟩

theorem wholeLines_eq_nil {text : List α} : wholeLines newline text = [] ↔ newline ∉ text := by
  refine ⟨fun nothing broken => ?_, wholeLines_of_not_mem⟩
  obtain ⟨body, ends⟩ := wholeLines_ends broken
  rw [nothing] at ends
  simp at ends

omit [DecidableEq α] in
theorem Whole.append {before text : List α} (first : Whole newline before) (second : Whole newline text) :
    Whole newline (before ++ text) := by
  rcases second with rfl | ⟨body, rfl⟩
  · rwa [List.append_nil]
  · exact .inr ⟨before ++ body, (List.append_assoc ..).symm⟩

omit [DecidableEq α] in
theorem getLast_eq_newline {text : List α} : text.getLast? = some newline ↔ Whole newline text ∧ text ≠ [] := by
  constructor
  · intro ends
    obtain ⟨body, rfl⟩ := List.getLast?_eq_some_iff.mp ends
    exact ⟨.inr ⟨body, rfl⟩, by simp⟩
  · rintro ⟨whole, something⟩
    obtain ⟨body, rfl⟩ := whole.resolve_left something
    exact List.getLast?_concat

omit [DecidableEq α] in
theorem Whole.right {before text : List α} (whole : Whole newline (before ++ text)) : Whole newline text := by
  rcases List.eq_nil_or_concat text with rfl | ⟨body, last, rfl⟩
  · exact .inl rfl
  · rcases whole with nothing | ⟨lines, ends⟩
    · exact absurd (List.append_eq_nil_iff.mp nothing).2 (by simp)
    · rw [List.concat_eq_append, ← List.append_assoc] at ends
      obtain ⟨_, same⟩ := List.append_inj' ends rfl
      exact .inr ⟨body, by rw [List.concat_eq_append, same]⟩

/-- Whole lines before a text stay whole lines. -/
theorem wholeLines_append {before : List α} (whole : Whole newline before) (text : List α) :
    wholeLines newline (before ++ text) = before ++ wholeLines newline text ∧
      lastPart newline (before ++ text) = lastPart newline text := by
  rcases whole with rfl | ⟨body, rfl⟩
  · exact ⟨rfl, rfl⟩
  · induction body with
    | nil =>
      have broken : newline ∈ newline :: text := List.mem_cons_self
      exact ⟨wholeLines_cons broken, lastPart_cons broken⟩
    | cons char body ih =>
      have broken : newline ∈ char :: (body ++ [newline] ++ text) := by simp
      rw [List.cons_append, List.cons_append, wholeLines_cons broken, lastPart_cons broken, ih.1, ih.2]
      exact ⟨rfl, rfl⟩

theorem readLines_whole {before : List α} (whole : Whole newline before) (text : List α) :
    readLines newline (before ++ text) = readLines newline before ++ readLines newline text := by
  rcases whole with rfl | ⟨body, rfl⟩
  · rfl
  · rw [List.append_assoc]
    exact readLines_append newline body text

theorem Whole.ended {text line : List α} (whole : Whole newline text) (member : line ∈ readLines newline text) :
    ∃ inside, newline ∉ inside ∧ line = inside ++ [newline] := by
  rcases whole with rfl | ⟨body, rfl⟩
  · cases member
  · exact ended_of_mem_readLines newline member

end Umbilical.Lines
