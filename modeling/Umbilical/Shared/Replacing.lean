import Mathlib.Data.List.Infix

set_option autoImplicit false

/-!
# Replacing

Every occurrence of one text in another is replaced, from the left and without overlap.
-/

namespace Umbilical.Replacing

variable {α : Type} [DecidableEq α] (old new : List α)

/-- What is made of a text of which so much is part of the last occurrence. -/
def replaceFrom : Nat → List α → List α
  | _, [] => []
  | skip + 1, _ :: text => replaceFrom skip text
  | 0, char :: text =>
    if old <+: char :: text then new ++ replaceFrom (old.length - 1) text else char :: replaceFrom 0 text

/-- Replacing a text that is not empty. -/
def replace (text : List α) : List α := replaceFrom old new 0 text

theorem replaceFrom_append (skipped rest : List α) :
    replaceFrom old new skipped.length (skipped ++ rest) = replace old new rest := by
  induction skipped with
  | nil => rfl
  | cons char skipped ih => exact ih

@[simp] theorem replace_nil : replace old new [] = [] := rfl

variable {old}

theorem replace_old (something : old ≠ []) (rest : List α) : replace old new (old ++ rest) = new ++ replace old new rest := by
  cases old with
  | nil => exact absurd rfl something
  | cons char old =>
    rw [List.cons_append, replace, replaceFrom, if_pos ⟨rest, rfl⟩, List.length_cons, Nat.add_sub_cancel,
      replaceFrom_append]

theorem replace_cons {char : α} {text : List α} (absent : ¬ old <+: char :: text) :
    replace old new (char :: text) = char :: replace old new text := by
  rw [replace, replaceFrom, if_neg absent]
  rfl

theorem replace_of_absent {text : List α} (absent : ¬ old <:+: text) : replace old new text = text := by
  induction text with
  | nil => rfl
  | cons char text ih =>
    have start : ¬ old <+: char :: text := fun found => absent found.isInfix
    have later : ¬ old <:+: text := fun found => absent (found.trans (List.suffix_cons char text).isInfix)
    rw [replace_cons new start, ih later]

omit [DecidableEq α] in
/-- What occurs in a text of two parts occurs in one of them or goes on from one to the other. -/
theorem infix_append_cases {part front back : List α} (inside : part <:+: front ++ back) :
    part <:+: front ∨ part <:+: back ∨
      ∃ left right, left ≠ [] ∧ right ≠ [] ∧ part = left ++ right ∧ left <:+ front ∧ right <+: back := by
  obtain ⟨before, after, same⟩ := inside
  rcases List.append_eq_append_iff.mp same with ⟨rest, rfl, rfl⟩ | ⟨right, crossing, rfl⟩
  · exact .inl ⟨before, rest, rfl⟩
  rcases List.append_eq_append_iff.mp crossing with ⟨left, rfl, rfl⟩ | ⟨rest, rfl, rfl⟩
  · by_cases empty : left = []
    · exact .inr (.inl ⟨[], after, by rw [empty]; rfl⟩)
    by_cases nothing : right = []
    · exact .inl ⟨before, [], by simp [nothing]⟩
    · exact .inr (.inr ⟨left, right, empty, nothing, rfl, ⟨before, rfl⟩, ⟨after, rfl⟩⟩)
  · exact .inr (.inl ⟨rest, after, rfl⟩)

/-- A text is as it was, or the first occurrence in it is replaced and the rest after it. -/
theorem replace_cases (something : old ≠ []) (text : List α) :
    ¬ old <:+: text ∨ ∃ before after, text = before ++ (old ++ after) ∧ ¬ old <:+: before ∧
      replace old new text = before ++ (new ++ replace old new after) := by
  induction text with
  | nil => exact .inl fun inside => something (List.infix_nil.mp inside)
  | cons char text ih =>
    by_cases start : old <+: char :: text
    · obtain ⟨after, same⟩ := start
      refine .inr ⟨[], after, same.symm, fun inside => something (List.infix_nil.mp inside), ?_⟩
      rw [← same, replace_old new something]
      rfl
    · rcases ih with absent | ⟨before, after, same, absent, replaced⟩
      · exact .inl fun inside => (List.infix_cons_iff.mp inside).elim start absent
      · refine .inr ⟨char :: before, after, congrArg _ same, fun inside => ?_, ?_⟩
        · rcases List.infix_cons_iff.mp inside with here | later
          · apply start
            rw [same]
            exact here.trans (List.prefix_append (char :: before) (old ++ after))
          · exact absent later
        · rw [replace_cons new start, replaced]
          rfl

/-- The end of one text is the start of another. -/
def Overlaps (first second : List α) : Prop := ∃ common, common ≠ [] ∧ common <:+ first ∧ common <+: second

/-- Two texts of which neither can be seen in part where the other is. -/
structure Detached (part new : List α) : Prop where
  before : ¬ Overlaps part new
  after : ¬ Overlaps new part
  outside : ¬ part <:+: new
  around : ¬ new <:+: part

variable {new}

omit [DecidableEq α] in
theorem Detached.symm {part : List α} (apart : Detached part new) : Detached new part :=
  ⟨apart.after, apart.before, apart.around, apart.outside⟩

omit [DecidableEq α] in
theorem Detached.of_disjoint {part : List α} (something : part ≠ []) (other : new ≠ []) (disjoint : part.Disjoint new) :
    Detached part new := by
  have apart {common : List α} (nonempty : common ≠ []) (inside : common ⊆ part) (also : common ⊆ new) : False :=
    disjoint (inside (List.head_mem nonempty)) (also (List.head_mem nonempty))
  refine ⟨?_, ?_, ?_, ?_⟩
  · rintro ⟨common, nonempty, ends, starts⟩
    exact apart nonempty ends.subset starts.subset
  · rintro ⟨common, nonempty, ends, starts⟩
    exact apart nonempty starts.subset ends.subset
  · intro inside
    exact apart something (List.Subset.refl _) inside.subset
  · intro inside
    exact apart other inside.subset (List.Subset.refl _)

omit [DecidableEq α] in
/-- A text that goes on into a text that starts with another overlaps it or has it inside. -/
theorem Detached.not_into {part left right after : List α} (apart : Detached part new) (same : part = left ++ right)
    (something : right ≠ []) (starts : right <+: new ++ after) : False := by
  rcases List.prefix_or_prefix_of_prefix starts (List.prefix_append new after) with short | long
  · exact apart.before ⟨right, something, ⟨left, same.symm⟩, short⟩
  · rw [same] at apart
    exact apart.around (long.isInfix.trans (List.suffix_append left right).isInfix)

omit [DecidableEq α] in
theorem Detached.not_from {part left right before : List α} (apart : Detached part new) (same : part = left ++ right)
    (something : left ≠ []) (ends : left <:+ before ++ new) : False := by
  rcases List.suffix_or_suffix_of_suffix ends (List.suffix_append before new) with short | long
  · exact apart.after ⟨left, something, short, ⟨right, same.symm⟩⟩
  · rw [same] at apart
    exact apart.around (long.isInfix.trans (List.prefix_append left right).isInfix)

omit [DecidableEq α] in
theorem Detached.infix_cases {part before after : List α} (apart : Detached part new)
    (inside : part <:+: before ++ (new ++ after)) : part <:+: before ∨ part <:+: after := by
  rcases infix_append_cases inside with here | there | ⟨left, right, _, something, same, _, starts⟩
  · exact .inl here
  · rcases infix_append_cases there with within | later | ⟨left, right, something, _, same, ends, _⟩
    · exact absurd within apart.outside
    · exact .inr later
    · exact (apart.not_from same something (ends.trans (List.suffix_append [] new))).elim
  · exact (apart.not_into same something starts).elim

/-- Replacing does not make a text that is apart from the replacement. -/
theorem infix_of_replace (something : old ≠ []) {part text : List α} (apart : Detached part new)
    (inside : part <:+: replace old new text) : part <:+: text := by
  induction length : text.length using Nat.strong_induction_on generalizing text with
  | _ n ih =>
    subst length
    rcases replace_cases new something text with absent | ⟨before, after, same, _, replaced⟩
    · rwa [replace_of_absent new absent] at inside
    · rw [replaced] at inside
      rw [same]
      rcases apart.infix_cases inside with here | there
      · exact List.infix_append_of_infix_left here
      · have shorter : after.length < text.length := by
          have positive := List.length_pos_iff.mpr something
          simp only [same, List.length_append]
          omega
        have later := ih after.length shorter there rfl
        exact List.infix_append_of_infix_right (List.infix_append_of_infix_right later)

/-- What is replaced is gone. -/
theorem not_infix_replace (something : old ≠ []) (apart : Detached old new) (text : List α) :
    ¬ old <:+: replace old new text := by
  induction length : text.length using Nat.strong_induction_on generalizing text with
  | _ n ih =>
    subst length
    rcases replace_cases new something text with absent | ⟨before, after, same, absent, replaced⟩
    · rwa [replace_of_absent new absent]
    · rw [replaced]
      intro inside
      rcases apart.infix_cases inside with here | there
      · exact absent here
      · have shorter : after.length < text.length := by
          have positive := List.length_pos_iff.mpr something
          simp only [same, List.length_append]
          omega
        exact ih after.length shorter after rfl there

/-- A text of which no part of an occurrence can reach into `fixed` cuts the replacing in two. -/
theorem replace_cut (something : old ≠ []) {fixed out after : List α}
    (here : replace old new (fixed ++ after) = out ++ replace old new after)
    (never : ∀ left right, old = left ++ right → left ≠ [] → right ≠ [] → ¬ right <+: fixed ++ after)
    (before : List α) :
    replace old new (before ++ (fixed ++ after)) = replace old new before ++ (out ++ replace old new after) := by
  induction length : before.length using Nat.strong_induction_on generalizing before with
  | _ n ih =>
    subst length
    cases before with
    | nil => exact here
    | cons char before =>
      by_cases start : old <+: char :: before
      · obtain ⟨rest, same⟩ := start
        have shorter : rest.length < (char :: before).length := by
          have positive := List.length_pos_iff.mpr something
          rw [← same, List.length_append]
          omega
        rw [← same, List.append_assoc, replace_old new something, replace_old new something,
          ih rest.length shorter rest rfl, List.append_assoc]
      · have absent : ¬ old <+: char :: (before ++ (fixed ++ after)) := by
          intro found
          rcases List.prefix_or_prefix_of_prefix found (List.prefix_append (char :: before) (fixed ++ after)) with
            short | ⟨right, same⟩
          · exact start short
          · obtain ⟨rest, whole⟩ := found
            rw [← same, List.append_assoc, List.cons_append] at whole
            have follows := List.append_cancel_left (List.cons.inj whole).2
            by_cases nothing : right = []
            · rw [nothing, List.append_nil] at same
              exact start ⟨[], by rw [List.append_nil, same]⟩
            · exact never _ right same.symm (List.cons_ne_nil _ _) nothing ⟨rest, follows⟩
        rw [List.cons_append, replace_cons new absent, replace_cons new start,
          ih before.length (Nat.lt_succ_self _) before rfl]
        rfl

/-- A text apart from what is replaced stays where it is. -/
theorem replace_apart (something : old ≠ []) {fixed : List α} (apart : Detached old fixed) (before after : List α) :
    replace old new (before ++ (fixed ++ after)) = replace old new before ++ (fixed ++ replace old new after) := by
  have inside (rest : List α) (suffix : rest <:+ fixed) :
      replace old new (rest ++ after) = rest ++ replace old new after := by
    induction rest with
    | nil => rfl
    | cons char rest ih =>
      have absent : ¬ old <+: char :: (rest ++ after) := by
        intro start
        rcases List.prefix_or_prefix_of_prefix start (List.prefix_append (char :: rest) after) with short | long
        · exact apart.outside (short.isInfix.trans suffix.isInfix)
        · exact apart.after ⟨char :: rest, List.cons_ne_nil _ _, suffix, long⟩
      rw [List.cons_append, replace_cons new absent, ih ((List.suffix_cons char rest).trans suffix)]
      rfl
  exact replace_cut something (inside fixed List.suffix_rfl)
    (fun _ _ same _ something starts => apart.not_into same something starts) before

/-- No end of the text but the whole of it is its start. -/
def Borderless (text : List α) : Prop := ∀ common, common ≠ [] → common <:+ text → common <+: text → common = text

omit [DecidableEq α] in
theorem borderless_of_head {char : α} {rest : List α} (once : char ∉ rest) : Borderless (char :: rest) := by
  intro common nonempty ends starts
  cases common with
  | nil => exact absurd rfl nonempty
  | cons other common =>
    obtain rfl := (List.cons_prefix_cons.mp starts).1
    rcases List.suffix_cons_iff.mp ends with whole | short
    · exact whole
    · exact absurd (short.subset List.mem_cons_self) once

theorem replace_self (something : old ≠ []) (borderless : Borderless old) (before after : List α) :
    replace old new (before ++ (old ++ after)) = replace old new before ++ (new ++ replace old new after) := by
  refine replace_cut something (replace_old new something after) (fun left right same nonempty rest starts => ?_) before
  have suffix : right <:+ old := ⟨left, same.symm⟩
  rcases List.prefix_or_prefix_of_prefix starts (List.prefix_append old after) with short | long
  · have whole := borderless right rest suffix short
    rw [whole] at same
    exact nonempty (by simpa using same)
  · have lengths := congrArg List.length same
    have most := long.length_le
    have positive := List.length_pos_iff.mpr nonempty
    rw [List.length_append] at lengths
    omega

/-- A text ends as it did, or with the replacement. -/
theorem replace_ends (something : old ≠ []) {text : List α} {char : α} (ends : text.getLast? = some char) :
    (replace old new text).getLast? = some char ∨ new <:+ replace old new text := by
  induction length : text.length using Nat.strong_induction_on generalizing text with
  | _ n ih =>
    subst length
    rcases replace_cases new something text with absent | ⟨before, after, same, _, replaced⟩
    · rw [replace_of_absent new absent]
      exact .inl ends
    · rw [replaced, ← List.append_assoc]
      by_cases nothing : after = []
      · rw [nothing, replace_nil, List.append_nil]
        exact .inr (List.suffix_append before new)
      · have shorter : after.length < text.length := by
          have positive := List.length_pos_iff.mpr something
          simp only [same, List.length_append]
          omega
        rw [same, ← List.append_assoc, List.getLast?_append_of_ne_nil _ nothing] at ends
        rcases ih after.length shorter ends rfl with kept | last
        · left
          rw [List.getLast?_append, kept]
          rfl
        · exact .inr (last.trans (List.suffix_append _ _))

/-- Replacing goes on between the places where a text apart from what is replaced stands. -/
theorem replace_intercalate (something : old ≠ []) {fixed : List α} (apart : Detached old fixed) (parts : List (List α)) :
    replace old new (fixed.intercalate parts) = fixed.intercalate (parts.map (replace old new)) := by
  induction parts with
  | nil => rfl
  | cons part rest ih =>
    cases rest with
    | nil => simp [List.intercalate]
    | cons next rest =>
      rw [List.map_cons, List.map_cons, List.intercalate_cons_cons, List.intercalate_cons_cons, List.append_assoc,
        List.append_assoc, replace_apart something apart, ih]
      rfl

theorem replace_intercalate_self (something : old ≠ []) (borderless : Borderless old) (parts : List (List α)) :
    replace old new (old.intercalate parts) = new.intercalate (parts.map (replace old new)) := by
  induction parts with
  | nil => rfl
  | cons part rest ih =>
    cases rest with
    | nil => simp [List.intercalate]
    | cons next rest =>
      rw [List.map_cons, List.map_cons, List.intercalate_cons_cons, List.intercalate_cons_cons, List.append_assoc,
        List.append_assoc, replace_self something borderless, ih]
      rfl

/-- A text with places that are filled with one value. -/
abbrev Template (α : Type) := List (Option α)

def fill (value : List α) (template : Template α) : List α :=
  template.flatMap fun place =>
    match place with
    | none => value
    | some char => [char]

omit [DecidableEq α] in
theorem fill_append (value : List α) (first second : Template α) :
    fill value (first ++ second) = fill value first ++ fill value second := List.flatMap_append

omit [DecidableEq α] in
theorem exists_parts (template : Template α) : ∃ part parts, ∀ value,
    fill value template = value.intercalate (part :: parts) := by
  induction template with
  | nil => exact ⟨[], [], fun value => by simp [fill, List.intercalate]⟩
  | cons place rest ih =>
    obtain ⟨part, parts, same⟩ := ih
    cases place with
    | none =>
      refine ⟨[], part :: parts, fun value => ?_⟩
      rw [List.intercalate_cons_cons, ← same]
      rfl
    | some char =>
      refine ⟨char :: part, parts, fun value => ?_⟩
      have first : fill value (some char :: rest) = char :: fill value rest := rfl
      rw [first, same]
      cases parts with
      | nil => simp [List.intercalate]
      | cons next parts => rw [List.intercalate_cons_cons, List.intercalate_cons_cons]; rfl

end Umbilical.Replacing
