import Umbilical.Logs.LineBoundaries

set_option autoImplicit false

/-!
# The first line of a text

Where the terminator of the first line ends, and where none begins.
-/

namespace Umbilical.Logs

open Python Lines

/-- A match that the text that follows completes goes to the end of the text before it. -/
theorem cursorControl_rest {text more rest : Text} (unmatched : cursorControl text = none)
    (found : cursorControl (text ++ more) = some rest) : rest <:+ more := by
  have never {inside : Text} (matched : text = 'u' :: inside ∨ text = '2' :: 'J' :: inside ∨
      ∃ column, afterDigits text = some (';' :: column) ∧
        (afterDigits column = some ('H' :: inside) ∨ afterDigits column = some ('f' :: inside))) : False := by
    rw [cursorControl_iff.mpr matched] at unmatched
    cases unmatched
  -- Digits to the end of the text go on in what follows.
  have beyond {digits column left : Text} (all : ∀ char ∈ digits, char.isDigit)
      (same : digits ++ more = column ++ left) (last : ∀ char, left.head? = some char → ¬ char.isDigit) :
      left = [] ∨ left <:+ more := by
    rcases List.append_eq_append_iff.mp same with ⟨between, _, after⟩ | ⟨between, inside, after⟩
    · exact .inr ⟨between, after.symm⟩
    · cases between with
      | nil =>
        rw [after]
        exact .inr List.suffix_rfl
      | cons char between =>
        have digit := all char (by rw [inside]; simp)
        exact absurd digit (last char (by rw [after]; rfl))
  rcases cursorControl_iff.mp found with same | same | ⟨column, row, ends⟩
  · rcases List.append_eq_cons_iff.mp same with ⟨rfl, rfl⟩ | ⟨inside, rfl, _⟩
    · exact List.suffix_cons _ _
    · exact (never (.inl rfl)).elim
  · rcases List.append_eq_cons_iff.mp same with ⟨rfl, rfl⟩ | ⟨inside, rfl, after⟩
    · exact ⟨['2', 'J'], rfl⟩
    · rcases List.cons_eq_append_iff.mp after with ⟨rfl, rfl⟩ | ⟨inside, rfl, _⟩
      · exact List.suffix_cons _ _
      · exact (never (.inr (.inl rfl))).elim
  · rcases afterDigits_of_append row with ⟨char, inside, started, same⟩ | ⟨digits, _⟩
    · obtain ⟨rfl, rfl⟩ := List.cons.inj same
      -- The row ends within the text, and so the column cannot.
      have column {last : Char} (ends : afterDigits (inside ++ more) = some (last :: rest)) (other : ¬ last.isDigit)
          (closed : ∀ left, afterDigits inside ≠ some (last :: left)) : rest <:+ more := by
        rcases afterDigits_of_append ends with ⟨first, left, closes, same⟩ | ⟨digits, _⟩
        · obtain ⟨rfl, _⟩ := List.cons.inj same
          exact absurd closes (closed left)
        · obtain ⟨front, _, same⟩ := afterDigits_eq ends
          rcases beyond digits same (fun char head => by cases head; exact other) with nothing | suffix
          · cases nothing
          · exact (List.suffix_cons _ _).trans suffix
      rcases ends with ends | ends
      · exact column ends (by decide) fun left closes => never (.inr (.inr ⟨inside, started, .inl closes⟩))
      · exact column ends (by decide) fun left closes => never (.inr (.inr ⟨inside, started, .inr closes⟩))
    · obtain ⟨front, _, same⟩ := afterDigits_eq row
      have later : rest <:+ column := by
        rcases ends with ends | ends
        all_goals exact (List.suffix_cons _ _).trans (afterDigits_suffix ends)
      rcases beyond digits same (fun char head => by cases head; decide) with nothing | suffix
      · cases nothing
      · exact later.trans ((List.suffix_cons _ _).trans suffix)

theorem terminator_rest {char : Char} {text more rest : Text} (unmatched : terminator (char :: text) = none)
    (found : terminator (char :: text ++ more) = some rest) : rest <:+ more := by
  rcases terminator_iff.mp found with same | ⟨next, inside, other, rfl, same⟩ | ⟨inside, same, within⟩ | ⟨inside, same, _⟩
  · obtain ⟨rfl, after⟩ := List.cons.inj same
    rcases List.append_eq_cons_iff.mp after with ⟨rfl, rfl⟩ | ⟨tail, rfl, _⟩
    · exact List.suffix_cons _ _
    · cases unmatched
  · obtain ⟨rfl, after⟩ := List.cons.inj same
    rcases List.append_eq_cons_iff.mp after with ⟨rfl, rfl⟩ | ⟨tail, rfl, _⟩
    · exact List.suffix_rfl
    · rw [terminator_iff.mpr (.inr (.inl ⟨next, tail, other, rfl, rfl⟩))] at unmatched
      cases unmatched
  · obtain ⟨rfl, after⟩ := List.cons.inj same
    rcases List.append_eq_cons_iff.mp after with ⟨rfl, rfl⟩ | ⟨tail, rfl, rfl⟩
    · exact (cursorControl_suffix within).trans (List.suffix_cons _ _)
    · apply cursorControl_rest _ within
      by_contra closed
      obtain ⟨left, closes⟩ := Option.ne_none_iff_exists'.mp closed
      rw [terminator_iff.mpr (.inr (.inr (.inl ⟨tail, rfl, closes⟩)))] at unmatched
      cases unmatched
  · obtain ⟨rfl, _⟩ := List.cons.inj same
    cases unmatched

/-- A text with a whole line begins with it, whatever follows, and with all that has no whole line of its own. -/
theorem firstLine {text : Text} (broken : '\n' ∈ normalize text) :
    ∃ raw body rest, text = raw ++ rest ∧ raw ≠ [] ∧ '\n' ∉ body ∧
      (∀ more, Apart text more → normalize (text ++ more) = body ++ '\n' :: normalize (rest ++ more)) ∧
      ∀ front, front <+: text → '\n' ∉ normalize front → front.length ≤ raw.length := by
  induction text with
  | nil => cases broken
  | cons char text ih =>
    cases matched : terminator (char :: text) with
    | some rest =>
      obtain ⟨eaten, rfl⟩ := terminator_suffix matched
      refine ⟨char :: eaten, [], rest, rfl, List.cons_ne_nil _ _, List.not_mem_nil, fun more apart => ?_, ?_⟩
      · exact normalize_terminator (terminator_append matched fun _ => apart)
      · rintro (_ | ⟨first, front⟩) ⟨later, same⟩ unbroken
        · exact Nat.zero_le _
        · have starts : first :: (front ++ later) = char :: (eaten ++ rest) := same
          obtain ⟨rfl, inside⟩ := List.cons.inj starts
          have unmatched : terminator (first :: front) = none := by
            by_contra closed
            obtain ⟨left, closes⟩ := Option.ne_none_iff_exists'.mp closed
            rw [normalize_terminator closes] at unbroken
            exact unbroken List.mem_cons_self
          rw [← inside] at matched
          have short := (terminator_rest unmatched matched).length_le
          have lengths := congrArg List.length inside
          rw [List.length_append, List.length_append] at lengths
          rw [List.length_cons, List.length_cons]
          omega
    | none =>
      by_cases newline : char = '\n'
      · subst newline
        refine ⟨['\n'], [], text, rfl, List.cons_ne_nil _ _, List.not_mem_nil, fun more _ => ?_, ?_⟩
        · exact normalize_cons rfl
        · rintro (_ | ⟨first, front⟩) ⟨later, same⟩ unbroken
          · exact Nat.zero_le _
          · obtain ⟨rfl, _⟩ := List.cons.inj same
            rw [normalize_cons rfl] at unbroken
            exact absurd List.mem_cons_self unbroken
      · rw [normalize_cons matched, List.mem_cons] at broken
        have later := broken.resolve_left (Ne.symm newline)
        obtain ⟨raw, body, rest, rfl, _, unbroken, first, short⟩ := ih later
        refine ⟨char :: raw, char :: body, rest, rfl, List.cons_ne_nil _ _, ?_, fun more apart => ?_, ?_⟩
        · rw [List.mem_cons, not_or]
          exact ⟨Ne.symm newline, unbroken⟩
        · have unmatched : terminator (char :: (raw ++ rest) ++ more) = none := by
            by_contra closed
            obtain ⟨left, closes⟩ := Option.ne_none_iff_exists'.mp closed
            have plain := (terminator_of_append matched closes).2.1
            rw [normalize_plain plain] at later
            exact absurd rfl (plain _ later).1
          have after : normalize (char :: (raw ++ rest) ++ more) = char :: normalize (raw ++ rest ++ more) :=
            normalize_cons unmatched
          rw [after, first more (apart.suffix (List.suffix_cons _ _)), List.cons_append]
        · rintro (_ | ⟨other, front⟩) ⟨more, same⟩ unbroken'
          · exact Nat.zero_le _
          · have starts : other :: (front ++ more) = char :: (raw ++ rest) := same
            obtain ⟨rfl, within⟩ := List.cons.inj starts
            have inside : '\n' ∉ normalize front := by
              cases closes : terminator (other :: front) with
              | some left =>
                rw [normalize_terminator closes] at unbroken'
                exact absurd List.mem_cons_self unbroken'
              | none =>
                rw [normalize_cons closes] at unbroken'
                exact fun member => unbroken' (List.mem_cons_of_mem _ member)
            exact Nat.succ_le_succ (short front ⟨more, within⟩ inside)

/-- Nothing that `newline_re` matches begins in the first characters of a text. -/
def Unmatched (count : Nat) (text : Text) : Prop :=
  ∀ front back, text = front ++ back → front.length < count → terminator back = none

theorem Unmatched.normalize_eq {count : Nat} {text : Text} (unmatched : Unmatched count text) :
    normalize text = text.take count ++ normalize (text.drop count) := by
  induction count generalizing text with
  | zero => rfl
  | succ count ih =>
    cases text with
    | nil => rfl
    | cons char text =>
      have later : Unmatched count text := fun front back same short =>
        unmatched (char :: front) back (congrArg _ same) (Nat.succ_lt_succ short)
      rw [normalize_cons (unmatched [] (char :: text) rfl (Nat.succ_pos _)), ih later]
      rfl

theorem Unmatched.mono {count more : Nat} {text : Text} (unmatched : Unmatched more text) (less : count ≤ more) :
    Unmatched count text :=
  fun front back same short => unmatched front back same (short.trans_le less)

/-- Nor without the newline that comes in the end. -/
theorem Unmatched.of_newline {count : Nat} {text : Text} (unmatched : Unmatched count (text ++ ['\n'])) :
    Unmatched count text := by
  intro front back same short
  by_contra closed
  obtain ⟨left, closes⟩ := Option.ne_none_iff_exists'.mp closed
  have still := unmatched front (back ++ ['\n']) (by rw [same, List.append_assoc]) short
  rw [terminator_append closes fun _ _ => by decide] at still
  cases still

/-- The normalization of a text without a whole line is unbroken from anywhere on. -/
theorem normalize_of_suffix {text rest : Text} (unbroken : '\n' ∉ normalize text) (suffix : rest <:+ text) :
    '\n' ∉ normalize rest := by
  obtain ⟨front, rfl⟩ := suffix
  induction front with
  | nil => exact unbroken
  | cons char front ih =>
    apply ih
    cases matched : terminator (char :: (front ++ rest)) with
    | some left =>
      rw [List.cons_append, normalize_terminator matched] at unbroken
      exact absurd List.mem_cons_self unbroken
    | none =>
      rw [List.cons_append, normalize_cons matched] at unbroken
      exact fun member => unbroken (List.mem_cons_of_mem _ member)

end Umbilical.Logs
