import Mathlib.Data.List.Infix
import Mathlib.Data.List.TakeWhile
import Umbilical.Python.Text
import Umbilical.Shared.WholeLines

set_option autoImplicit false

/-!
# Whole lines from pieces of text

`newline_re` replaces what ends a line on a terminal by a newline. What follows the last newline
is kept back until more comes.
-/

namespace Umbilical.Logs

open Python Lines

/-- What is left of the text after `[0-9]+`. -/
def afterDigits (text : Text) : Option Text :=
  match text with
  | [] => none
  | char :: rest => if char.isDigit then some (rest.dropWhile Char.isDigit) else none

/-- What is left of the text after a match of `u|[0-9]+;[0-9]+[Hf]|2J` at its start. -/
def cursorControl (text : Text) : Option Text :=
  match text with
  | 'u' :: rest => some rest
  | '2' :: 'J' :: rest => some rest
  | _ =>
    match afterDigits text with
    | some (';' :: column) =>
      match afterDigits column with
      | some ('H' :: rest) => some rest
      | some ('f' :: rest) => some rest
      | _ => none
    | _ => none

/-- What is left of the text after a match of `newline_re` at its start. -/
def terminator (text : Text) : Option Text :=
  match text with
  | '\r' :: '\n' :: rest => some rest
  | '\r' :: char :: rest => some (char :: rest)
  | '\x1b' :: '[' :: rest => cursorControl rest
  | '\x08' :: rest => some (rest.dropWhile (· = '\x08'))
  | _ => none

theorem afterDigits_eq {text rest : Text} (found : afterDigits text = some rest) :
    ∃ digits, (∀ char ∈ digits, char.isDigit) ∧ text = digits ++ rest := by
  cases text with
  | nil => cases found
  | cons char text =>
    by_cases digit : char.isDigit
    · rw [afterDigits, if_pos digit] at found
      cases found
      refine ⟨char :: text.takeWhile Char.isDigit, fun other member => ?_, by simp⟩
      rcases List.mem_cons.mp member with rfl | later
      · exact digit
      · exact List.mem_takeWhile_imp later
    · rw [afterDigits, if_neg digit] at found
      cases found

theorem afterDigits_suffix {text rest : Text} (found : afterDigits text = some rest) : rest <:+ text := by
  obtain ⟨digits, _, rfl⟩ := afterDigits_eq found
  exact List.suffix_append digits rest

theorem cursorControl_suffix {text rest : Text} (found : cursorControl text = some rest) : rest <:+ text := by
  unfold cursorControl at found
  split at found
  · cases found
    exact List.suffix_cons _ _
  · cases found
    exact ⟨['2', 'J'], rfl⟩
  · split at found
    · rename_i column row
      have shorter : column <:+ text := (List.suffix_cons _ _).trans (afterDigits_suffix row)
      split at found
      · rename_i ends
        cases found
        exact ((List.suffix_cons _ _).trans (afterDigits_suffix ends)).trans shorter
      · rename_i ends
        cases found
        exact ((List.suffix_cons _ _).trans (afterDigits_suffix ends)).trans shorter
      · cases found
    · cases found

theorem terminator_suffix {char : Char} {text rest : Text} (found : terminator (char :: text) = some rest) :
    rest <:+ text := by
  unfold terminator at found
  split at found
  · rename_i same
    cases found
    cases same
    exact List.suffix_cons _ _
  · rename_i same
    cases found
    cases same
    exact List.suffix_rfl
  · rename_i same
    cases same
    exact (cursorControl_suffix found).trans (List.suffix_cons _ _)
  · rename_i same
    cases found
    cases same
    exact List.dropWhile_suffix _
  · cases found

/-- The text from where the last match ends, with what it still covers to be skipped. -/
def normalizeFrom : Nat → Text → Text
  | _, [] => []
  | skip + 1, _ :: text => normalizeFrom skip text
  | 0, char :: text =>
    match terminator (char :: text) with
    | some rest => '\n' :: normalizeFrom (text.length - rest.length) text
    | none => char :: normalizeFrom 0 text

/-- `newline_re.sub('\n', text)` -/
def normalize (text : Text) : Text := normalizeFrom 0 text

theorem normalizeFrom_append (skipped rest : Text) : normalizeFrom skipped.length (skipped ++ rest) = normalize rest := by
  induction skipped with
  | nil => rfl
  | cons char skipped ih => exact ih

@[simp] theorem normalize_nil : normalize [] = [] := rfl

theorem normalize_terminator {char : Char} {text rest : Text} (found : terminator (char :: text) = some rest) :
    normalize (char :: text) = '\n' :: normalize rest := by
  obtain ⟨skipped, rfl⟩ := terminator_suffix found
  rw [normalize, normalizeFrom, found]
  simp [normalizeFrom_append]

theorem normalize_cons {char : Char} {text : Text} (none : terminator (char :: text) = none) :
    normalize (char :: text) = char :: normalize text := by
  rw [normalize, normalizeFrom, none]
  rfl

/-- The whole lines of a text, normalized, and what follows the last of them. -/
def complete (text : Text) : Text := wholeLines '\n' (normalize text)

def unfinished (text : Text) : Text := lastPart '\n' (normalize text)

theorem afterDigits_append {text rest : Text} {char : Char} (found : afterDigits text = some (char :: rest)) (more : Text) :
    afterDigits (text ++ more) = some (char :: rest ++ more) := by
  cases text with
  | nil => cases found
  | cons first text =>
    simp only [afterDigits, List.cons_append] at found ⊢
    split at found
    · rename_i digit
      rw [if_pos digit, List.dropWhile_append, Option.some.inj found]
      rfl
    · cases found

/-- Digits at the start of a text end within it, or it has nothing else and what follows goes on with digits or what
is left. -/
theorem afterDigits_of_append {text more rest : Text} (found : afterDigits (text ++ more) = some rest) :
    (∃ char inside, afterDigits text = some (char :: inside) ∧ rest = char :: inside ++ more) ∨
      (∀ char ∈ text, char.isDigit) ∧ ∀ char, more.head? = some char → char.isDigit ∨ rest.head? = some char := by
  cases text with
  | nil =>
    refine .inr ⟨nofun, fun char head => ?_⟩
    obtain ⟨tail, rfl⟩ := List.head?_eq_some_iff.mp head
    by_contra neither
    rw [List.nil_append, afterDigits, if_neg (not_or.mp neither).1] at found
    cases found
  | cons first text =>
    by_cases digit : first.isDigit
    · rw [List.cons_append, afterDigits, if_pos digit, List.dropWhile_append] at found
      cases dropped : text.dropWhile Char.isDigit with
      | nil =>
        rw [dropped] at found
        cases found
        refine .inr ⟨fun char member => ?_, fun char head => ?_⟩
        · rcases List.mem_cons.mp member with rfl | later
          · exact digit
          · exact List.dropWhile_eq_nil_iff.mp dropped char later
        · obtain ⟨tail, rfl⟩ := List.head?_eq_some_iff.mp head
          by_cases more : char.isDigit
          · exact .inl more
          · exact .inr (by simp [more])
      | cons char inside =>
        rw [dropped] at found
        cases found
        exact .inl ⟨char, inside, by rw [afterDigits, if_pos digit, dropped], rfl⟩
    · rw [List.cons_append, afterDigits, if_neg digit] at found
      cases found

/-- A character that no line ends with and no terminator starts with. -/
def Plain (char : Char) : Prop := char ≠ '\n' ∧ char ≠ '\r' ∧ char ≠ '\x1b' ∧ char ≠ '\x08'

instance (char : Char) : Decidable (Plain char) := inferInstanceAs (Decidable (_ ∧ _))

theorem plain_of_isDigit {char : Char} (digit : char.isDigit) : Plain char := by
  refine ⟨?_, ?_, ?_, ?_⟩
  all_goals
    rintro rfl
    revert digit
    decide

theorem cursorControl_iff {text rest : Text} : cursorControl text = some rest ↔
    text = 'u' :: rest ∨ text = '2' :: 'J' :: rest ∨ ∃ column, afterDigits text = some (';' :: column) ∧
      (afterDigits column = some ('H' :: rest) ∨ afterDigits column = some ('f' :: rest)) := by
  constructor
  · intro found
    unfold cursorControl at found
    split at found
    · cases found
      exact .inl rfl
    · cases found
      exact .inr (.inl rfl)
    · split at found
      · rename_i column row
        split at found
        · rename_i ends
          cases found
          exact .inr (.inr ⟨column, row, .inl ends⟩)
        · rename_i ends
          cases found
          exact .inr (.inr ⟨column, row, .inr ends⟩)
        · cases found
      · cases found
  · rintro (rfl | rfl | ⟨column, row, ends⟩)
    · rfl
    · rfl
    · unfold cursorControl
      split
      · cases row
      · cases row
      · rw [row]
        rcases ends with ends | ends
        all_goals simp only [ends]

theorem cursorControl_append {text rest : Text} (found : cursorControl text = some rest) (more : Text) :
    cursorControl (text ++ more) = some (rest ++ more) := by
  rw [cursorControl_iff] at found ⊢
  rcases found with rfl | rfl | ⟨column, row, ends⟩
  · exact .inl rfl
  · exact .inr (.inl rfl)
  · refine .inr (.inr ⟨column ++ more, afterDigits_append row more, ?_⟩)
    exact ends.imp (afterDigits_append · more) (afterDigits_append · more)

/-- A match that only the text that follows allows has plain characters before it, and a plain one after. -/
theorem cursorControl_of_append {text more rest : Text} (found : cursorControl (text ++ more) = some rest) :
    (∃ inside, cursorControl text = some inside) ∨
      (∀ char ∈ text, Plain char) ∧ ∀ char, more.head? = some char → Plain char := by
  simp only [cursorControl_iff] at found ⊢
  rcases found with same | same | ⟨column, row, ends⟩
  · rcases List.append_eq_cons_iff.mp same with ⟨rfl, rfl⟩ | ⟨inside, rfl, _⟩
    · refine .inr ⟨nofun, fun char head => ?_⟩
      cases head
      decide
    · exact .inl ⟨inside, .inl rfl⟩
  · rcases List.append_eq_cons_iff.mp same with ⟨rfl, rfl⟩ | ⟨inside, rfl, after⟩
    · refine .inr ⟨nofun, fun char head => ?_⟩
      cases head
      decide
    rcases List.append_eq_cons_iff.mp after.symm with ⟨rfl, rfl⟩ | ⟨inside, rfl, _⟩
    · refine .inr ⟨fun char member => ?_, fun char head => ?_⟩
      · rw [List.mem_singleton.mp member]
        decide
      · cases head
        decide
    · exact .inl ⟨inside, .inr (.inl rfl)⟩
  · rcases afterDigits_of_append row with ⟨char, inside, within, same⟩ | ⟨digits, follows⟩
    · obtain ⟨rfl, rfl⟩ := List.cons.inj same
      obtain ⟨digits, first, rfl⟩ := afterDigits_eq within
      have plain (all : ∀ char ∈ inside, char.isDigit) : ∀ char ∈ digits ++ ';' :: inside, Plain char := by
        intro char member
        rcases List.mem_append.mp member with before | after
        · exact plain_of_isDigit (first char before)
        rcases List.mem_cons.mp after with rfl | after
        · decide
        · exact plain_of_isDigit (all char after)
      rcases ends with ends | ends
      all_goals rcases afterDigits_of_append ends with ⟨char, column, closed, same⟩ | ⟨all, follows⟩
      · cases same
        exact .inl ⟨column, .inr (.inr ⟨inside, within, .inl closed⟩)⟩
      · refine .inr ⟨plain all, fun char head => ?_⟩
        rcases follows char head with digit | same
        · exact plain_of_isDigit digit
        · cases same
          decide
      · cases same
        exact .inl ⟨column, .inr (.inr ⟨inside, within, .inr closed⟩)⟩
      · refine .inr ⟨plain all, fun char head => ?_⟩
        rcases follows char head with digit | same
        · exact plain_of_isDigit digit
        · cases same
          decide
    · refine .inr ⟨fun char member => plain_of_isDigit (digits char member), fun char head => ?_⟩
      rcases follows char head with digit | same
      · exact plain_of_isDigit digit
      · cases same
        decide

/-- The text that follows does not go on with the backspaces that this one ends with. -/
def Apart (text more : Text) : Prop := text.getLast? = some '\x08' → more.head? ≠ some '\x08'

theorem terminator_iff {text rest : Text} : terminator text = some rest ↔
    text = '\r' :: '\n' :: rest ∨ (∃ char inside, char ≠ '\n' ∧ rest = char :: inside ∧ text = '\r' :: rest) ∨
      (∃ inside, text = '\x1b' :: '[' :: inside ∧ cursorControl inside = some rest) ∨
      ∃ inside, text = '\x08' :: inside ∧ rest = inside.dropWhile (· = '\x08') := by
  constructor
  · intro found
    unfold terminator at found
    split at found
    · cases found
      exact .inl rfl
    · rename_i char inside other
      cases found
      exact .inr (.inl ⟨char, inside, other, rfl, rfl⟩)
    · rename_i inside
      exact .inr (.inr (.inl ⟨inside, rfl, found⟩))
    · rename_i inside
      cases found
      exact .inr (.inr (.inr ⟨inside, rfl, rfl⟩))
    · cases found
  · rintro (rfl | ⟨char, inside, other, rfl, rfl⟩ | ⟨inside, rfl, found⟩ | ⟨inside, rfl, rfl⟩)
    · rfl
    · unfold terminator
      split
      · rename_i same
        cases same
        exact absurd rfl other
      · rename_i same
        cases same
        rfl
      · rename_i same
        cases same
      · rename_i same
        cases same
      · rename_i never _ _
        exact (never char inside rfl).elim
    · exact found
    · rfl

theorem terminator_append {text rest more : Text} (found : terminator text = some rest)
    (apart : text.head? = some '\x08' → Apart text more) : terminator (text ++ more) = some (rest ++ more) := by
  rw [terminator_iff] at found ⊢
  rcases found with rfl | ⟨char, inside, other, rfl, rfl⟩ | ⟨inside, rfl, found⟩ | ⟨inside, rfl, rfl⟩
  · exact .inl rfl
  · exact .inr (.inl ⟨char, inside ++ more, other, rfl, rfl⟩)
  · exact .inr (.inr (.inl ⟨inside ++ more, rfl, cursorControl_append found more⟩))
  · refine .inr (.inr (.inr ⟨inside ++ more, rfl, ?_⟩))
    rw [List.dropWhile_append]
    cases dropped : inside.dropWhile (· = '\x08') with
    | cons char rest => rfl
    | nil =>
      -- The text is all backspaces, and what follows does not go on with them.
      have ends : ('\x08' :: inside).getLast? = some '\x08' := by
        rw [List.getLast?_cons]
        cases last : inside.getLast? with
        | none => rfl
        | some char =>
          have backspace := List.dropWhile_eq_nil_iff.mp dropped char (List.mem_of_getLast? last)
          exact congrArg some (of_decide_eq_true backspace)
      have other := apart rfl ends
      cases more with
      | nil => rfl
      | cons char more =>
        have different : char ≠ '\x08' := fun same => other (congrArg some same)
        simp [different]

/-- A terminator that only the text that follows completes has plain characters after its first one. -/
theorem terminator_of_append {char : Char} {text more rest : Text} (unmatched : terminator (char :: text) = none)
    (found : terminator (char :: text ++ more) = some rest) :
    char ≠ '\n' ∧ (∀ other ∈ text, Plain other) ∧
      (more.head? = some '\n' → char = '\r' ∧ text = [] ∧ more = '\n' :: rest) := by
  rcases terminator_iff.mp found with same | ⟨next, inside, other, rfl, same⟩ | ⟨inside, same, within⟩ | ⟨inside, same, _⟩
  · obtain ⟨rfl, after⟩ := List.cons.inj same
    rcases List.append_eq_cons_iff.mp after with ⟨rfl, rfl⟩ | ⟨tail, rfl, _⟩
    · exact ⟨by decide, nofun, fun _ => ⟨rfl, rfl, rfl⟩⟩
    · cases unmatched
  · obtain ⟨rfl, after⟩ := List.cons.inj same
    rcases List.append_eq_cons_iff.mp after with ⟨rfl, rfl⟩ | ⟨tail, rfl, _⟩
    · exact ⟨by decide, nofun, fun head => absurd (Option.some.inj head) other⟩
    · rw [terminator_iff.mpr (.inr (.inl ⟨next, tail, other, rfl, rfl⟩))] at unmatched
      cases unmatched
  · obtain ⟨rfl, after⟩ := List.cons.inj same
    rcases List.append_eq_cons_iff.mp after with ⟨rfl, rfl⟩ | ⟨tail, rfl, rfl⟩
    · refine ⟨by decide, nofun, fun head => ?_⟩
      cases head
    · rcases cursorControl_of_append within with ⟨column, closed⟩ | ⟨plain, follows⟩
      · rw [terminator_iff.mpr (.inr (.inr (.inl ⟨tail, rfl, closed⟩)))] at unmatched
        cases unmatched
      · refine ⟨by decide, fun other member => ?_, fun head => absurd rfl (follows '\n' head).1⟩
        rcases List.mem_cons.mp member with rfl | later
        · decide
        · exact plain other later
  · obtain ⟨rfl, _⟩ := List.cons.inj same
    cases unmatched

theorem normalize_plain {text : Text} (plain : ∀ char ∈ text, Plain char) : normalize text = text := by
  induction text with
  | nil => rfl
  | cons char text ih =>
    have none : terminator (char :: text) = none := by
      obtain ⟨_, carriage, escape, backspace⟩ := plain char List.mem_cons_self
      by_contra present
      obtain ⟨rest, found⟩ := Option.ne_none_iff_exists'.mp present
      rcases terminator_iff.mp found with same | ⟨_, _, _, _, same⟩ | ⟨_, same, _⟩ | ⟨_, same, _⟩
      · exact carriage (List.cons.inj same).1
      · exact carriage (List.cons.inj same).1
      · exact escape (List.cons.inj same).1
      · exact backspace (List.cons.inj same).1
    rw [normalize_cons none, ih fun other member => plain other (List.mem_cons_of_mem _ member)]

/-- A text whose normalization has no line is its own normalization. -/
theorem normalize_of_not_mem {text : Text} (unbroken : '\n' ∉ normalize text) : normalize text = text := by
  induction text with
  | nil => rfl
  | cons char text ih =>
    cases matched : terminator (char :: text) with
    | some rest =>
      rw [normalize_terminator matched] at unbroken
      exact absurd List.mem_cons_self unbroken
    | none =>
      rw [normalize_cons matched] at unbroken ⊢
      rw [ih fun member => unbroken (List.mem_cons_of_mem _ member)]

theorem Apart.suffix {text rest more : Text} (apart : Apart text more) (suffix : rest <:+ text) : Apart rest more := by
  intro ends
  obtain ⟨before, rfl⟩ := suffix
  exact apart (by rw [List.getLast?_append, ends]; rfl)

/-- A text can be cut where no backspaces go on: its whole lines are final, and the rest is normalized with what
follows. -/
theorem normalize_append {text more : Text} (apart : Apart text more) :
    normalize (text ++ more) = complete text ++ normalize (unfinished text ++ more) := by
  induction length : text.length using Nat.strong_induction_on generalizing text with
  | _ n ih =>
    subst length
    by_cases broken : '\n' ∈ normalize text
    · cases text with
      | nil => cases broken
      | cons char text =>
        cases matched : terminator (char :: text) with
        | some rest =>
          have suffix := terminator_suffix matched
          have shorter : rest.length < (char :: text).length := Nat.lt_succ_of_le suffix.length_le
          have before := normalize_terminator matched
          have after : normalize (char :: text ++ more) = '\n' :: normalize (rest ++ more) :=
            normalize_terminator (terminator_append matched fun _ => apart)
          rw [after, ih _ shorter (apart.suffix (suffix.trans (List.suffix_cons _ _))) rfl,
            complete.eq_1 (char :: text), unfinished.eq_1 (char :: text), before, wholeLines_cons List.mem_cons_self,
            lastPart_cons List.mem_cons_self]
          rfl
        | none =>
          have before := normalize_cons matched
          cases continued : terminator (char :: text ++ more) with
          | some rest =>
            obtain ⟨other, plain, _⟩ := terminator_of_append matched continued
            rw [before, normalize_plain plain] at broken
            rcases List.mem_cons.mp broken with same | member
            · exact absurd same.symm other
            · exact absurd rfl (plain _ member).1
          | none =>
            have after : normalize (char :: text ++ more) = char :: normalize (text ++ more) := normalize_cons continued
            rw [after, ih _ (Nat.lt_succ_self _) (apart.suffix (List.suffix_cons _ _)) rfl]
            rw [before] at broken
            rw [complete.eq_1 (char :: text), unfinished.eq_1 (char :: text), before, wholeLines_cons broken,
              lastPart_cons broken]
            rfl
    · rw [complete, unfinished, wholeLines_of_not_mem broken, lastPart_of_not_mem broken, normalize_of_not_mem broken]
      rfl

theorem complete_append {text more : Text} (apart : Apart text more) :
    complete (text ++ more) = complete text ++ complete (unfinished text ++ more) ∧
      unfinished (text ++ more) = unfinished (unfinished text ++ more) := by
  obtain ⟨whole, last⟩ := wholeLines_append (wholeLines_whole (normalize text)) (normalize (unfinished text ++ more))
  have whole : wholeLines '\n' (complete text ++ normalize (unfinished text ++ more)) =
      complete text ++ complete (unfinished text ++ more) := whole
  have last : lastPart '\n' (complete text ++ normalize (unfinished text ++ more)) =
      unfinished (unfinished text ++ more) := last
  rw [← normalize_append apart] at whole last
  exact ⟨whole, last⟩

theorem complete_append_unfinished (text : Text) : complete text ++ unfinished text = normalize text :=
  wholeLines_append_lastPart _

theorem complete_whole (text : Text) : Whole '\n' (complete text) := wholeLines_whole _

theorem not_mem_unfinished (text : Text) : '\n' ∉ unfinished text := not_mem_lastPart _

/-- What follows the last whole line is as it was. -/
theorem normalize_unfinished (text : Text) : normalize (unfinished text) = unfinished text := by
  have apart : Apart text [] := fun _ => nofun
  have same := normalize_append apart
  rw [List.append_nil, List.append_nil, ← complete_append_unfinished] at same
  exact (List.append_cancel_left same).symm

/-- A newline ends what is unfinished. -/
theorem normalize_newline {text : Text} (unbroken : '\n' ∉ normalize text) :
    ∃ body, '\n' ∉ body ∧ normalize (text ++ ['\n']) = body ++ ['\n'] := by
  induction text with
  | nil => exact ⟨[], List.not_mem_nil, rfl⟩
  | cons char text ih =>
    cases matched : terminator (char :: text) with
    | some rest =>
      rw [normalize_terminator matched] at unbroken
      exact absurd List.mem_cons_self unbroken
    | none =>
      rw [normalize_cons matched, List.mem_cons, not_or] at unbroken
      cases continued : terminator (char :: text ++ ['\n']) with
      | some rest =>
        obtain ⟨_, rfl, same⟩ := (terminator_of_append matched continued).2.2 rfl
        have after : normalize (char :: [] ++ ['\n']) = '\n' :: normalize rest := normalize_terminator continued
        rw [after, (List.cons.inj same).2.symm]
        exact ⟨[], List.not_mem_nil, rfl⟩
      | none =>
        obtain ⟨body, inside, ends⟩ := ih unbroken.2
        have after : normalize (char :: text ++ ['\n']) = char :: normalize (text ++ ['\n']) :=
          normalize_cons continued
        refine ⟨char :: body, ?_, by rw [after, ends]; rfl⟩
        rw [List.mem_cons, not_or]
        exact ⟨unbroken.1, inside⟩

def MAX_LINELENGTH : Nat := 4096

/-- `partialLine` -/
structure LineBoundaryFinder where
  partialLine : Option Text
  deriving DecidableEq

namespace LineBoundaryFinder

/-- The pieces of a long line, each with a newline. -/
def splitLong (text : Text) : Text :=
  if MAX_LINELENGTH < text.length then
    text.take MAX_LINELENGTH ++ '\n' :: splitLong (text.drop MAX_LINELENGTH)
  else text ++ ['\n']
termination_by text.length
decreasing_by
  simp only [MAX_LINELENGTH, List.length_drop] at *
  omega

variable (finder : LineBoundaryFinder)

/-- The text that is kept back. -/
def pending : Text := finder.partialLine.getD []

def adjustLine (text : Text) : LineBoundaryFinder × Option Text :=
  if MAX_LINELENGTH < finder.pending.length then (⟨some text⟩, some (splitLong finder.pending))
  else
    let rest : LineBoundaryFinder := if finder.pending = [] then finder else ⟨none⟩
    let text := normalize (finder.pending ++ text)
    if text = [] then (rest, none)
    else if text.getLast? = some '\n' then (rest, some text)
    else if '\n' ∈ text then (⟨some (lastPart '\n' text)⟩, some (wholeLines '\n' text))
    else (⟨some text⟩, none)

def append (text : Text) : LineBoundaryFinder × Option Text := finder.adjustLine text

def flush : LineBoundaryFinder × Option Text :=
  if finder.partialLine.isSome then finder.append ['\n'] else (finder, none)

/-- The finder has been given the text. -/
structure Holds (text : Text) : Prop where
  kept : finder.pending = unfinished text
  filled : finder.partialLine ≠ some []

variable {finder}

theorem new_holds : (⟨none⟩ : LineBoundaryFinder).Holds [] := ⟨rfl, nofun⟩

/-- The whole lines of what is pending and new come out; the rest is kept. -/
theorem adjustLine_correct (short : finder.pending.length ≤ MAX_LINELENGTH) (text : Text) :
    (finder.append text).2.getD [] = complete (finder.pending ++ text) ∧ (finder.append text).2 ≠ some [] ∧
      (finder.append text).1.pending = unfinished (finder.pending ++ text) ∧
      (finder.partialLine ≠ some [] → (finder.append text).1.partialLine ≠ some []) := by
  unfold append adjustLine
  rw [if_neg (Nat.not_lt.mpr short)]
  dsimp only
  have rest : (if finder.pending = [] then finder else ⟨none⟩ : LineBoundaryFinder).pending = [] := by
    split
    · assumption
    · rfl
  have filled : finder.partialLine ≠ some [] →
      (if finder.pending = [] then finder else ⟨none⟩ : LineBoundaryFinder).partialLine ≠ some [] := by
    intro filled
    split
    · exact filled
    · exact nofun
  generalize (if finder.pending = [] then finder else ⟨none⟩ : LineBoundaryFinder) = left at rest filled
  unfold complete unfinished
  generalize normalize (finder.pending ++ text) = text
  split
  · rename_i nothing
    rw [nothing]
    exact ⟨rfl, nofun, rest, filled⟩
  rename_i something
  split
  · rename_i ends
    obtain ⟨body, rfl⟩ := List.getLast?_eq_some_iff.mp ends
    obtain ⟨whole, last⟩ := wholeLines_of_whole (show Whole '\n' (body ++ ['\n']) from .inr ⟨body, rfl⟩)
    rw [whole, last]
    exact ⟨rfl, fun same => something (Option.some.inj same), rest, filled⟩
  rename_i continues
  split
  · rename_i broken
    refine ⟨rfl, fun same => ?_, rfl, fun _ same => ?_⟩
    · obtain ⟨body, ends⟩ := wholeLines_ends broken
      rw [ends] at same
      simp at same
    · have all : wholeLines '\n' text ++ lastPart '\n' text = text := wholeLines_append_lastPart text
      obtain ⟨body, ends⟩ := wholeLines_ends broken
      rw [Option.some.inj same, List.append_nil, ends] at all
      rw [← all] at continues
      exact continues List.getLast?_concat
  · rename_i unbroken
    rw [wholeLines_of_not_mem unbroken, lastPart_of_not_mem unbroken]
    exact ⟨rfl, nofun, rfl, fun _ same => something (Option.some.inj same)⟩

/-- What comes out when more text comes: the whole lines of the text so far, from where the last came out. -/
theorem Holds.append {text more : Text} (holds : finder.Holds text)
    (short : (unfinished text).length ≤ MAX_LINELENGTH) (apart : Apart text more) :
    (finder.append more).1.Holds (text ++ more) ∧
      complete (text ++ more) = complete text ++ (finder.append more).2.getD [] ∧ (finder.append more).2 ≠ some [] := by
  rw [← holds.kept] at short
  obtain ⟨out, shown, kept, filled⟩ := adjustLine_correct short more
  obtain ⟨whole, rest⟩ := complete_append apart
  rw [holds.kept] at out kept
  exact ⟨⟨kept.trans rest.symm, filled holds.filled⟩, by rw [whole, out], shown⟩

/-- What comes out in the end is what is unfinished, with a newline. -/
theorem Holds.flush {text : Text} (holds : finder.Holds text) (short : (unfinished text).length ≤ MAX_LINELENGTH) :
    finder.flush.2 = if unfinished text = [] then none else some (normalize (unfinished text ++ ['\n'])) := by
  have kept := holds.kept
  unfold LineBoundaryFinder.flush
  cases pending : finder.partialLine with
  | none =>
    rw [LineBoundaryFinder.pending, pending] at kept
    have nothing : unfinished text = [] := kept.symm
    rw [if_pos nothing]
    rfl
  | some line =>
    rw [LineBoundaryFinder.pending, pending] at kept
    have kept : line = unfinished text := kept
    have something : unfinished text ≠ [] := fun nothing => holds.filled (by rw [pending, kept, nothing])
    rw [if_pos Option.isSome_some, if_neg something]
    obtain ⟨body, _, ends⟩ := @normalize_newline (unfinished text) (by
      rw [normalize_unfinished]
      exact not_mem_unfinished text)
    unfold LineBoundaryFinder.append adjustLine
    rw [holds.kept, if_neg (Nat.not_lt.mpr short), if_neg something, ends]
    simp

end LineBoundaryFinder

end Umbilical.Logs
