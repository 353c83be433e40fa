import Umbilical.Logs.LineBoundaries

set_option autoImplicit false

/-!
# Texts that come in pieces

What a line boundary finder passes on of a text is the text, normalized, exactly if it splits no
long line and no piece ends inside a run of backspaces.
-/

namespace Umbilical.Logs

open Python Lines

/-- The text normalized, with its last line ended. -/
def ended (text : Text) : Text := if unfinished text = [] then normalize text else normalize (text ++ ['\n'])

/-- A character that no terminator starts with. -/
def Inert (char : Char) : Prop := char ≠ '\r' ∧ char ≠ '\x1b' ∧ char ≠ '\x08'

theorem terminator_inert {char : Char} (inert : Inert char) (text : Text) : terminator (char :: text) = none := by
  obtain ⟨carriage, escape, backspace⟩ := inert
  by_contra present
  obtain ⟨rest, found⟩ := Option.ne_none_iff_exists'.mp present
  rcases terminator_iff.mp found with same | ⟨_, _, _, _, same⟩ | ⟨_, same, _⟩ | ⟨_, same, _⟩
  · exact carriage (List.cons.inj same).1
  · exact carriage (List.cons.inj same).1
  · exact escape (List.cons.inj same).1
  · exact backspace (List.cons.inj same).1

theorem inert_of_isDigit {char : Char} (digit : char.isDigit) : Inert char :=
  (plain_of_isDigit digit).2

theorem normalize_inert {text : Text} (inert : ∀ char ∈ text, Inert char) (more : Text) :
    normalize (text ++ more) = text ++ normalize more := by
  induction text with
  | nil => rfl
  | cons char text ih =>
    have none : terminator (char :: (text ++ more)) = none := terminator_inert (inert char List.mem_cons_self) _
    rw [List.cons_append, normalize_cons none, ih fun other member => inert other (List.mem_cons_of_mem _ member)]
    rfl

theorem complete_inert {text : Text} (inert : ∀ char ∈ text, Inert char) :
    normalize text = text ∧ complete text = wholeLines '\n' text ∧ unfinished text = lastPart '\n' text := by
  have same : normalize text = text := by
    have all := normalize_inert inert []
    rwa [List.append_nil, normalize_nil, List.append_nil] at all
  refine ⟨same, ?_, ?_⟩
  · rw [complete, same]
  · rw [unfinished, same]

/-- What a terminator has after its first character: the rest of a run of backspaces, or inert characters. -/
def Eaten (first : Char) (eaten rest : Text) : Prop :=
  (∀ char ∈ eaten, Inert char) ∨ first = '\x08' ∧ (∀ char ∈ eaten, char = '\x08') ∧ rest.head? ≠ some '\x08'

theorem Eaten.suffix {first : Char} {eaten last rest : Text} (all : Eaten first eaten rest) (suffix : last <:+ eaten) :
    Eaten first last rest := by
  rcases all with inert | ⟨same, backspaces, ends⟩
  · exact .inl fun char member => inert char (suffix.subset member)
  · exact .inr ⟨same, fun char member => backspaces char (suffix.subset member), ends⟩

theorem cursorControl_inert {text rest : Text} (found : cursorControl text = some rest) :
    ∃ eaten, text = eaten ++ rest ∧ ∀ char ∈ eaten, Inert char := by
  rcases cursorControl_iff.mp found with rfl | rfl | ⟨column, row, ends⟩
  · refine ⟨['u'], rfl, fun char member => ?_⟩
    rw [List.mem_singleton.mp member]
    unfold Inert
    decide
  · refine ⟨['2', 'J'], rfl, fun char member => ?_⟩
    rcases List.mem_pair.mp member with rfl | rfl
    all_goals
      unfold Inert
      decide
  · obtain ⟨digits, all, rfl⟩ := afterDigits_eq row
    have closed (last : Char) (inert : Inert last) (ends : afterDigits column = some (last :: rest)) :
        ∃ eaten, digits ++ ';' :: column = eaten ++ rest ∧ ∀ char ∈ eaten, Inert char := by
      obtain ⟨more, others, rfl⟩ := afterDigits_eq ends
      refine ⟨digits ++ ';' :: (more ++ [last]), by simp, fun char member => ?_⟩
      rcases List.mem_append.mp member with before | after
      · exact inert_of_isDigit (all char before)
      rcases List.mem_cons.mp after with rfl | after
      · unfold Inert
        decide
      rcases List.mem_append.mp after with before | after
      · exact inert_of_isDigit (others char before)
      · rwa [List.mem_singleton.mp after]
    rcases ends with ends | ends
    · apply closed 'H' _ ends
      unfold Inert
      decide
    · apply closed 'f' _ ends
      unfold Inert
      decide

theorem head_dropWhile (text : Text) : (text.dropWhile (· = '\x08')).head? ≠ some '\x08' := by
  intro head
  obtain ⟨rest, same⟩ := List.head?_eq_some_iff.mp head
  have something : text.dropWhile (· = '\x08') ≠ [] := by
    rw [same]
    exact List.cons_ne_nil _ _
  have never := List.head_dropWhile_not (· = '\x08') something
  simp [same] at never

theorem dropWhile_backspaces {text : Text} (ends : text.head? ≠ some '\x08') : text.dropWhile (· = '\x08') = text := by
  cases text with
  | nil => rfl
  | cons char text =>
    have different : char ≠ '\x08' := fun same => ends (congrArg some same)
    simp [different]

theorem terminator_eaten {char : Char} {text rest : Text} (found : terminator (char :: text) = some rest) :
    ∃ eaten, text = eaten ++ rest ∧ Eaten char eaten rest := by
  rcases terminator_iff.mp found with same | ⟨_, _, _, _, same⟩ | ⟨inside, same, within⟩ | ⟨inside, same, rfl⟩
  · obtain ⟨_, rfl⟩ := List.cons.inj same
    refine ⟨['\n'], rfl, .inl fun char member => ?_⟩
    rw [List.mem_singleton.mp member]
    unfold Inert
    decide
  · obtain ⟨_, rfl⟩ := List.cons.inj same
    exact ⟨[], rfl, .inl nofun⟩
  · obtain ⟨_, rfl⟩ := List.cons.inj same
    obtain ⟨eaten, rfl, inert⟩ := cursorControl_inert within
    refine ⟨'[' :: eaten, rfl, .inl fun char member => ?_⟩
    rcases List.mem_cons.mp member with rfl | later
    · unfold Inert
      decide
    · exact inert char later
  · obtain ⟨backspace, rfl⟩ := List.cons.inj same
    refine ⟨text.takeWhile (· = '\x08'), (List.takeWhile_append_dropWhile ..).symm,
      .inr ⟨backspace, fun char member => ?_, ?_⟩⟩
    · have backspace := @List.mem_takeWhile_imp _ (fun other => decide (other = '\x08')) _ _ member
      simpa using backspace
    · exact head_dropWhile text

/-- Without its beginning, what a terminator has after its first character is normalized apart from what follows. -/
theorem normalize_eaten {first : Char} {eaten rest : Text} (all : Eaten first eaten rest) :
    ∃ front, normalize (eaten ++ rest) = front ++ normalize rest := by
  rcases all with inert | ⟨_, backspaces, ends⟩
  · exact ⟨eaten, normalize_inert inert rest⟩
  · cases eaten with
    | nil => exact ⟨[], rfl⟩
    | cons char eaten =>
      obtain rfl := backspaces char List.mem_cons_self
      have dropped : (eaten ++ rest).dropWhile (· = '\x08') = rest := by
        rw [List.dropWhile_append, List.dropWhile_eq_nil_iff.mpr fun other member =>
          decide_eq_true (backspaces other (List.mem_cons_of_mem _ member))]
        exact dropWhile_backspaces ends
      have matched : terminator ('\x08' :: (eaten ++ rest)) = some rest :=
        terminator_iff.mpr (.inr (.inr (.inr ⟨_, rfl, dropped.symm⟩)))
      exact ⟨['\n'], normalize_terminator matched⟩

/-- The first terminator of a text with something before it either ends before the text does, or leaves of the text
what is normalized apart. -/
theorem rest_append {char : Char} {before text rest : Text} (found : terminator (char :: (before ++ text)) = some rest) :
    (∃ left, left <:+ before ∧ rest = left ++ text) ∨ ∃ front, normalize text = front ++ normalize rest := by
  obtain ⟨eaten, same, all⟩ := terminator_eaten found
  rcases List.append_eq_append_iff.mp same with ⟨left, rfl, rfl⟩ | ⟨left, rfl, rfl⟩
  · exact .inr (normalize_eaten (all.suffix (List.suffix_append before left)))
  · exact .inl ⟨left, List.suffix_append eaten left, rfl⟩

/-- Text before another text adds at most its own length. -/
theorem normalize_append_le (before text : Text) :
    (normalize (before ++ text)).length ≤ before.length + (normalize text).length := by
  induction length : before.length using Nat.strong_induction_on generalizing before with
  | _ n ih =>
    subst length
    cases before with
    | nil => simp
    | cons char before =>
      cases matched : terminator (char :: (before ++ text)) with
      | none =>
        have shorter := ih before.length (Nat.lt_succ_self _) before rfl
        rw [List.cons_append, normalize_cons matched, List.length_cons, List.length_cons]
        omega
      | some rest =>
        rw [List.cons_append, normalize_terminator matched, List.length_cons, List.length_cons]
        rcases rest_append matched with ⟨left, suffix, rfl⟩ | ⟨front, same⟩
        · have short := suffix.length_le
          have shorter := ih left.length (Nat.lt_succ_of_le short) left rfl
          omega
        · rw [same, List.length_append]
          omega

theorem normalize_ne_nil {text : Text} (something : text ≠ []) : normalize text ≠ [] := by
  cases text with
  | nil => exact absurd rfl something
  | cons char text =>
    cases matched : terminator (char :: text) with
    | none =>
      rw [normalize_cons matched]
      exact List.cons_ne_nil _ _
    | some rest =>
      rw [normalize_terminator matched]
      exact List.cons_ne_nil _ _

theorem unfinished_eq_nil {text : Text} : unfinished text = [] ↔ Whole '\n' (normalize text) := by
  constructor
  · intro nothing
    have all := complete_append_unfinished text
    rw [nothing, List.append_nil] at all
    rw [← all]
    exact complete_whole text
  · exact fun whole => (wholeLines_of_whole whole).2

/-- Text before another text does not open its last line. -/
theorem whole_append {text : Text} (something : text ≠ []) (whole : Whole '\n' (normalize text)) (before : Text) :
    Whole '\n' (normalize (before ++ text)) := by
  induction length : before.length using Nat.strong_induction_on generalizing before with
  | _ n ih =>
    subst length
    cases before with
    | nil => exact whole
    | cons char before =>
      cases matched : terminator (char :: (before ++ text)) with
      | none =>
        have later := ih before.length (Nat.lt_succ_self _) before rfl
        rw [List.cons_append, normalize_cons matched]
        rcases later with nothing | ⟨body, ends⟩
        · exact absurd nothing (normalize_ne_nil (List.append_ne_nil_of_right_ne_nil _ something))
        · exact .inr ⟨char :: body, congrArg _ ends⟩
      | some rest =>
        rw [List.cons_append, normalize_terminator matched]
        have first : Whole '\n' ['\n'] := .inr ⟨[], rfl⟩
        apply first.append
        rcases rest_append matched with ⟨left, suffix, rfl⟩ | ⟨front, same⟩
        · exact ih left.length (Nat.lt_succ_of_le suffix.length_le) left rfl
        · rw [same] at whole
          exact whole.right

theorem unfinished_unfinished (text : Text) : unfinished (unfinished text) = unfinished text := by
  rw [unfinished.eq_1 (unfinished text), normalize_unfinished, lastPart_of_not_mem (not_mem_unfinished text)]

theorem apart_newline (text more : Text) (apart : Apart text more) : Apart text (more ++ ['\n']) := by
  intro ends head
  cases more with
  | nil => cases head
  | cons char more => exact apart ends head

theorem ended_append {text more : Text} (apart : Apart text more) :
    ended (text ++ more) = complete text ++ ended (unfinished text ++ more) := by
  unfold ended
  rw [(complete_append apart).2, List.append_assoc, normalize_append apart,
    normalize_append (apart_newline text more apart), ← List.append_assoc (unfinished text)]
  split
  · rfl
  · rfl

theorem ended_nil : ended [] = [] := rfl

/-- What is passed on of a text that was not cut. -/
theorem ended_eq (text : Text) :
    ended text = complete text ++ if unfinished text = [] then [] else normalize (unfinished text ++ ['\n']) := by
  have whole := @ended_append text [] fun _ => nofun
  rw [List.append_nil, List.append_nil] at whole
  rw [whole, ended, unfinished_unfinished, normalize_unfinished]
  split
  · rename_i nothing
    rw [nothing]
  · rfl

/-- Where a run of backspaces goes on, it is one terminator with what came before. -/
theorem normalize_backspaces {text : Text} (ends : text.getLast? = some '\x08') (more : Text) :
    normalize (text ++ more) = normalize (text ++ more.dropWhile (· = '\x08')) := by
  induction length : text.length using Nat.strong_induction_on generalizing text with
  | _ n ih =>
    subst length
    cases text with
    | nil => cases ends
    | cons char text =>
      -- What the first character leaves of the text ends as it does.
      have later (left : Text) (suffix : left <:+ text) (something : left ≠ []) :
          normalize (left ++ more) = normalize (left ++ more.dropWhile (· = '\x08')) := by
        apply ih left.length (Nat.lt_succ_of_le suffix.length_le) _ rfl
        obtain ⟨front, rfl⟩ := suffix
        rw [← List.cons_append, List.getLast?_append_of_ne_nil _ something] at ends
        exact ends
      by_cases backspace : char = '\x08'
      · subst backspace
        have matched (text : Text) : terminator ('\x08' :: text) = some (text.dropWhile (· = '\x08')) :=
          terminator_iff.mpr (.inr (.inr (.inr ⟨text, rfl, rfl⟩)))
        rw [List.cons_append, List.cons_append, normalize_terminator (matched _), normalize_terminator (matched _),
          List.dropWhile_append, List.dropWhile_append]
        cases dropped : text.dropWhile (· = '\x08') with
        | nil => exact congrArg _ (congrArg _ (dropWhile_backspaces (head_dropWhile more)).symm)
        | cons first left =>
          have rest := later (first :: left) (by rw [← dropped]; exact List.dropWhile_suffix _) (List.cons_ne_nil _ _)
          exact congrArg _ rest
      · have something : text ≠ [] := by
          rintro rfl
          exact backspace (Option.some.inj ends)
        have inside : '\x08' ∈ text := by
          rw [List.getLast?_cons_of_ne_nil something] at ends
          exact List.mem_of_getLast? ends
        cases matched : terminator (char :: text) with
        | none =>
          have still (more : Text) : terminator (char :: (text ++ more)) = none := by
            by_contra present
            obtain ⟨rest, found⟩ := Option.ne_none_iff_exists'.mp present
            exact ((terminator_of_append matched found).2.1 _ inside).2.2.2 rfl
          rw [List.cons_append, List.cons_append, normalize_cons (still _), normalize_cons (still _),
            later text List.suffix_rfl something]
        | some rest =>
          have still (more : Text) : terminator (char :: (text ++ more)) = some (rest ++ more) :=
            terminator_append matched fun head => absurd (Option.some.inj head) backspace
          have nonempty : rest ≠ [] := by
            rintro rfl
            obtain ⟨eaten, rfl, all⟩ := terminator_eaten matched
            rw [List.append_nil] at inside
            rcases all with inert | ⟨same, _⟩
            · exact (inert _ inside).2.2 rfl
            · exact backspace same
          obtain ⟨eaten, same, _⟩ := terminator_eaten matched
          rw [List.cons_append, List.cons_append, normalize_terminator (still _), normalize_terminator (still _),
            later rest ⟨eaten, same.symm⟩ nonempty]

theorem ended_backspaces {text : Text} (ends : text.getLast? = some '\x08') (more : Text) :
    ended (text ++ more) = ended (text ++ more.dropWhile (· = '\x08')) := by
  have last : (more ++ ['\n']).dropWhile (· = '\x08') = more.dropWhile (· = '\x08') ++ ['\n'] := by
    rw [List.dropWhile_append]
    cases more.dropWhile (· = '\x08') with
    | nil => rfl
    | cons char left => rfl
  unfold ended unfinished
  rw [List.append_assoc, List.append_assoc, normalize_backspaces ends more, normalize_backspaces ends (more ++ ['\n']),
    last]

/-- A cut inside a run of backspaces makes it two terminators. -/
theorem ended_append_backspaces {text more : Text} (cut : ¬ Apart text more) :
    (ended (text ++ more)).length + 1 = (complete text).length + (ended (unfinished text ++ more)).length := by
  obtain ⟨ends, goes⟩ := Classical.not_imp.mp cut
  obtain ⟨rest, rfl⟩ := List.head?_eq_some_iff.mp (not_not.mp goes)
  have apart (before : Text) : Apart before (rest.dropWhile (· = '\x08')) := fun _ => head_dropWhile rest
  -- Nothing is unfinished where a text ends with a backspace.
  have nothing : unfinished text = [] := by
    obtain ⟨front, rfl⟩ := List.getLast?_eq_some_iff.mp ends
    exact unfinished_eq_nil.mpr (whole_append (List.cons_ne_nil _ _) (.inr ⟨[], rfl⟩) front)
  have whole : ended (text ++ '\x08' :: rest) = complete text ++ ended (rest.dropWhile (· = '\x08')) := by
    have dropped : ('\x08' :: rest).dropWhile (· = '\x08') = rest.dropWhile (· = '\x08') := by simp
    rw [ended_backspaces ends, dropped, ended_append (apart text), nothing]
    rfl
  have after : ended ('\x08' :: rest) = '\n' :: ended (rest.dropWhile (· = '\x08')) := by
    have alone := ended_backspaces (show ['\x08'].getLast? = some '\x08' from rfl) rest
    rw [ended_append (apart ['\x08'])] at alone
    exact alone
  rw [whole, nothing, List.nil_append, after, List.length_append, List.length_cons]
  omega

theorem ended_le (text : Text) : (ended text).length ≤ (normalize (text ++ ['\n'])).length := by
  rw [ended]
  split
  · rename_i nothing
    have apart : Apart text ['\n'] := fun _ => by decide
    have whole := complete_append_unfinished text
    rw [nothing, List.append_nil] at whole
    rw [normalize_append apart, List.length_append, whole]
    omega
  · rfl

theorem ended_le_length (text : Text) :
    (ended text).length ≤ text.length + 1 ∧ (unfinished text = [] → (ended text).length ≤ text.length) := by
  refine ⟨(ended_le text).trans (normalize_append_le text ['\n']), fun nothing => ?_⟩
  rw [ended, if_pos nothing]
  simpa using normalize_append_le text []

/-- Text before another text adds at most its own length. -/
theorem ended_append_le {text : Text} (something : text ≠ []) (before : Text) :
    (ended (before ++ text)).length ≤ before.length + (ended text).length := by
  by_cases nothing : unfinished text = []
  · have still := unfinished_eq_nil.mpr (whole_append something (unfinished_eq_nil.mp nothing) before)
    rw [ended, ended, if_pos nothing, if_pos still]
    exact normalize_append_le before text
  · have more := ended_le (before ++ text)
    rw [List.append_assoc] at more
    rw [ended.eq_1 text, if_neg nothing]
    exact more.trans (normalize_append_le before _)

theorem ended_append_le_of_le {text : Text} {n : Nat} (most : (ended text).length ≤ n) (something : 0 < n)
    (before : Text) : (ended (before ++ text)).length ≤ before.length + n := by
  by_cases nothing : text = []
  · have alone := (ended_le_length before).1
    rw [nothing, List.append_nil]
    omega
  · have both := ended_append_le nothing before
    omega

/-- What is passed on apart is no shorter. -/
theorem ended_append_ge (text more : Text) :
    (ended (text ++ more)).length ≤ (complete text).length + (ended (unfinished text ++ more)).length := by
  by_cases apart : Apart text more
  · rw [ended_append apart, List.length_append]
  · have longer := ended_append_backspaces apart
    omega

theorem ended_pos {text : Text} (something : text ≠ []) : 0 < (ended text).length := by
  rw [ended]
  split
  · exact List.length_pos_iff.mpr (normalize_ne_nil something)
  · exact List.length_pos_iff.mpr (normalize_ne_nil (by simp))

namespace LineBoundaryFinder

theorem splitLong_length (text : Text) :
    text.length + 1 ≤ (splitLong text).length ∧
      (MAX_LINELENGTH < text.length → text.length + 2 ≤ (splitLong text).length) := by
  induction text using splitLong.induct with
  | case1 text long ih =>
    have taken : (text.take MAX_LINELENGTH).length = MAX_LINELENGTH := List.length_take_of_le (Nat.le_of_lt long)
    rw [splitLong, if_pos long, List.length_append, List.length_cons, taken]
    rw [List.length_drop] at ih
    omega
  | case2 text short =>
    rw [splitLong, if_neg short, List.length_append]
    exact ⟨Nat.le_refl _, fun long => absurd long short⟩

/-- The last of the pieces ends as the line does, with a newline after it. -/
theorem splitLong_ends {text : Text} (something : text ≠ []) :
    ∃ body, splitLong text = body ++ ['\n'] ∧ body.getLast? = text.getLast? := by
  induction text using splitLong.induct with
  | case1 text long ih =>
    have rest : text.drop MAX_LINELENGTH ≠ [] := List.ne_nil_of_length_pos (by rw [List.length_drop]; omega)
    obtain ⟨body, same, ends⟩ := ih rest
    refine ⟨text.take MAX_LINELENGTH ++ '\n' :: body, ?_, ?_⟩
    · rw [splitLong, if_pos long, same, List.append_assoc]
      rfl
    · have nonempty : body ≠ [] := by
        rintro rfl
        exact rest (List.getLast?_eq_none_iff.mp ends.symm)
      rw [List.getLast?_append_of_ne_nil _ (List.cons_ne_nil _ _), List.getLast?_cons_of_ne_nil nonempty, ends,
        List.getLast?_drop, if_neg (Nat.not_le.mpr long)]
  | case2 text short => exact ⟨text, by rw [splitLong, if_neg short], rfl⟩

/-- What is left of the finder after the pieces, and what it passed on. -/
def feed : LineBoundaryFinder → List Text → LineBoundaryFinder × Text
  | finder, [] => (finder, [])
  | finder, text :: rest =>
    let (finder, out) := finder.append text
    let (finder, more) := feed finder rest
    (finder, out.getD [] ++ more)

/-- What it passes on altogether. -/
def passed (finder : LineBoundaryFinder) (pieces : List Text) : Text :=
  (finder.feed pieces).2 ++ (finder.feed pieces).1.flush.2.getD []

variable {finder : LineBoundaryFinder}

@[simp] theorem passed_nil : finder.passed [] = finder.flush.2.getD [] := rfl

theorem passed_cons (text : Text) (rest : List Text) :
    finder.passed (text :: rest) = (finder.append text).2.getD [] ++ (finder.append text).1.passed rest := by
  rw [passed, feed]
  exact List.append_assoc _ _ _

/-- A long line is split, and what comes then is kept as it is. -/
theorem append_long (long : MAX_LINELENGTH < finder.pending.length) (text : Text) :
    finder.append text = (⟨some text⟩, some (splitLong finder.pending)) := if_pos long

theorem passed_cons_long (long : MAX_LINELENGTH < finder.pending.length) (text : Text) (rest : List Text) :
    finder.passed (text :: rest) = splitLong finder.pending ++ passed ⟨some text⟩ rest := by
  rw [passed_cons, append_long long]
  rfl

/-- An empty piece that nothing was kept of changes nothing. -/
theorem append_nothing (empty : finder.pending = []) : finder.append [] = (finder, none) := by
  unfold append adjustLine
  rw [empty]
  rfl

/-- What a finder passes on in the end, if it kept anything. -/
theorem flush_short (short : finder.pending.length ≤ MAX_LINELENGTH) (kept : finder.partialLine ≠ none) :
    finder.flush.2 = some (normalize (finder.pending ++ ['\n'])) := by
  have ends : Whole '\n' (normalize (finder.pending ++ ['\n'])) :=
    whole_append (List.cons_ne_nil _ _) (.inr ⟨[], rfl⟩) _
  obtain ⟨out, _⟩ := adjustLine_correct short ['\n']
  rw [complete, (wholeLines_of_whole ends).1] at out
  rw [flush, if_pos (Option.isSome_iff_ne_none.mpr kept)]
  cases shown : (finder.append ['\n']).2 with
  | some text =>
    rw [shown] at out
    exact congrArg some out
  | none =>
    rw [shown] at out
    exact absurd out.symm (normalize_ne_nil (by simp))

/-- However a text is cut, no less is passed on of it than if it is not, and something if anything was kept. -/
theorem passed_ge (finder : LineBoundaryFinder) (pieces : List Text) :
    (ended (finder.pending ++ pieces.flatten)).length ≤ (finder.passed pieces).length ∧
      (finder.partialLine ≠ none → 0 < (finder.passed pieces).length) := by
  induction pieces generalizing finder with
  | nil =>
    rw [List.flatten_nil, List.append_nil, passed_nil]
    cases kept : finder.partialLine with
    | none =>
      refine ⟨?_, fun never => absurd rfl never⟩
      rw [pending, kept]
      exact Nat.zero_le _
    | some line =>
      by_cases long : MAX_LINELENGTH < finder.pending.length
      · rw [flush, kept, if_pos Option.isSome_some, append_long long]
        have split := (splitLong_length finder.pending).1
        have whole := (ended_le_length finder.pending).1
        exact ⟨whole.trans split, fun _ => Nat.lt_of_lt_of_le (Nat.succ_pos _) split⟩
      · rw [flush_short (Nat.not_lt.mp long) (by rw [kept]; exact Option.some_ne_none line)]
        exact ⟨ended_le finder.pending, fun _ => List.length_pos_iff.mpr (normalize_ne_nil (by simp))⟩
  | cons text pieces ih =>
    rw [List.flatten_cons]
    by_cases long : MAX_LINELENGTH < finder.pending.length
    · obtain ⟨rest, something⟩ := ih ⟨some text⟩
      have split := (splitLong_length finder.pending).1
      have whole : (ended (finder.pending ++ (text ++ pieces.flatten))).length ≤ _ :=
        ended_append_le_of_le rest (something (Option.some_ne_none text)) finder.pending
      rw [passed_cons_long long, List.length_append]
      exact ⟨by omega, fun _ => by omega⟩
    · rw [passed_cons, List.length_append]
      obtain ⟨rest, something⟩ := ih (finder.append text).1
      obtain ⟨out, _, kept, _⟩ := adjustLine_correct (Nat.not_lt.mp long) text
      have whole := ended_append_ge (finder.pending ++ text) pieces.flatten
      rw [kept] at rest
      rw [out, ← List.append_assoc]
      refine ⟨by omega, fun filled => ?_⟩
      by_cases nothing : finder.pending ++ text ++ pieces.flatten = []
      · obtain ⟨before, _⟩ := List.append_eq_nil_iff.mp nothing
        obtain ⟨empty, rfl⟩ := List.append_eq_nil_iff.mp before
        rw [append_nothing empty] at something ⊢
        exact Nat.lt_of_lt_of_le (something filled) (Nat.le_add_left ..)
      · have pos := ended_pos nothing
        omega

/-- A long line is passed on with two more newlines. -/
theorem passed_long (long : MAX_LINELENGTH < finder.pending.length) (text : Text) (pieces : List Text) :
    (ended (finder.pending ++ (text ++ pieces.flatten))).length + 2 ≤ (finder.passed (text :: pieces)).length := by
  obtain ⟨rest, something⟩ := passed_ge ⟨some text⟩ pieces
  have split := (splitLong_length finder.pending).2 long
  have whole : (ended (finder.pending ++ (text ++ pieces.flatten))).length ≤ _ :=
    ended_append_le_of_le rest (something nofun) finder.pending
  rw [passed_cons_long long, List.length_append]
  omega

/-- What is passed on last has a line of its own, unless a line was split. -/
theorem passed_ge_of_blank {finder : LineBoundaryFinder} (normal : finder.Holds finder.pending) (pieces : List Text)
    {last : Text} (flushed : (finder.feed pieces).1.flush.2 = some last) (blank : last.dropLast.getLast? = some '\n') :
    (ended (finder.pending ++ pieces.flatten)).length + 2 ≤ (finder.passed pieces).length := by
  induction pieces generalizing finder with
  | nil =>
    -- What is kept has no newline, and what is passed on last ends as it does.
    have unbroken : '\n' ∉ finder.pending := by
      rw [normal.kept]
      exact not_mem_unfinished _
    exfalso
    by_cases long : MAX_LINELENGTH < finder.pending.length
    · have something : finder.pending ≠ [] := List.ne_nil_of_length_pos (Nat.lt_of_le_of_lt (Nat.zero_le _) long)
      obtain ⟨body, same, ends⟩ := splitLong_ends something
      have passed : some (splitLong finder.pending) = some last := by
        rw [← flushed, feed, flush, append_long long, if_pos]
        cases kept : finder.partialLine with
        | none => simp [pending, kept] at something
        | some line => rfl
      rw [← Option.some.inj passed, same, List.dropLast_concat, ends] at blank
      exact unbroken (List.mem_of_getLast? blank)
    · have kept : finder.partialLine ≠ none := by
        intro none
        simp [feed, flush, none] at flushed
      obtain ⟨body, inside, ends⟩ := @normalize_newline finder.pending (by
        rw [normal.kept, normalize_unfinished]
        exact not_mem_unfinished _)
      rw [feed, flush_short (Nat.not_lt.mp long) kept, ends] at flushed
      rw [← Option.some.inj flushed, List.dropLast_concat] at blank
      exact inside (List.mem_of_getLast? blank)
  | cons text pieces ih =>
    by_cases long : MAX_LINELENGTH < finder.pending.length
    · exact passed_long long text pieces
    · obtain ⟨out, _, kept, filled⟩ := adjustLine_correct (Nat.not_lt.mp long) text
      have whole := ended_append_ge (finder.pending ++ text) pieces.flatten
      have rest := ih ⟨by rw [kept, unfinished_unfinished], filled normal.filled⟩ flushed
      rw [kept] at rest
      rw [passed_cons, List.length_append, List.flatten_cons, out, ← List.append_assoc]
      omega

end LineBoundaryFinder

/-- After that text, no long line is split, and no piece ends inside a run of backspaces. -/
def Tidy (before : Text) (pieces : List Text) : Prop :=
  ∀ front rest, front ++ rest = pieces →
    (unfinished (before ++ front.flatten)).length ≤ MAX_LINELENGTH ∧ Apart (before ++ front.flatten) rest.flatten

theorem tidy_nil {before : Text} : Tidy before [] ↔ (unfinished before).length ≤ MAX_LINELENGTH := by
  constructor
  · intro tidy
    have first := (tidy [] [] rfl).1
    rwa [List.flatten_nil, List.append_nil] at first
  · intro short front rest same
    obtain ⟨rfl, rfl⟩ := List.append_eq_nil_iff.mp same
    rw [List.flatten_nil, List.append_nil]
    exact ⟨short, fun _ => nofun⟩

theorem tidy_cons {before text : Text} {pieces : List Text} : Tidy before (text :: pieces) ↔
    ((unfinished before).length ≤ MAX_LINELENGTH ∧ Apart before (text ++ pieces.flatten)) ∧
      Tidy (before ++ text) pieces := by
  constructor
  · intro tidy
    refine ⟨?_, fun front rest same => ?_⟩
    · have first := tidy [] (text :: pieces) rfl
      rwa [List.flatten_nil, List.append_nil] at first
    · have later := tidy (text :: front) rest (congrArg _ same)
      rwa [List.flatten_cons, ← List.append_assoc] at later
  · rintro ⟨now, later⟩ front rest same
    cases front with
    | nil =>
      rw [List.nil_append] at same
      rw [same, List.flatten_nil, List.append_nil]
      exact now
    | cons first front =>
      obtain ⟨rfl, rfl⟩ := List.cons.inj same
      rw [List.flatten_cons, ← List.append_assoc]
      exact later front rest rfl

theorem Apart.left {text more rest : Text} (apart : Apart text (more ++ rest)) : Apart text more := by
  intro ends head
  obtain ⟨last, rfl⟩ := List.head?_eq_some_iff.mp head
  exact apart ends rfl

namespace LineBoundaryFinder

variable {finder : LineBoundaryFinder} {before : Text}

/-- After tidy pieces, the finder has been given them and their whole lines were passed on. -/
theorem feed_tidy (holds : finder.Holds before) {pieces : List Text} (tidy : Tidy before pieces) :
    (finder.feed pieces).1.Holds (before ++ pieces.flatten) ∧
      complete (before ++ pieces.flatten) = complete before ++ (finder.feed pieces).2 := by
  induction pieces generalizing finder before with
  | nil =>
    rw [List.flatten_nil, List.append_nil]
    exact ⟨holds, (List.append_nil _).symm⟩
  | cons text pieces ih =>
    obtain ⟨⟨short, apart⟩, later⟩ := tidy_cons.mp tidy
    obtain ⟨next, whole, _⟩ := holds.append short apart.left
    obtain ⟨last, all⟩ := ih next later
    rw [List.append_assoc] at last all
    rw [whole, List.append_assoc] at all
    exact ⟨last, all⟩

theorem passed_tidy (holds : finder.Holds before) {pieces : List Text} (tidy : Tidy before pieces) :
    complete before ++ finder.passed pieces = ended (before ++ pieces.flatten) := by
  obtain ⟨last, all⟩ := feed_tidy holds tidy
  have short := (tidy pieces [] (List.append_nil _)).1
  rw [passed, ← List.append_assoc, ← all, last.flush short, ended_eq]
  split
  · rfl
  · rfl

/-- Of pieces that are not tidy, more is passed on. -/
theorem passed_untidy (holds : finder.Holds before) {pieces : List Text} (untidy : ¬ Tidy before pieces) :
    (ended (before ++ pieces.flatten)).length < (complete before).length + (finder.passed pieces).length := by
  induction pieces generalizing finder before with
  | nil =>
    have long := Nat.lt_of_not_le fun short => untidy (tidy_nil.mpr short)
    rw [← holds.kept] at long
    have whole := ended_append_ge before []
    have alone := (ended_le_length finder.pending).1
    have split := (splitLong_length finder.pending).2 long
    have filled : finder.partialLine.isSome := by
      cases kept : finder.partialLine with
      | none => simp [pending, kept] at long
      | some line => rfl
    rw [List.append_nil, List.append_nil, ← holds.kept] at whole
    rw [List.flatten_nil, List.append_nil, passed_nil, flush, if_pos filled, append_long long, Option.getD_some]
    omega
  | cons text pieces ih =>
    by_cases long : MAX_LINELENGTH < finder.pending.length
    · have longer := passed_long long text pieces
      have whole := ended_append_ge before (text ++ pieces.flatten)
      rw [← holds.kept] at whole
      rw [List.flatten_cons]
      omega
    by_cases apart : Apart before (text ++ pieces.flatten)
    · rw [holds.kept] at long
      obtain ⟨next, whole, _⟩ := holds.append (Nat.not_lt.mp long) apart.left
      have rest := ih next fun later => untidy (tidy_cons.mpr ⟨⟨Nat.not_lt.mp long, apart⟩, later⟩)
      rw [whole, List.append_assoc, List.length_append] at rest
      rw [passed_cons, List.length_append, List.flatten_cons]
      omega
    · have longer := ended_append_backspaces apart
      have rest := (passed_ge finder (text :: pieces)).1
      rw [List.flatten_cons, holds.kept] at rest
      rw [List.flatten_cons]
      omega

/-- The text is passed on as it is exactly if the pieces are tidy. -/
theorem passed_iff (pieces : List Text) : passed ⟨none⟩ pieces = ended pieces.flatten ↔ Tidy [] pieces := by
  constructor
  · intro same
    by_contra untidy
    have longer := passed_untidy new_holds untidy
    rw [List.nil_append, ← same] at longer
    exact absurd longer (by simp [complete, wholeLines])
  · exact passed_tidy new_holds

theorem append_whole {text line : Text} (out : (finder.append text).2 = some line) : Whole '\n' line ∧ line ≠ [] := by
  by_cases long : MAX_LINELENGTH < finder.pending.length
  · rw [append_long long] at out
    have something : finder.pending ≠ [] := List.ne_nil_of_length_pos (Nat.lt_of_le_of_lt (Nat.zero_le _) long)
    obtain ⟨body, same, _⟩ := splitLong_ends something
    rw [← Option.some.inj out, same]
    exact ⟨.inr ⟨body, rfl⟩, by simp⟩
  · obtain ⟨whole, shown, _⟩ := adjustLine_correct (Nat.not_lt.mp long) text
    rw [out] at whole shown
    have whole : line = complete (finder.pending ++ text) := whole
    exact ⟨whole ▸ complete_whole _, fun empty => shown (congrArg some empty)⟩

/-- Whole lines come out as they are when nothing was kept back. -/
theorem append_line (empty : finder.pending = []) {line : Text} (inert : ∀ char ∈ line, Inert char)
    (whole : Whole '\n' line) (something : line ≠ []) :
    (finder.append line).2 = some line ∧ (finder.append line).1.pending = [] := by
  obtain ⟨_, all, rest⟩ := complete_inert inert
  obtain ⟨out, _, kept, _⟩ := @adjustLine_correct finder (by rw [empty]; exact Nat.zero_le _) line
  rw [empty, List.nil_append, all, (wholeLines_of_whole whole).1] at out
  rw [empty, List.nil_append, rest, (wholeLines_of_whole whole).2] at kept
  refine ⟨?_, kept⟩
  cases shown : (finder.append line).2 with
  | none =>
    rw [shown] at out
    exact absurd out.symm something
  | some text =>
    rw [shown] at out
    exact congrArg some out

theorem flush_whole {line : Text} (out : finder.flush.2 = some line) : Whole '\n' line ∧ line ≠ [] := by
  unfold flush at out
  split at out
  · exact append_whole out
  · cases out

/-- Nor is it if the last newline is left out and what is passed on last still ends with one. -/
theorem ne_of_blank {pieces : List Text} {last : Text} (flushed : (feed ⟨none⟩ pieces).1.flush.2 = some last)
    (blank : last.dropLast.getLast? = some '\n') :
    (feed ⟨none⟩ pieces).2 ++ last.dropLast ≠ ended pieces.flatten := by
  intro same
  have longer := passed_ge_of_blank new_holds pieces flushed blank
  have length := congrArg List.length same
  rw [passed, flushed, Option.getD_some, List.length_append] at longer
  rw [List.length_append, List.length_dropLast] at length
  have whole : (ended (pending ⟨none⟩ ++ pieces.flatten)).length = (ended pieces.flatten).length := rfl
  omega

/-- Nothing comes out in the end if the last line has ended. -/
theorem flush_tidy {pieces : List Text} (tidy : Tidy [] pieces) :
    (feed ⟨none⟩ pieces).1.flush.2 = none ↔ unfinished pieces.flatten = [] := by
  rw [(feed_tidy new_holds tidy).1.flush (tidy pieces [] (List.append_nil _)).1, List.nil_append]
  split
  · rename_i nothing
    exact iff_of_true rfl nothing
  · rename_i something
    exact iff_of_false nofun something

end LineBoundaryFinder

end Umbilical.Logs
