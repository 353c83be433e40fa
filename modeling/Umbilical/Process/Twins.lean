import Umbilical.Process.Redaction

set_option autoImplicit false

/-!
# Outputs that differ in one secret

Where a command prints either of two values that one name stands for, the same is stored.
-/

namespace Umbilical.Process

open Python Lines Logs Replacing

namespace UsedSecrets

variable {used : UsedSecrets}

/-- The two values have one name, and no secret is seen in part where one of them is printed. -/
structure Interchangeable (used : UsedSecrets) (first second name : Text) : Prop where
  first_used : (first, name) ∈ used
  second_used : (second, name) ∈ used
  length : first.length = second.length
  inert : ∀ char ∈ first ++ second, Inert char ∧ char ≠ '\n'
  first_borderless : Borderless first
  second_borderless : Borderless second
  first_apart : ∀ secret ∈ used, secret.1 ≠ first → Detached secret.1 first
  second_apart : ∀ secret ∈ used, secret.1 ≠ second → Detached secret.1 second

/-- In its turn a value that is still printed is replaced by its name, and nothing else touches it. -/
theorem turn_printed (recorded : used.Recorded) (separate : used.Separate) {value name printed : Text}
    (among : (value, name) ∈ used) (borderless : Borderless value)
    (apart : ∀ secret ∈ used, secret.1 ≠ value → Detached secret.1 value) {secret : Text × Text} (member : secret ∈ used)
    {rest : List (Text × Text)} (ahead : printed = name ∨ printed = value ∧ (value, name) ∈ secret :: rest)
    (parts : List Text) :
    ∃ next, (next = name ∨ next = value ∧ (value, name) ∈ rest) ∧
      replace secret.1 secret.2 (printed.intercalate parts) =
        next.intercalate (parts.map (replace secret.1 secret.2)) := by
  have something := recorded.ne_nil member
  rcases ahead with rfl | ⟨rfl, listed⟩
  · exact ⟨printed, .inl rfl, replace_intercalate something (separate secret member _ among) parts⟩
  by_cases same : secret.1 = printed
  · have whole : secret = (printed, name) := recorded.distinct.eq_of_key member among same
    subst whole
    exact ⟨name, .inl rfl, replace_intercalate_self something borderless parts⟩
  · refine ⟨printed, .inr ⟨rfl, ?_⟩, replace_intercalate something (apart secret member same) parts⟩
    rcases List.mem_cons.mp listed with here | later
    · exact absurd (congrArg Prod.fst here.symm) same
    · exact later

/-- A text with one of the values where the other has the other is cleaned up to the same. -/
theorem Interchangeable.cleanup (recorded : used.Recorded) (separate : used.Separate) {first second name : Text}
    (interchangeable : used.Interchangeable first second name) (template : Template Char) :
    used.cleanupTextFromSecrets (fill first template) = used.cleanupTextFromSecrets (fill second template) := by
  obtain ⟨part, parts, same⟩ := exists_parts template
  rw [same, same]
  generalize part :: parts = parts
  -- What is printed is replaced in both texts by the end of the list.
  have turns (secrets : List (Text × Text)) (among : ∀ secret ∈ secrets, secret ∈ used) (left right : Text)
      (here : left = name ∨ left = first ∧ (first, name) ∈ secrets)
      (there : right = name ∨ right = second ∧ (second, name) ∈ secrets) (parts : List Text) :
      secrets.foldl (fun text secret => replace secret.1 secret.2 text) (left.intercalate parts) =
        secrets.foldl (fun text secret => replace secret.1 secret.2 text) (right.intercalate parts) := by
    induction secrets generalizing left right parts with
    | nil =>
      rw [here.resolve_right fun both => List.not_mem_nil both.2, there.resolve_right fun both => List.not_mem_nil both.2]
    | cons secret rest ih =>
      have member := among secret List.mem_cons_self
      obtain ⟨nextLeft, left, one⟩ := turn_printed recorded separate interchangeable.first_used
        interchangeable.first_borderless interchangeable.first_apart member here parts
      obtain ⟨nextRight, right, two⟩ := turn_printed recorded separate interchangeable.second_used
        interchangeable.second_borderless interchangeable.second_apart member there parts
      rw [List.foldl_cons, List.foldl_cons, one, two]
      exact ih (fun other later => among other (List.mem_cons_of_mem _ later)) nextLeft nextRight left right _
  exact turns used.byLength (fun secret member => mem_byLength.mp member) first second
    (.inr ⟨rfl, mem_byLength.mpr interchangeable.first_used⟩)
    (.inr ⟨rfl, mem_byLength.mpr interchangeable.second_used⟩) parts

end UsedSecrets

theorem fill_eq_nil {value : Text} (filled : value ≠ []) {template : Template Char} :
    fill value template = [] ↔ template = [] := by
  constructor
  · intro nothing
    cases template with
    | nil => rfl
    | cons place rest =>
      cases place with
      | none => exact absurd (List.append_eq_nil_iff.mp nothing).1 filled
      | some char => cases nothing
  · rintro rfl
    rfl

/-- Two texts of one length that have either value at the places of a template, and how they go on. -/
structure Alike (first second left more right others : Text) (template : Template Char) : Prop where
  one : left ++ more = fill first template
  two : right ++ others = fill second template
  length : left.length = right.length

variable {first second : Text}

/-- Cut after their last newlines, they are alike again. -/
theorem Alike.cut (lengths : first.length = second.length) (filled : first ≠ [])
    (unbroken : '\n' ∉ first ∧ '\n' ∉ second) {left more right others : Text} {template : Template Char}
    (alike : Alike first second left more right others template) :
    ∃ lines rest, wholeLines '\n' left = fill first lines ∧ wholeLines '\n' right = fill second lines ∧
      Alike first second (lastPart '\n' left) more (lastPart '\n' right) others rest := by
  have other : second ≠ [] := fun nothing => filled (List.length_eq_zero_iff.mp (by rw [lengths, nothing]; rfl))
  induction template generalizing left right with
  | nil =>
    obtain ⟨rfl, rfl⟩ := List.append_eq_nil_iff.mp alike.one
    obtain ⟨rfl, rfl⟩ := List.append_eq_nil_iff.mp alike.two
    exact ⟨[], [], rfl, rfl, ⟨rfl, rfl, rfl⟩⟩
  | cons place template ih =>
    -- What the first place is filled with is without newlines, or it is one.
    have step (value sibling : Text) (here : fill first (place :: template) = value ++ fill first template)
        (there : fill second (place :: template) = sibling ++ fill second template)
        (same : value.length = sibling.length)
        (kind : '\n' ∉ value ∧ '\n' ∉ sibling ∨ value = ['\n'] ∧ sibling = ['\n'])
        (own : fill first [place] = value ∧ fill second [place] = sibling) :
        ∃ lines rest, wholeLines '\n' left = fill first lines ∧ wholeLines '\n' right = fill second lines ∧
          Alike first second (lastPart '\n' left) more (lastPart '\n' right) others rest := by
      have stays (none : '\n' ∉ left) (neither : '\n' ∉ right) : ∃ lines rest, wholeLines '\n' left = fill first lines ∧
          wholeLines '\n' right = fill second lines ∧
          Alike first second (lastPart '\n' left) more (lastPart '\n' right) others rest := by
        refine ⟨[], place :: template, wholeLines_of_not_mem none, wholeLines_of_not_mem neither, ?_⟩
        rw [lastPart_of_not_mem none, lastPart_of_not_mem neither]
        exact alike
      obtain ⟨one, two, length⟩ := alike
      rw [here] at one
      rw [there] at two
      have prefixes (text value rest after : Text) (whole : text ++ rest = value ++ after) :
          (∃ tail, text = value ++ tail) ∨ text.length < value.length ∧ ∃ tail, value = text ++ tail := by
        rcases List.append_eq_append_iff.mp whole with ⟨left, same, _⟩ | ⟨left, same, _⟩
        · cases left with
          | nil => exact .inl ⟨[], by rw [same, List.append_nil, List.append_nil]⟩
          | cons char left => exact .inr ⟨by simp [same], char :: left, same⟩
        · exact .inl ⟨left, same⟩
      rcases prefixes left value more _ one with ⟨after, rfl⟩ | ⟨short, ends, unended⟩
      · rcases prefixes right sibling others _ two with ⟨behind, rfl⟩ | ⟨short, _⟩
        · rw [List.append_assoc] at one two
          rw [List.length_append, List.length_append, same] at length
          obtain ⟨lines, rest, before, beside, next⟩ :=
            ih ⟨List.append_cancel_left one, List.append_cancel_left two, Nat.add_left_cancel length⟩
          by_cases nothing : lines = []
          · rw [nothing] at before beside
            have none : '\n' ∉ after := wholeLines_eq_nil.mp before
            have neither : '\n' ∉ behind := wholeLines_eq_nil.mp beside
            rcases kind with ⟨free, clear⟩ | ⟨rfl, rfl⟩
            · exact stays (by simp [free, none]) (by simp [clear, neither])
            · have newline : Whole '\n' ['\n'] := .inr ⟨[], rfl⟩
              obtain ⟨whole, last⟩ := wholeLines_append newline after
              obtain ⟨also, left⟩ := wholeLines_append newline behind
              refine ⟨[place], rest, ?_, ?_, ?_⟩
              · rw [whole, before, own.1]
                rfl
              · rw [also, beside, own.2]
                rfl
              · rw [last, left]
                exact next
          · have broken : '\n' ∈ after := by
              by_contra none
              rw [wholeLines_of_not_mem none] at before
              exact nothing ((fill_eq_nil filled).mp before.symm)
            have also : '\n' ∈ behind := by
              by_contra none
              rw [wholeLines_of_not_mem none] at beside
              exact nothing ((fill_eq_nil other).mp beside.symm)
            obtain ⟨whole, last⟩ := wholeLines_append_of_mem broken value
            obtain ⟨too, left⟩ := wholeLines_append_of_mem also sibling
            refine ⟨place :: lines, rest, ?_, ?_, ?_⟩
            · rw [whole, before, ← own.1, ← fill_append]
              rfl
            · rw [too, beside, ← own.2, ← fill_append]
              rfl
            · rw [last, left]
              exact next
        · rw [List.length_append] at length
          omega
      · rcases prefixes right sibling others _ two with ⟨behind, rfl⟩ | ⟨_, last, undone⟩
        · rw [List.length_append] at length
          omega
        · rcases kind with ⟨free, clear⟩ | ⟨rfl, rfl⟩
          · rw [unended] at free
            rw [undone] at clear
            exact stays (fun member => free (List.mem_append_left _ member)) fun member =>
              clear (List.mem_append_left _ member)
          · have empty : left = [] := List.length_eq_zero_iff.mp (Nat.lt_one_iff.mp short)
            have also : right = [] := List.length_eq_zero_iff.mp (by rw [← length, empty]; rfl)
            rw [empty] at stays
            rw [also] at stays
            rw [empty, also]
            exact stays List.not_mem_nil List.not_mem_nil
    cases place with
    | none => exact step first second rfl rfl lengths (.inl unbroken) ⟨by simp [fill], by simp [fill]⟩
    | some char =>
      by_cases newline : char = '\n'
      · subst newline
        exact step ['\n'] ['\n'] rfl rfl rfl (.inr ⟨rfl, rfl⟩) ⟨rfl, rfl⟩
      · have apart : '\n' ∉ [char] := fun member => newline (List.mem_singleton.mp member).symm
        exact step [char] [char] rfl rfl rfl (.inl ⟨apart, apart⟩) ⟨rfl, rfl⟩

namespace RemoteCommand

variable (used : UsedSecrets) (command : RemoteCommand)

/-- What is stored: everything but the line boundary finders. -/
def shown : RemoteCommand := { command with lineBoundaryFinders := [] }

variable {used command}

theorem addLines_shown (name : String) (mark : Char) (data : Text) :
    command.shown.addLines name mark data =
      ((command.addLines name mark data).1.shown, (command.addLines name mark data).2) := by
  unfold addLines
  have logs : command.shown.logs = command.logs := rfl
  rw [logs]
  cases command.logs name with
  | none => rfl
  | some content =>
    dsimp only
    cases onWholeLines mark data content with
    | none => rfl
    | some content => rfl

theorem addStdioLines_shown (mark : Char) (data : Text) : command.shown.addStdioLines mark data =
    ((command.addStdioLines mark data).1.shown, (command.addStdioLines mark data).2) := by
  unfold addStdioLines
  have named : command.shown.stdioLogName = command.stdioLogName := rfl
  rw [named]
  cases command.stdioLogName with
  | none => rfl
  | some name => exact addLines_shown name mark data

theorem remoteUpdate_shown (origin : Origin) (data : Text) (isFlushed : Bool) :
    command.shown.remoteUpdate used origin data isFlushed =
      ((command.remoteUpdate used origin data isFlushed).1.shown, (command.remoteUpdate used origin data isFlushed).2) := by
  cases origin with
  | log name => exact addLines_shown name _ _
  | stream stream =>
    rw [remoteUpdate_stream, remoteUpdate_stream, ← addStdioLines_shown]
    have flags : command.shown.collects = command.collects := rfl
    have collected (text : Text) : command.shown.collect stream text = (command.collect stream text).shown := by
      unfold collect
      rw [flags]
      split
      · cases stream <;> rfl
      · rfl
    rw [collected]
    rfl

/-- What an update stores depends on the text that is left after the secrets are replaced. -/
theorem remoteUpdate_congr {other : RemoteCommand} (same : command.shown = other.shown) {data text : Text}
    (clean : used.cleanupTextFromSecrets data = used.cleanupTextFromSecrets text) (origin : Origin) (isFlushed : Bool) :
    (command.remoteUpdate used origin data isFlushed).1.shown = (other.remoteUpdate used origin text isFlushed).1.shown ∧
      (command.remoteUpdate used origin data isFlushed).2 = (other.remoteUpdate used origin text isFlushed).2 := by
  have first := @remoteUpdate_shown used command origin data isFlushed
  have second := @remoteUpdate_shown used other origin text isFlushed
  have whole : command.shown.remoteUpdate used origin data isFlushed = other.shown.remoteUpdate used origin text isFlushed := by
    unfold RemoteCommand.remoteUpdate
    rw [same, clean]
  rw [first, second] at whole
  exact Prod.mk.inj whole

theorem update_finder (update : Update) (name : String) : (command.update used update).finder name =
    if name = update.origin.name then ((command.finder update.origin.name).append update.data).1
    else command.finder name := by
  have set := command.finder_setFinder update.origin.name name
    ((command.finder update.origin.name).append update.data).1
  unfold RemoteCommand.update
  cases out : ((command.finder update.origin.name).append update.data).2 with
  | none =>
    simp only [out]
    exact set
  | some line =>
    simp only [out]
    exact (finder_congr (remoteUpdate_frame used _ update.origin line false).1 name).trans set

/-- The names of the finders. -/
def names (command : RemoteCommand) : List String := command.lineBoundaryFinders.map Prod.fst

theorem setFinder_names (name : String) (finder : LineBoundaryFinder) : (command.setFinder name finder).names =
    if name ∈ command.names then command.names else command.names ++ [name] := by
  unfold names setFinder
  cases found : Keyed.lookup Prod.fst command.lineBoundaryFinders name with
  | some entry =>
    obtain ⟨member, same⟩ := Keyed.mem_of_lookup found
    have keeps (entry : String × LineBoundaryFinder) : Prod.fst (entry.1, finder) = Prod.fst entry := rfl
    rw [if_pos (List.mem_map.mpr ⟨entry, member, same⟩)]
    exact Keyed.map_key_revise _ keeps
  | none =>
    rw [if_neg]
    · exact List.map_append
    · intro member
      obtain ⟨entry, among, same⟩ := List.mem_map.mp member
      exact Keyed.lookup_eq_none.mp found entry among same

theorem update_names (update : Update) : (command.update used update).names =
    if update.origin.name ∈ command.names then command.names else command.names ++ [update.origin.name] := by
  have set := @setFinder_names command update.origin.name
    ((command.finder update.origin.name).append update.data).1
  unfold RemoteCommand.update
  cases out : ((command.finder update.origin.name).append update.data).2 with
  | none =>
    simp only [out]
    exact set
  | some line =>
    simp only [out]
    unfold names
    rw [(remoteUpdate_frame used _ update.origin line false).1]
    exact set

theorem finders_eq (distinct : command.names.Nodup) :
    command.lineBoundaryFinders = command.names.map fun name => (name, command.finder name) := by
  unfold names
  rw [List.map_map]
  conv_lhs => rw [← List.map_id command.lineBoundaryFinders]
  apply List.map_congr_left
  intro entry member
  have unique : Keyed.Distinct Prod.fst command.lineBoundaryFinders := distinct
  have found := unique.lookup_self member
  simp [RemoteCommand.finder, found]

/-- The text for a finder, in the pieces in which it came. -/
def piecesNamed (name : String) (all : List Update) : List Text :=
  (all.filter fun update => update.origin.name = name).map Update.data

theorem piecesNamed_cons_self (update : Update) (rest : List Update) :
    piecesNamed update.origin.name (update :: rest) = update.data :: piecesNamed update.origin.name rest := by
  simp [piecesNamed]

theorem piecesNamed_cons_other {name : String} {update : Update} (other : update.origin.name ≠ name)
    (rest : List Update) : piecesNamed name (update :: rest) = piecesNamed name rest := by
  simp [piecesNamed, other]

/-- The finder has kept back a part of what it was given, without terminators, and is never given too much. -/
structure Plainly (finder : LineBoundaryFinder) (pieces : List Text) : Prop where
  filled : finder.partialLine ≠ some []
  inert : ∀ char ∈ finder.pending ++ pieces.flatten, Inert char
  short : ∀ front rest, front ++ rest = pieces → (lastPart '\n' (finder.pending ++ front.flatten)).length ≤ MAX_LINELENGTH

theorem Plainly.of_short {pieces : List Text} (inert : ∀ char ∈ pieces.flatten, Inert char)
    (short : pieces.flatten.length ≤ MAX_LINELENGTH) : Plainly ⟨none⟩ pieces := by
  refine ⟨nofun, inert, ?_⟩
  rintro front rest rfl
  have whole : (wholeLines '\n' front.flatten ++ lastPart '\n' front.flatten).length = front.flatten.length :=
    congrArg List.length (wholeLines_append_lastPart front.flatten)
  rw [List.flatten_append, List.length_append] at short
  rw [List.length_append] at whole
  change (lastPart '\n' front.flatten).length ≤ MAX_LINELENGTH
  omega

/-- What comes out of it, and what it keeps back. -/
theorem Plainly.append {finder : LineBoundaryFinder} {text : Text} {pieces : List Text}
    (plainly : Plainly finder (text :: pieces)) (unbroken : '\n' ∉ finder.pending) :
    (finder.append text).2 =
        (if wholeLines '\n' (finder.pending ++ text) = [] then none else some (wholeLines '\n' (finder.pending ++ text))) ∧
      (finder.append text).1.pending = lastPart '\n' (finder.pending ++ text) ∧ Plainly (finder.append text).1 pieces := by
  have short : finder.pending.length ≤ MAX_LINELENGTH := by
    have first := plainly.short [] (text :: pieces) rfl
    rwa [List.flatten_nil, List.append_nil, lastPart_of_not_mem unbroken] at first
  have inert : ∀ char ∈ finder.pending ++ text, Inert char := by
    intro char member
    apply plainly.inert
    rw [List.flatten_cons, ← List.append_assoc]
    exact List.mem_append_left _ member
  obtain ⟨_, all, rest⟩ := complete_inert inert
  obtain ⟨out, something, kept, filled⟩ := LineBoundaryFinder.adjustLine_correct short text
  rw [all] at out
  rw [rest] at kept
  have cut : wholeLines '\n' (finder.pending ++ text) ++ lastPart '\n' (finder.pending ++ text) =
      finder.pending ++ text := wholeLines_append_lastPart _
  have ends : Whole '\n' (wholeLines '\n' (finder.pending ++ text)) := wholeLines_whole _
  refine ⟨?_, kept, filled plainly.filled, ?_, ?_⟩
  · split
    · rename_i nothing
      rw [nothing] at out
      cases shown : (finder.append text).2 with
      | none => rfl
      | some line =>
        rw [shown] at out something
        exact absurd (congrArg some out) something
    · rename_i lines
      cases shown : (finder.append text).2 with
      | none =>
        rw [shown] at out
        exact absurd out.symm lines
      | some line =>
        rw [shown] at out
        exact congrArg some out
  · intro char member
    rw [kept] at member
    apply plainly.inert
    rw [List.flatten_cons, ← List.append_assoc, ← cut, List.append_assoc]
    exact List.mem_append_right _ member
  · intro front last same
    have later := plainly.short (text :: front) last (congrArg _ same)
    have whole := (wholeLines_append ends (lastPart '\n' (finder.pending ++ text) ++ front.flatten)).2
    rw [← List.append_assoc, cut] at whole
    rw [List.flatten_cons, ← List.append_assoc, whole] at later
    rwa [kept]

theorem Plainly.flush_nothing {finder : LineBoundaryFinder} {pieces : List Text} (plainly : Plainly finder pieces)
    (kept : finder.pending = []) : finder.flush.2 = none := by
  have none : finder.partialLine = none := by
    cases line : finder.partialLine with
    | none => rfl
    | some text =>
      rw [LineBoundaryFinder.pending, line] at kept
      exact absurd (by rw [line]; exact congrArg some kept) plainly.filled
  rw [LineBoundaryFinder.flush, none]
  rfl

theorem Plainly.flush_something {finder : LineBoundaryFinder} (plainly : Plainly finder []) (kept : finder.pending ≠ [])
    (unbroken : '\n' ∉ finder.pending) : finder.flush.2 = some (finder.pending ++ ['\n']) := by
  have short := plainly.short [] [] rfl
  rw [List.flatten_nil, List.append_nil, lastPart_of_not_mem unbroken] at short
  have filled : finder.partialLine ≠ none := by
    intro none
    rw [LineBoundaryFinder.pending, none] at kept
    exact kept rfl
  have inert : ∀ char ∈ finder.pending, Inert char := by
    intro char member
    apply plainly.inert
    rwa [List.flatten_nil, List.append_nil]
  have newline : normalize ['\n'] = ['\n'] := rfl
  rw [LineBoundaryFinder.flush_short short filled, normalize_inert inert, newline]

/-- What an update stores is what its finder passes on. -/
theorem update_shown (command : RemoteCommand) (update : Update) : (command.update used update).shown =
    match ((command.finder update.origin.name).append update.data).2 with
    | none => command.shown
    | some line => (command.shown.remoteUpdate used update.origin line false).1 := by
  unfold RemoteCommand.update
  cases out : ((command.finder update.origin.name).append update.data).2 with
  | none =>
    simp only [out]
    rfl
  | some line =>
    simp only [out]
    exact congrArg Prod.fst (remoteUpdate_shown update.origin line false).symm

/-- Two commands that have stored the same, with what each finder holds and gets alike. -/
structure Lockstep (first second : Text) (left right : RemoteCommand) (all others : List Update) : Prop where
  shown : left.shown = right.shown
  names : left.names = right.names
  distinct : left.names.Nodup
  unbroken : ∀ name, '\n' ∉ (left.finder name).pending ∧ '\n' ∉ (right.finder name).pending
  plainly : ∀ name, Plainly (left.finder name) (piecesNamed name all) ∧ Plainly (right.finder name) (piecesNamed name others)
  alike : ∀ name, ∃ template, Alike first second (left.finder name).pending (piecesNamed name all).flatten
    (right.finder name).pending (piecesNamed name others).flatten template

variable {first second name : Text}

/-- Two updates of one origin and length keep them in step. -/
theorem Lockstep.update (recorded : used.Recorded) (separate : used.Separate)
    (interchangeable : used.Interchangeable first second name) {left right : RemoteCommand} {update other : Update}
    {all others : List Update} (step : Lockstep first second left right (update :: all) (other :: others))
    (origin : update.origin = other.origin) (length : update.data.length = other.data.length) :
    Lockstep first second (left.update used update) (right.update used other) all others := by
  have filled : first ≠ [] := recorded.ne_nil interchangeable.first_used
  have unbroken : '\n' ∉ first ∧ '\n' ∉ second :=
    ⟨fun member => (interchangeable.inert _ (List.mem_append_left _ member)).2 rfl,
      fun member => (interchangeable.inert _ (List.mem_append_right _ member)).2 rfl⟩
  have otherFilled : second ≠ [] := recorded.ne_nil interchangeable.second_used
  obtain ⟨template, alike⟩ := step.alike update.origin.name
  obtain ⟨plainly, also⟩ := step.plainly update.origin.name
  rw [piecesNamed_cons_self] at alike plainly
  rw [origin, piecesNamed_cons_self, ← origin] at alike also
  obtain ⟨out, kept, goes⟩ := plainly.append (step.unbroken _).1
  obtain ⟨otherOut, otherKept, alsoGoes⟩ := also.append (step.unbroken _).2
  have here : Alike first second ((left.finder update.origin.name).pending ++ update.data)
      (piecesNamed update.origin.name all).flatten ((right.finder update.origin.name).pending ++ other.data)
      (piecesNamed update.origin.name others).flatten template := by
    refine ⟨?_, ?_, ?_⟩
    · rw [List.append_assoc, ← List.flatten_cons, alike.one]
    · rw [List.append_assoc, ← List.flatten_cons, alike.two]
    · rw [List.length_append, List.length_append, alike.length, length]
  obtain ⟨lines, rest, whole, otherWhole, cut⟩ := here.cut interchangeable.length filled unbroken
  -- What comes out of the finders is cleaned up to the same.
  have stored : (left.update used update).shown = (right.update used other).shown := by
    rw [update_shown, update_shown, ← origin, out, otherOut, whole, otherWhole]
    by_cases nothing : lines = []
    · rw [if_pos ((fill_eq_nil filled).mpr nothing), if_pos ((fill_eq_nil otherFilled).mpr nothing)]
      exact step.shown
    · rw [if_neg fun empty => nothing ((fill_eq_nil filled).mp empty),
        if_neg fun empty => nothing ((fill_eq_nil otherFilled).mp empty)]
      unfold RemoteCommand.remoteUpdate
      dsimp only
      rw [step.shown, interchangeable.cleanup recorded separate lines]
  have next (name : String) : (left.update used update).finder name =
      if name = update.origin.name then ((left.finder update.origin.name).append update.data).1 else left.finder name :=
    update_finder update name
  have otherNext (name : String) : (right.update used other).finder name =
      if name = update.origin.name then ((right.finder update.origin.name).append other.data).1 else right.finder name := by
    rw [origin]
    exact update_finder other name
  have names : (left.update used update).names = (right.update used other).names := by
    rw [update_names, update_names, ← origin, step.names]
  refine ⟨stored, names, ?_, fun name => ?_, fun name => ?_, fun name => ?_⟩
  · rw [update_names]
    split
    · exact step.distinct
    · rename_i fresh
      exact List.nodup_append.mpr ⟨step.distinct, List.nodup_singleton _, fun _ member _ added same =>
        fresh (List.mem_singleton.mp added ▸ same ▸ member)⟩
  · rw [next, otherNext]
    split
    · rw [kept, otherKept]
      exact ⟨not_mem_lastPart _, not_mem_lastPart _⟩
    · exact step.unbroken name
  · rw [next, otherNext]
    split
    · rename_i same
      rw [same]
      exact ⟨goes, alsoGoes⟩
    · rename_i different
      have old := step.plainly name
      rwa [piecesNamed_cons_other (Ne.symm different), piecesNamed_cons_other (origin ▸ Ne.symm different)] at old
  · rw [next, otherNext]
    split
    · rename_i same
      rw [same, kept, otherKept]
      exact ⟨rest, cut⟩
    · rename_i different
      have old := step.alike name
      rwa [piecesNamed_cons_other (Ne.symm different), piecesNamed_cons_other (origin ▸ Ne.symm different)] at old

theorem Lockstep.updates (recorded : used.Recorded) (separate : used.Separate)
    (interchangeable : used.Interchangeable first second name) {left right : RemoteCommand} {all others : List Update}
    (step : Lockstep first second left right all others)
    (cuts : all.map (fun update => (update.origin, update.data.length)) =
      others.map fun update => (update.origin, update.data.length)) :
    Lockstep first second (left.updates used all) (right.updates used others) [] [] := by
  induction all generalizing left right others with
  | nil =>
    obtain rfl := List.map_eq_nil_iff.mp cuts.symm
    exact step
  | cons update rest ih =>
    cases others with
    | nil => cases cuts
    | cons other others =>
      obtain ⟨same, later⟩ := List.cons.inj cuts
      obtain ⟨origin, length⟩ := Prod.mk.inj same
      have next := step.update recorded separate interchangeable origin length
      exact @ih (left.update used update) (right.update used other) others next later

/-- The loops at the end store the same. -/
theorem flushAll_shown {left right : RemoteCommand} (same : left.shown = right.shown) (names : List String)
    {finder other : String → LineBoundaryFinder}
    (alike : ∀ name, (finder name).flush.2 = none ∧ (other name).flush.2 = none ∨ ∃ line text,
      (finder name).flush.2 = some line ∧ (other name).flush.2 = some text ∧
        used.cleanupTextFromSecrets line = used.cleanupTextFromSecrets text) :
    (flushAll used left (names.map fun name => (name, finder name))).1.shown =
        (flushAll used right (names.map fun name => (name, other name))).1.shown ∧
      (flushAll used left (names.map fun name => (name, finder name))).2 =
        (flushAll used right (names.map fun name => (name, other name))).2 := by
  induction names generalizing left right with
  | nil => exact ⟨same, rfl⟩
  | cons name rest ih =>
    rw [List.map_cons, List.map_cons, flushAll, flushAll]
    rcases alike name with ⟨none, neither⟩ | ⟨line, text, out, also, clean⟩
    · rw [none, neither]
      exact ih same
    · rw [out, also]
      dsimp only
      obtain ⟨stored, raised⟩ := remoteUpdate_congr same clean (Origin.ofName name) true
      cases one : left.remoteUpdate used (Origin.ofName name) line true with
      | mk next failed =>
        cases two : right.remoteUpdate used (Origin.ofName name) text true with
        | mk sibling broken =>
          rw [one, two] at stored raised
          have raised : failed = broken := raised
          subst raised
          cases failed with
          | true => exact ⟨stored, rfl⟩
          | false => exact ih stored

/-- Two outputs that are cut at the same places and differ in which of two values is printed are stored identically. -/
theorem twins_stored_identically (recorded : used.Recorded) (separate : used.Separate)
    (interchangeable : used.Interchangeable first second name) (collectStdout collectStderr : Bool)
    (stdioLogName : Option String) (lognames : List String) {all others : List Update}
    (cuts : all.map (fun update => (update.origin, update.data.length)) =
      others.map fun update => (update.origin, update.data.length))
    (printed : ∀ name, ∃ template, (piecesNamed name all).flatten = fill first template ∧
      (piecesNamed name others).flatten = fill second template)
    (plain : ∀ name, Plainly ⟨none⟩ (piecesNamed name all) ∧ Plainly ⟨none⟩ (piecesNamed name others)) :
    (((start collectStdout collectStderr stdioLogName lognames).updates used all).remoteComplete used).1.shown =
        (((start collectStdout collectStderr stdioLogName lognames).updates used others).remoteComplete used).1.shown ∧
      (((start collectStdout collectStderr stdioLogName lognames).updates used all).remoteComplete used).2 =
        (((start collectStdout collectStderr stdioLogName lognames).updates used others).remoteComplete used).2 := by
  have step : Lockstep first second (start collectStdout collectStderr stdioLogName lognames)
      (start collectStdout collectStderr stdioLogName lognames) all others := by
    refine ⟨rfl, rfl, List.nodup_nil, fun name => ⟨List.not_mem_nil, List.not_mem_nil⟩, plain, fun name => ?_⟩
    obtain ⟨template, one, two⟩ := printed name
    exact ⟨template, one, two, rfl⟩
  have last := step.updates recorded separate interchangeable cuts
  unfold remoteComplete
  rw [finders_eq last.distinct, finders_eq (last.names ▸ last.distinct), ← last.names]
  apply flushAll_shown last.shown
  intro name
  obtain ⟨plainly, also⟩ := last.plainly name
  obtain ⟨template, one, two, length⟩ := last.alike name
  have whole : Alike first second _ [] _ [] template := ⟨one, two, length⟩
  rw [piecesNamed, List.filter_nil, List.map_nil, List.flatten_nil, List.append_nil] at one two
  by_cases kept : (((start collectStdout collectStderr stdioLogName lognames).updates used all).finder name).pending = []
  · have nothing := List.length_eq_zero_iff.mp (length.symm.trans (by rw [kept]; rfl))
    exact .inl ⟨plainly.flush_nothing kept, also.flush_nothing nothing⟩
  · have something : (((start collectStdout collectStderr stdioLogName lognames).updates used others).finder
        name).pending ≠ [] :=
      fun empty => kept (List.length_eq_zero_iff.mp (length.trans (by rw [empty]; rfl)))
    refine .inr ⟨_, _, plainly.flush_something kept (last.unbroken name).1,
      also.flush_something something (last.unbroken name).2, ?_⟩
    have ends (value : Text) : fill value template ++ ['\n'] = fill value (template ++ [some '\n']) := by
      rw [fill_append]
      rfl
    rw [one, two, ends, ends]
    exact interchangeable.cleanup recorded separate _

/-- Two values of one name. -/
def twoValues : List (Text × Text) := [("ab".toList, "x".toList), ("cd".toList, "x".toList)]

theorem twoValues_used : UsedSecrets.ofUses twoValues =
    [(['a', 'b'], ['<', 'x', '>']), (['c', 'd'], ['<', 'x', '>'])] := by decide

theorem twoValues_separate : (UsedSecrets.ofUses twoValues).Separate := by
  have disjoint : ∀ secret ∈ UsedSecrets.ofUses twoValues, ∀ other ∈ UsedSecrets.ofUses twoValues,
      ∀ char ∈ secret.1, char ∉ other.2 := by
    rw [twoValues_used]
    simp
  have named : ∀ secret ∈ UsedSecrets.ofUses twoValues, secret.2 ≠ [] := by
    rw [twoValues_used]
    simp
  intro secret member other also
  apply Detached.of_disjoint ((UsedSecrets.ofUses_recorded twoValues).ne_nil member) (named other also)
  intro char here there
  exact disjoint secret member other also char here there

theorem twoValues_interchangeable :
    (UsedSecrets.ofUses twoValues).Interchangeable "ab".toList "cd".toList "<x>".toList := by
  have disjoint : ∀ secret ∈ UsedSecrets.ofUses twoValues, ∀ other ∈ UsedSecrets.ofUses twoValues,
      secret.1 ≠ other.1 → ∀ char ∈ secret.1, char ∉ other.1 := by
    rw [twoValues_used]
    simp
  have apart (value : Text) (member : (value, "<x>".toList) ∈ UsedSecrets.ofUses twoValues)
      (secret : Text × Text) (also : secret ∈ UsedSecrets.ofUses twoValues) (other : secret.1 ≠ value) :
      Detached secret.1 value := by
    have recorded := UsedSecrets.ofUses_recorded twoValues
    apply Detached.of_disjoint (recorded.ne_nil also) (recorded.ne_nil member)
    intro char here there
    exact disjoint secret also (value, "<x>".toList) member other char here there
  refine ⟨by decide, by decide, rfl, by simp [Inert], borderless_of_head (by decide),
    borderless_of_head (by decide), apart _ (by decide), apart _ (by decide)⟩

end RemoteCommand

end Umbilical.Process
