import Umbilical.Logs.LineBoundaries

set_option autoImplicit false

/-!
# Stream logs

Lines of several streams in one log, each marked with the character of its stream.
-/

namespace Umbilical.Logs

open Python Lines

/-- `pat.sub(stream, lines)[:-1]`, where `pat` matches at the start and after every newline. -/
def annotate (stream : Char) (lines : Text) : Text :=
  (stream :: lines.flatMap fun char => if char = '\n' then ['\n', stream] else [char]).dropLast

/-- `_on_whole_lines` on what the log contains; nothing if the assertion in `addRawLines` fails. -/
def onWholeLines (stream : Char) (lines content : Text) : Option Text :=
  if (annotate stream lines).getLast? = some '\n' then some (content ++ annotate stream lines) else none

/-- The lines of one stream in what a log contains. -/
def linesOf (stream : Char) (content : Text) : List Text :=
  ((readLines '\n' content).filter (·.head? = some stream)).map List.tail

/-- Every line is marked with one of the streams and ended by a newline. -/
def Marked (streams : List Char) (content : Text) : Prop :=
  Whole '\n' content ∧ ∀ line ∈ readLines '\n' content, ∃ stream ∈ streams, line.head? = some stream

def EndedLine (line : Text) : Prop := ∃ body, '\n' ∉ body ∧ line = body ++ ['\n']

theorem readLines_ended {lines : List Text} (ended : ∀ line ∈ lines, EndedLine line) :
    readLines '\n' lines.flatten = lines := by
  induction lines with
  | nil => rfl
  | cons line lines ih =>
    obtain ⟨body, unbroken, rfl⟩ := ended line List.mem_cons_self
    rw [List.flatten_cons, List.append_assoc, List.singleton_append, readLines_append, readLines_line '\n' unbroken,
      ih fun other member => ended other (List.mem_cons_of_mem _ member)]
    rfl

theorem flatMap_unbroken (stream : Char) {text : Text} (unbroken : '\n' ∉ text) :
    (text.flatMap fun char => if char = '\n' then ['\n', stream] else [char]) = text := by
  induction text with
  | nil => rfl
  | cons char text ih =>
    rw [List.mem_cons, not_or] at unbroken
    rw [List.flatMap_cons, if_neg (Ne.symm unbroken.1), ih unbroken.2]
    rfl

theorem mark_ended (stream : Char) {lines : List Text} (ended : ∀ line ∈ lines, EndedLine line) :
    (stream :: lines.flatten.flatMap fun char => if char = '\n' then ['\n', stream] else [char]) =
      (lines.map (stream :: ·)).flatten ++ [stream] := by
  induction lines with
  | nil => rfl
  | cons line lines ih =>
    obtain ⟨body, unbroken, rfl⟩ := ended line List.mem_cons_self
    have later := ih fun other member => ended other (List.mem_cons_of_mem _ member)
    simp only [List.flatten_cons, List.flatMap_append, flatMap_unbroken stream unbroken, List.flatMap_cons, if_true,
      List.map_cons, List.append_assoc, List.cons_append, List.nil_append] at later ⊢
    rw [later]

/-- Whole lines are marked one by one. -/
theorem annotate_whole (stream : Char) {lines : Text} (whole : Whole '\n' lines) :
    annotate stream lines = ((readLines '\n' lines).map (stream :: ·)).flatten := by
  have marked := mark_ended stream fun line member => whole.ended member
  rw [readLines_flatten] at marked
  rw [annotate, marked, List.dropLast_concat]

theorem readLines_annotate {stream : Char} (other : stream ≠ '\n') {lines : Text} (whole : Whole '\n' lines) :
    readLines '\n' (annotate stream lines) = (readLines '\n' lines).map (stream :: ·) := by
  rw [annotate_whole stream whole]
  apply readLines_ended
  intro line member
  obtain ⟨inside, listed, rfl⟩ := List.mem_map.mp member
  obtain ⟨body, unbroken, rfl⟩ := whole.ended listed
  exact ⟨stream :: body, by simp [unbroken, Ne.symm other], rfl⟩

theorem annotate_concat (stream : Char) (body : Text) : annotate stream (body ++ ['\n']) =
    stream :: (body.flatMap fun char => if char = '\n' then ['\n', stream] else [char]) ++ ['\n'] := by
  unfold annotate
  rw [List.flatMap_append]
  have last : (['\n'].flatMap fun char => if char = '\n' then ['\n', stream] else [char]) = ['\n'] ++ [stream] := rfl
  rw [last, ← List.append_assoc, ← List.cons_append, ← List.cons_append, List.dropLast_concat]

theorem annotate_is_whole (stream : Char) {lines : Text} (whole : Whole '\n' lines) : Whole '\n' (annotate stream lines) := by
  rcases whole with rfl | ⟨body, rfl⟩
  · exact .inl rfl
  · exact .inr ⟨_, annotate_concat stream body⟩

theorem onWholeLines_whole (stream : Char) {lines : Text} (whole : Whole '\n' lines) (something : lines ≠ [])
    (content : Text) : onWholeLines stream lines content = some (content ++ annotate stream lines) := by
  obtain ⟨body, rfl⟩ := whole.resolve_left something
  refine if_pos ?_
  rw [annotate_concat]
  exact List.getLast?_concat

/-- Text without a last newline is not accepted. -/
theorem onWholeLines_open {stream : Char} (other : stream ≠ '\n') {lines : Text} (unended : lines.getLast? ≠ some '\n')
    (content : Text) : onWholeLines stream lines content = none := by
  refine if_neg fun ends => ?_
  rcases List.eq_nil_or_concat lines with rfl | ⟨body, last, rfl⟩
  · cases ends
  rw [List.concat_eq_append] at ends unended
  have different : last ≠ '\n' := fun same => unended (by rw [same]; exact List.getLast?_concat)
  rw [annotate, List.flatMap_append, List.flatMap_singleton, if_neg different, ← List.cons_append,
    List.dropLast_concat] at ends
  -- What comes before the last character ends with a character of a line or with the mark of the next.
  rcases List.eq_nil_or_concat body with rfl | ⟨body, last, rfl⟩
  · exact other (Option.some.inj ends)
  rw [List.concat_eq_append, List.flatMap_append, List.flatMap_singleton, ← List.cons_append] at ends
  split at ends
  · rw [List.getLast?_append_of_ne_nil _ (List.cons_ne_nil _ _)] at ends
    exact other (Option.some.inj ends)
  · rename_i different
    rw [List.getLast?_concat] at ends
    exact different (Option.some.inj ends)

theorem Marked.append {streams : List Char} {content : Text} (marked : Marked streams content) {stream : Char}
    (listed : stream ∈ streams) (other : stream ≠ '\n') {lines : Text} (whole : Whole '\n' lines) :
    Marked streams (content ++ annotate stream lines) := by
  refine ⟨marked.1.append (annotate_is_whole stream whole), fun line member => ?_⟩
  rw [readLines_whole marked.1, readLines_annotate other whole] at member
  rcases List.mem_append.mp member with before | new
  · exact marked.2 line before
  · obtain ⟨inside, _, rfl⟩ := List.mem_map.mp new
    exact ⟨stream, listed, rfl⟩

theorem linesOf_append {content : Text} (whole : Whole '\n' content) {stream : Char} (other : stream ≠ '\n')
    {lines : Text} (added : Whole '\n' lines) (mark : Char) : linesOf mark (content ++ annotate stream lines) =
      linesOf mark content ++ if mark = stream then readLines '\n' lines else [] := by
  unfold linesOf
  rw [readLines_whole whole, readLines_annotate other added, List.filter_append, List.map_append]
  congr 1
  by_cases same : mark = stream
  · rw [if_pos same, List.filter_eq_self.mpr, List.map_map]
    · exact List.map_id _
    · intro line member
      obtain ⟨inside, _, rfl⟩ := List.mem_map.mp member
      simp [same]
  · rw [if_neg same, List.filter_eq_nil_iff.mpr]
    · rfl
    · intro line member
      obtain ⟨inside, _, rfl⟩ := List.mem_map.mp member
      simp [Ne.symm same]

end Umbilical.Logs
