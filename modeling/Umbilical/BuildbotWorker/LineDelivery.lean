import Umbilical.BuildbotWorker.LineBoundaryFinder
import Umbilical.Logs.FirstLine
import Umbilical.Logs.Pieces

set_option autoImplicit false

/-!
# What comes of the output of a command

Each line that is returned is a line of the output, or as much of a line that is too long as fits, and its time is the
time at which its first character came.
-/

namespace Umbilical.BuildbotWorker

open Python Lines Logs

variable {τ : Type}

/-- Characters with the times of the appends that delivered them. -/
abbrev Stamped (τ : Type) := List (Char × τ)

def Stamped.text (input : Stamped τ) : Text := input.map Prod.fst

def stamp (text : Text) (time : τ) : Stamped τ := text.map (·, time)

/-- The returned lines and their times are the whole lines of what came in, normalized, but for a newline in each place
where a line that is too long was cut. -/
inductive Delivered (maxLineLength : Nat) : Stamped τ → List (Text × τ) → Prop
  | nothing : Delivered maxLineLength [] []
  | line {char : Char} {time : τ} {raw rest : Stamped τ} {body : Text} {returned : List (Text × τ)}
      (unbroken : '\n' ∉ body)
      (ends : normalize (Stamped.text ((char, time) :: raw ++ rest)) = body ++ '\n' :: normalize rest.text)
      (later : Delivered maxLineLength rest returned) :
      Delivered maxLineLength ((char, time) :: raw ++ rest) ((body ++ ['\n'], time) :: returned)
  | split {char : Char} {time : τ} {raw rest : Stamped τ} {line after : Text} {returned : List (Text × τ)}
      (unbroken : '\n' ∉ line) (tooLong : maxLineLength < (line ++ ['\n']).length)
      (goesOn : normalize (Stamped.text ((char, time) :: raw ++ rest)) = line ++ after)
      (cut : normalize (Stamped.text ((char, time) :: raw ++ rest)) =
        Stamped.text ((char, time) :: raw) ++ normalize rest.text)
      (inside : ((char, time) :: raw).length < line.length)
      (later : Delivered maxLineLength rest returned) :
      Delivered maxLineLength ((char, time) :: raw ++ rest) ((Stamped.text ((char, time) :: raw) ++ ['\n'], time) :: returned)

/-- None of the lines is too long. -/
structure LineInfo.Exact (maxLineLength : Nat) (info : LineInfo τ) : Prop extends info.WellFormed where
  short : ∀ line ∈ readLines '\n' info.text, line.length ≤ maxLineLength

namespace LineBoundaryFinder

/-- Nothing is lost at a call, by what follows: no run of backspaces is cut, no line that ends is too long, and if what
is kept is too long for one line, it is so of a line that had begun before, it is cut once, and where it is cut no
terminator begins or has begun. -/
structure Lossless (finder : LineBoundaryFinder τ) (text rest : Text) : Prop where
  apart : Apart (finder.partialLine ++ text) rest
  lines : ∀ line ∈ readLines '\n' (complete (finder.partialLine ++ text)), line.length ≤ finder.maxLineLength
  kept : finder.maxLineLength ≤ (unfinished (finder.partialLine ++ text)).length →
    finder.partialLine ≠ [] ∧ complete (finder.partialLine ++ text) = [] ∧
      (finder.partialLine ++ text).length + 1 < 2 * finder.maxLineLength ∧
      Unmatched finder.maxLineLength (finder.partialLine ++ text ++ rest ++ ['\n'])

def texts (calls : List (Text × τ)) : Text := (calls.map Prod.fst).flatten

/-- Every call of a run is lossless. -/
def Proper (finder : LineBoundaryFinder τ) (calls : List (Text × τ)) : Prop :=
  ∀ front text time back, calls = front ++ (text, time) :: back →
    ∀ after infos, finder.feed front = some (after, infos) → after.Lossless text (texts back)

end LineBoundaryFinder

@[simp] theorem text_append (left right : Stamped τ) : Stamped.text (left ++ right) = left.text ++ right.text :=
  List.map_append

@[simp] theorem stamp_text (text : Text) (time : τ) : (stamp text time).text = text := by
  simp [Stamped.text, stamp, Function.comp_def]

@[simp] theorem stamp_append (left right : Text) (time : τ) :
    stamp (left ++ right) time = stamp left time ++ stamp right time := List.map_append

theorem readLines_whole_cons {body : Text} (unbroken : '\n' ∉ body) (rest : Text) :
    readLines '\n' (body ++ '\n' :: rest) = (body ++ ['\n']) :: readLines '\n' rest := by
  rw [readLines_append, readLines_line '\n' unbroken]
  rfl

/-- The first line of a text, and the others. -/
theorem complete_of_normalize {text body rest : Text} (ends : normalize text = body ++ '\n' :: normalize rest) :
    complete text = body ++ '\n' :: complete rest ∧ unfinished text = unfinished rest := by
  have first : Whole '\n' (body ++ ['\n']) := .inr ⟨body, rfl⟩
  have same : normalize text = body ++ ['\n'] ++ normalize rest := by rw [ends]; simp
  obtain ⟨whole, last⟩ := wholeLines_append first (normalize rest)
  rw [complete, unfinished, same, whole, last]
  exact ⟨by simp [complete], rfl⟩

/-- The whole lines of what one append delivers, and the rest. -/
theorem Delivered.lines {maxLineLength : Nat} {time : τ} {rest : Stamped τ} {returned : List (Text × τ)} {text : Text}
    (apart : Apart text rest.text) (later : Delivered maxLineLength (stamp (unfinished text) time ++ rest) returned) :
    Delivered maxLineLength (stamp text time ++ rest)
      ((readLines '\n' (complete text)).map (·, time) ++ returned) := by
  induction length : text.length using Nat.strong_induction_on generalizing text with
  | _ n ih =>
    subst length
    by_cases broken : '\n' ∈ normalize text
    · obtain ⟨raw, body, left, rfl, some, unbroken, first, _⟩ := firstLine broken
      obtain ⟨char, raw, rfl⟩ := List.exists_cons_of_ne_nil some
      have ends := first [] fun _ => nofun
      rw [List.append_nil, List.append_nil] at ends
      obtain ⟨whole, last⟩ := complete_of_normalize ends
      rw [last] at later
      have shorter : left.length < (char :: raw ++ left).length := by
        rw [List.length_append, List.length_cons]
        omega
      have next := ih left.length shorter (apart.suffix (List.suffix_append _ _)) later rfl
      rw [whole, readLines_whole_cons unbroken, stamp_append, List.append_assoc]
      refine Delivered.line unbroken ?_ next
      have all := first rest.text apart
      simpa [Stamped.text, stamp, Function.comp_def] using all
    · rw [unfinished, lastPart_of_not_mem broken, normalize_of_not_mem broken] at later
      rw [complete, wholeLines_of_not_mem broken]
      exact later

/-- No character is lost, whatever is done with newlines. -/
theorem Delivered.characters {maxLineLength : Nat} {input : Stamped τ} {returned : List (Text × τ)}
    (delivered : Delivered maxLineLength input returned) :
    (returned.flatMap Prod.fst).filter (· ≠ '\n') = (normalize input.text).filter (· ≠ '\n') := by
  induction delivered with
  | nothing => rfl
  | line unbroken ends later ih =>
    rw [ends, List.flatMap_cons, List.filter_append, ih]
    simp
  | split unbroken tooLong goesOn cut inside later ih =>
    rw [cut, List.flatMap_cons, List.filter_append, ih]
    simp

theorem zip_replicate_length {α : Type} (items : List α) (time : τ) :
    items.zip (List.replicate items.length time) = items.map (·, time) := by
  induction items with
  | nil => rfl
  | cons item items ih => rw [List.length_cons, List.replicate_succ, List.zip_cons_cons, ih, List.map_cons]

namespace LineBoundaryFinder

variable {finder : LineBoundaryFinder τ} {text : Text} {time : τ}

/-- What the finder returns of lines that are short enough. -/
theorem append_of_short
    (lines : ∀ line ∈ readLines '\n' (complete (finder.partialLine ++ text)), line.length ≤ finder.maxLineLength)
    (rest : (unfinished (finder.partialLine ++ text)).length < finder.maxLineLength) :
    finder.append text time =
      (finder.lineTimes (readLines '\n' (complete (finder.partialLine ++ text))).length time).map fun lineTimes =>
        ({ finder with
          partialLine := unfinished (finder.partialLine ++ text)
          time := if complete (finder.partialLine ++ text) ≠ [] ∨ finder.partialLine = [] then some time else finder.time },
          if complete (finder.partialLine ++ text) = [] then none
          else some ⟨complete (finder.partialLine ++ text), getLfPositions (complete (finder.partialLine ++ text)),
            lineTimes⟩) := by
  have kept : slice (normalize (finder.partialLine ++ text)) (complete (finder.partialLine ++ text)).length
      (normalize (finder.partialLine ++ text)).length = unfinished (finder.partialLine ++ text) := by
    rw [slice, List.take_length, ← complete_append_unfinished, List.drop_left]
  unfold append
  dsimp only
  rw [cutLines_short lines rest]
  simp only [Cut.taken, Cut.start, List.nil_append, readLines_flatten, Nat.zero_add]
  rw [← complete, kept]
  rfl

/-- What the finder returns of a line that it cuts. -/
theorem append_of_split (broken : complete (finder.partialLine ++ text) = [])
    (long : finder.maxLineLength ≤ (finder.partialLine ++ text).length)
    (once : (finder.partialLine ++ text).length + 1 < 2 * finder.maxLineLength) :
    finder.append text time = (finder.lineTimes 0 time).map fun lineTimes =>
      ({ finder with
        partialLine := (finder.partialLine ++ text).drop (finder.maxLineLength - 1)
        time := some time },
        some ⟨(finder.partialLine ++ text).take (finder.maxLineLength - 1) ++ ['\n'], [finder.maxLineLength - 1],
          lineTimes⟩) := by
  have unbroken : '\n' ∉ normalize (finder.partialLine ++ text) := wholeLines_eq_nil.mp broken
  have same := normalize_of_not_mem unbroken
  have ends := finder.ends
  have taken : ((finder.partialLine ++ text).take (finder.maxLineLength - 1)).length = finder.maxLineLength - 1 :=
    List.length_take_of_le (by omega)
  rw [same] at unbroken
  unfold append
  dsimp only
  rw [same, cutLines_split ends unbroken long once]
  generalize finder.partialLine ++ text = whole at taken
  simp [Cut.start, Cut.push, slice, taken]

/-- What the finder keeps, with the times at which it came. -/
structure Keeps (finder : LineBoundaryFinder τ) (kept : Stamped τ) : Prop where
  text : kept.text = finder.partialLine
  time : ∀ first ∈ kept.head?, finder.time = some first.2
  short : finder.partialLine.length < finder.maxLineLength
  unbroken : '\n' ∉ normalize finder.partialLine

theorem new_keeps {maxLineLength : Nat} (ends : 2 ≤ maxLineLength) : (new maxLineLength ends : LineBoundaryFinder τ).Keeps [] where
  text := rfl
  time := nofun
  short := by
    change 0 < maxLineLength
    omega
  unbroken := List.not_mem_nil

/-- Calls that return what was delivered, and keep the rest. -/
structure Returns (finder : LineBoundaryFinder τ) (kept came : Stamped τ) (rest : Text) (after : LineBoundaryFinder τ)
    (infos : List (LineInfo τ)) (left : Stamped τ) : Prop where
  keeps : after.Keeps left
  same : after.maxLineLength = finder.maxLineLength
  exact : ∀ info ∈ infos, info.Exact finder.maxLineLength
  delivered : ∀ more returned, more.text = rest ∨ more.text = rest ++ ['\n'] →
    Delivered finder.maxLineLength (left ++ more) returned →
      Delivered finder.maxLineLength (kept ++ came ++ more) (infos.flatMap LineInfo.timedLines ++ returned)
  open_ : unfinished (left.text ++ rest) = [] ↔ unfinished (kept.text ++ came.text ++ rest) = []

variable {kept : Stamped τ} {rest : Text}

/-- The whole lines come out, with the times of their first characters. -/
theorem Keeps.returns_short (keeps : finder.Keeps kept) (apart : Apart (finder.partialLine ++ text) rest)
    (lines : ∀ line ∈ readLines '\n' (complete (finder.partialLine ++ text)), line.length ≤ finder.maxLineLength)
    (short : (unfinished (finder.partialLine ++ text)).length < finder.maxLineLength) :
    ∃ after info left, finder.append text time = some (after, info) ∧
      finder.Returns kept (stamp text time) rest after info.toList left := by
  have open_ (left : Stamped τ) (same : left.text = unfinished (finder.partialLine ++ text)) :
      unfinished (left.text ++ rest) = [] ↔ unfinished (kept.text ++ (stamp text time).text ++ rest) = [] := by
    rw [same, stamp_text, keeps.text, (complete_append apart).2]
  have follows {more : Stamped τ} (comes : more.text = rest ∨ more.text = rest ++ ['\n']) :
      Apart (finder.partialLine ++ text) more.text := by
    rcases comes with same | same
    · rwa [same]
    · rw [same]
      exact apart_newline _ _ apart
  have unbroken : '\n' ∉ normalize (unfinished (finder.partialLine ++ text)) := by
    rw [normalize_unfinished]
    exact not_mem_unfinished _
  rw [append_of_short lines short]
  cases kept with
  | nil =>
    -- Everything came with this call.
    have empty : finder.partialLine = [] := keeps.text.symm
    simp only [lineTimes, empty, List.nil_append, if_true, Option.map_some, or_true] at *
    refine ⟨_, _, stamp (unfinished text) time, rfl, ⟨stamp_text _ _, ?_, short, unbroken⟩, rfl, ?_, ?_,
      open_ _ (stamp_text _ _)⟩
    · intro first member
      cases started : unfinished text with
      | nil =>
        rw [started] at member
        cases member
      | cons char left =>
        rw [started] at member
        cases member
        rfl
    · intro info member
      split at member
      · cases member
      · rw [List.mem_singleton.mp member]
        exact ⟨⟨complete_whole text, rfl, List.length_replicate⟩, lines⟩
    · intro more returned comes later
      have all := Delivered.lines (follows comes) later
      split
      · rename_i nothing
        rw [nothing] at all
        exact all
      · simpa [LineInfo.timedLines, zip_replicate_length] using all
  | cons first kept =>
    obtain ⟨char, began⟩ := first
    have since : finder.time = some began := keeps.time (char, began) rfl
    have something : finder.partialLine ≠ [] := by
      rw [← keeps.text]
      exact List.cons_ne_nil _ _
    simp only [lineTimes, something, if_false, since, Option.map_some, or_false] at *
    by_cases broken : '\n' ∈ normalize (finder.partialLine ++ text)
    · obtain ⟨raw, body, left, same, _, free, ends, covers⟩ := firstLine broken
      -- What was kept is all in the first line.
      have within := covers finder.partialLine (List.prefix_append _ _) keeps.unbroken
      obtain ⟨came, rfl⟩ : finder.partialLine <+: raw :=
        List.prefix_of_prefix_length_le (List.prefix_append _ text) (by rw [same]; exact List.prefix_append _ _) within
      obtain rfl : text = came ++ left := by simpa using same
      have first := ends [] (by simp [Apart])
      rw [List.append_nil, List.append_nil] at first
      obtain ⟨whole, last⟩ := complete_of_normalize first
      have some : complete (finder.partialLine ++ (came ++ left)) ≠ [] := by
        rw [whole]
        exact List.append_ne_nil_of_right_ne_nil _ (List.cons_ne_nil _ _)
      have read := readLines_whole_cons free (complete left)
      rw [← whole] at read
      simp only [some, ne_eq, not_false_eq_true, if_true, if_false]
      refine ⟨_, _, stamp (unfinished left) time, rfl, ⟨(stamp_text _ _).trans last.symm, ?_, short, unbroken⟩, rfl, ?_, ?_,
        open_ _ ((stamp_text _ _).trans last.symm)⟩
      · intro first member
        cases started : unfinished left with
        | nil =>
          rw [started] at member
          cases member
        | cons char left =>
          rw [started] at member
          cases member
          rfl
      · intro info member
        rw [List.mem_singleton.mp member]
        refine ⟨⟨complete_whole _, rfl, ?_⟩, lines⟩
        simp [read]
      · intro more returned comes later
        have next := Delivered.lines ((follows comes).suffix (by
          rw [← List.append_assoc]
          exact List.suffix_append _ left)) later
        have all := @Delivered.line _ finder.maxLineLength char began (kept ++ stamp came time)
          (stamp left time ++ more) body _ free (by
            have ends := ends more.text (follows comes)
            simpa [← keeps.text, Stamped.text, stamp, Function.comp_def] using ends) next
        simpa [LineInfo.timedLines, read, zip_replicate_length] using all
    · have nothing : complete (finder.partialLine ++ text) = [] := wholeLines_of_not_mem broken
      have all : unfinished (finder.partialLine ++ text) = finder.partialLine ++ text := by
        rw [unfinished, lastPart_of_not_mem broken, normalize_of_not_mem broken]
      have same : Stamped.text ((char, began) :: kept ++ stamp text time) = finder.partialLine ++ text := by
        rw [text_append, stamp_text, keeps.text]
      simp only [nothing, ne_eq, not_true_eq_false, if_true, if_false]
      refine ⟨_, _, (char, began) :: kept ++ stamp text time, rfl, ⟨same.trans all.symm, ?_, short, unbroken⟩, rfl, (by simp),
        fun _ _ _ later => later, open_ _ (same.trans all.symm)⟩
      rintro first ⟨⟩
      rfl

/-- A line that is too long comes out as far as it fits. -/
theorem Keeps.returns_split (keeps : finder.Keeps kept) (began : finder.partialLine ≠ [])
    (broken : complete (finder.partialLine ++ text) = [])
    (long : finder.maxLineLength ≤ (finder.partialLine ++ text).length)
    (once : (finder.partialLine ++ text).length + 1 < 2 * finder.maxLineLength)
    (unmatched : Unmatched finder.maxLineLength (finder.partialLine ++ text ++ rest ++ ['\n'])) :
    ∃ after info left, finder.append text time = some (after, info) ∧
      finder.Returns kept (stamp text time) rest after info.toList left := by
  obtain ⟨⟨char, since⟩, kept, rfl⟩ : ∃ first others, kept = first :: others := by
    refine List.exists_cons_of_ne_nil ?_
    rintro rfl
    exact began keeps.text.symm
  have ends := finder.ends
  have short := keeps.short
  have unbroken : '\n' ∉ normalize (finder.partialLine ++ text) := wholeLines_eq_nil.mp broken
  have plain : '\n' ∉ finder.partialLine ++ text := by rwa [← normalize_of_not_mem unbroken]
  -- The cut is within the text of the call.
  obtain ⟨front, back, rfl, here⟩ : ∃ front back, text = front ++ back ∧
      (finder.partialLine ++ front).length = finder.maxLineLength - 1 := by
    refine ⟨text.take (finder.maxLineLength - 1 - finder.partialLine.length),
      text.drop (finder.maxLineLength - 1 - finder.partialLine.length), (List.take_append_drop ..).symm, ?_⟩
    rw [List.length_append] at long ⊢
    rw [List.length_take]
    omega
  rw [← List.append_assoc] at *
  have some : back ≠ [] := by
    rintro rfl
    rw [List.append_nil] at long
    omega
  have taken : (finder.partialLine ++ front ++ back).take (finder.maxLineLength - 1) = finder.partialLine ++ front :=
    List.take_left' here
  have dropped : (finder.partialLine ++ front ++ back).drop (finder.maxLineLength - 1) = back := List.drop_left' here
  have free : '\n' ∉ finder.partialLine ++ front := fun member => plain (List.mem_append_left _ member)
  have follows {more : Stamped τ} (comes : more.text = rest ∨ more.text = rest ++ ['\n']) :
      Unmatched finder.maxLineLength (finder.partialLine ++ front ++ back ++ more.text) := by
    rcases comes with same | same
    · rw [same]
      exact unmatched.of_newline
    · rwa [same, ← List.append_assoc]
  -- What comes before the cut stays as it is.
  have apart {more : Text} (unmatched : Unmatched finder.maxLineLength (finder.partialLine ++ front ++ back ++ more)) :
      normalize (finder.partialLine ++ front ++ back ++ more) = finder.partialLine ++ front ++ normalize (back ++ more) := by
    have cut := (unmatched.mono (Nat.sub_le _ 1)).normalize_eq
    rwa [List.append_assoc (finder.partialLine ++ front), List.take_left' here, List.drop_left' here,
      ← List.append_assoc] at cut
  have splits := @append_of_split _ finder (front ++ back) time
  rw [← List.append_assoc] at splits
  rw [splits broken long once]
  simp only [lineTimes, began, if_false, keeps.time (char, since) rfl, Option.map_some, taken, dropped]
  refine ⟨_, _, stamp back time, rfl, ⟨stamp_text _ _, ?_, ?_, ?_⟩, rfl, ?_, ?_, ?_⟩
  · intro first member
    cases back with
    | nil => cases member
    | cons => cases member; rfl
  · rw [List.length_append, here] at once
    change back.length < finder.maxLineLength
    omega
  · exact normalize_of_suffix unbroken (List.suffix_append _ _)
  · intro info member
    rw [List.mem_singleton.mp member]
    refine ⟨⟨.inr ⟨_, rfl⟩, ?_, ?_⟩, ?_⟩
    · rw [getLfPositions, lfPositionsFrom_line free, here, Nat.zero_add]
      rfl
    · rw [readLines_line '\n' free]
      rfl
    · intro line member
      rw [readLines_line '\n' free, List.mem_singleton] at member
      rw [member, List.length_append, here, List.length_singleton]
      omega
  · intro more returned comes later
    have cut := apart (follows comes)
    have whole := (follows comes).normalize_eq
    rw [List.take_append_of_le_length long] at whole
    have same : Stamped.text ((char, since) :: (kept ++ stamp front time)) = finder.partialLine ++ front := by
      rw [← List.cons_append, text_append, stamp_text, keeps.text]
    have all : Stamped.text ((char, since) :: (kept ++ stamp front time) ++ (stamp back time ++ more)) =
        finder.partialLine ++ front ++ back ++ more.text := by
      rw [text_append, same, text_append, stamp_text, List.append_assoc _ back]
    have length : ((char, since) :: (kept ++ stamp front time)).length = finder.maxLineLength - 1 := by
      rw [← here, ← same, Stamped.text, List.length_map]
    have taken : ((finder.partialLine ++ front ++ back).take finder.maxLineLength).length = finder.maxLineLength :=
      List.length_take_of_le long
    have split := @Delivered.split _ finder.maxLineLength char since (kept ++ stamp front time) (stamp back time ++ more)
      ((finder.partialLine ++ front ++ back).take finder.maxLineLength) _ returned
      (fun member => plain (List.mem_of_mem_take member)) (by rw [List.length_append, taken]; exact Nat.lt_succ_self _)
      (by rw [all]; exact whole) (by rw [all, same, text_append, stamp_text]; exact cut) (by rw [length, taken]; omega) later
    have read : readLines '\n' (finder.partialLine ++ (front ++ ['\n'])) = [finder.partialLine ++ (front ++ ['\n'])] := by
      rw [← List.append_assoc]
      exact readLines_line '\n' free
    rw [same] at split
    simpa [LineInfo.timedLines, read] using split
  · have whole := apart unmatched.of_newline
    have something : normalize (back ++ rest) ≠ [] := normalize_ne_nil (List.append_ne_nil_of_left_ne_nil some _)
    have text : Stamped.text ((char, since) :: kept) ++ (stamp (front ++ back) time).text ++ rest =
        finder.partialLine ++ front ++ back ++ rest := by
      rw [stamp_text, keeps.text, ← List.append_assoc]
    rw [text, stamp_text, unfinished_eq_nil, unfinished_eq_nil, whole]
    constructor
    · intro last
      obtain ⟨body, same⟩ := last.resolve_left something
      exact .inr ⟨finder.partialLine ++ front ++ body, by rw [same]; simp⟩
    · exact Whole.right

theorem Keeps.append (keeps : finder.Keeps kept) (lossless : finder.Lossless text rest) :
    ∃ after info left, finder.append text time = some (after, info) ∧
      finder.Returns kept (stamp text time) rest after info.toList left := by
  by_cases short : (unfinished (finder.partialLine ++ text)).length < finder.maxLineLength
  · exact keeps.returns_short lossless.apart lossless.lines short
  · obtain ⟨began, broken, once, unmatched⟩ := lossless.kept (Nat.not_lt.mp short)
    have whole := complete_append_unfinished (finder.partialLine ++ text)
    rw [broken, List.nil_append, normalize_of_not_mem (wholeLines_eq_nil.mp broken)] at whole
    rw [whole] at short
    exact keeps.returns_split began broken (Nat.not_lt.mp short) once unmatched

theorem Returns.trans {middle after : LineBoundaryFinder τ} {came more : Stamped τ} {infos others : List (LineInfo τ)}
    {between left : Stamped τ} (first : finder.Returns kept came (more.text ++ rest) middle infos between)
    (second : middle.Returns between more rest after others left) :
    finder.Returns kept (came ++ more) rest after (infos ++ others) left where
  keeps := second.keeps
  same := second.same.trans first.same
  exact := by
    intro info member
    rcases List.mem_append.mp member with before | later
    · exact first.exact info before
    · rw [← first.same]
      exact second.exact info later
  delivered := by
    intro last returned comes later
    have rest := second.delivered last returned comes (by rwa [first.same])
    rw [first.same, List.append_assoc] at rest
    have all := first.delivered (more ++ last) _ (by
      rw [text_append]
      exact comes.imp (by rintro rfl; rfl) (by intro same; rw [same, List.append_assoc])) rest
    simpa using all
  open_ := by
    have once := first.open_
    rw [second.open_]
    simp only [text_append, List.append_assoc] at once ⊢
    exact once

/-- What calls deliver, each at its time. -/
def came (calls : List (Text × τ)) : Stamped τ := calls.flatMap fun call => stamp call.1 call.2

theorem came_text (calls : List (Text × τ)) : (came calls).text = texts calls := by
  induction calls with
  | nil => rfl
  | cons call calls ih =>
    rw [came, List.flatMap_cons, text_append, stamp_text, ← came, ih]
    rfl

/-- Calls that lose nothing, by what follows them. -/
theorem Keeps.feed {calls : List (Text × τ)} (keeps : finder.Keeps kept)
    (proper : ∀ front text time back, calls = front ++ (text, time) :: back →
      ∀ after infos, finder.feed front = some (after, infos) → after.Lossless text (texts back ++ rest)) :
    ∃ after infos left, finder.feed calls = some (after, infos) ∧ finder.Returns kept (came calls) rest after infos left := by
  induction calls generalizing finder kept with
  | nil =>
    refine ⟨finder, [], kept, rfl, keeps, rfl, nofun, fun more returned _ later => ?_, ?_⟩
    · simpa [came] using later
    · simp [came, Stamped.text]
  | cons call calls ih =>
    obtain ⟨text, time⟩ := call
    obtain ⟨middle, info, between, appended, first⟩ :=
      @Keeps.append _ _ _ time _ _ keeps (proper [] text time calls rfl finder [] rfl)
    obtain ⟨after, infos, left, fed, second⟩ := ih first.keeps fun front text time back same last infos ran => by
      refine proper ((_, _) :: front) text time back (congrArg _ same) last (info.toList ++ infos) ?_
      simp [LineBoundaryFinder.feed, appended, ran]
    refine ⟨after, info.toList ++ infos, left, by simp [LineBoundaryFinder.feed, appended, fed], ?_⟩
    rw [← came_text] at first
    exact first.trans second

/-- The newline of `flush` ends what is kept. -/
theorem Keeps.lossless_newline (keeps : finder.Keeps kept) : finder.Lossless ['\n'] [] where
  apart _ := nofun
  lines := by
    obtain ⟨body, free, ends⟩ := normalize_newline keeps.unbroken
    have length := normalize_append_le finder.partialLine ['\n']
    have alone : (normalize ['\n']).length = 1 := rfl
    have short := keeps.short
    rw [complete, ends, (wholeLines_of_whole (.inr ⟨body, rfl⟩)).1, readLines_line '\n' free]
    intro line member
    rw [List.mem_singleton.mp member, ← ends]
    omega
  kept long := by
    obtain ⟨body, _, ends⟩ := normalize_newline keeps.unbroken
    have nothing : unfinished (finder.partialLine ++ ['\n']) = [] := unfinished_eq_nil.mpr (.inr ⟨body, ends⟩)
    have ends := finder.ends
    rw [nothing, List.length_nil] at long
    omega

/-- What a run returns, where no call loses anything. -/
theorem Keeps.run {calls : List (Text × τ)} (keeps : finder.Keeps kept) (proper : finder.Proper calls) :
    ∃ after infos closing, finder.run calls = some (after, infos) ∧ after.partialLine = [] ∧
      closing.text = (if unfinished (kept.text ++ texts calls) = [] then [] else ['\n']) ∧
      Delivered finder.maxLineLength (kept ++ came calls ++ closing) (infos.flatMap LineInfo.timedLines) ∧
      ∀ info ∈ infos, info.Exact finder.maxLineLength := by
  obtain ⟨after, infos, left, fed, returns⟩ := @Keeps.feed _ _ _ [] _ keeps fun front text time back same last infos ran => by
    rw [List.append_nil]
    exact proper front text time back same last infos ran
  have still := returns.open_
  rw [came_text, List.append_nil, List.append_nil] at still
  cases left with
  | nil =>
    have empty : after.partialLine = [] := returns.keeps.text.symm
    refine ⟨after, infos, [], ?_, empty, ?_, ?_, returns.exact⟩
    · simp [LineBoundaryFinder.run, fed, LineBoundaryFinder.flush, empty]
    · rw [if_pos (still.mp rfl)]
      rfl
    · simpa using returns.delivered [] [] (.inl rfl) .nothing
  | cons first left =>
    obtain ⟨char, time⟩ := first
    have something : after.partialLine ≠ [] := by
      rw [← returns.keeps.text]
      exact List.cons_ne_nil _ _
    obtain ⟨last, info, rest, flushed, ends⟩ :=
      @Keeps.append _ _ _ time _ _ returns.keeps returns.keeps.lossless_newline
    have unfinished_ : unfinished (Stamped.text ((char, time) :: left)) ≠ [] := by
      rw [returns.keeps.text, unfinished, lastPart_of_not_mem returns.keeps.unbroken,
        normalize_of_not_mem returns.keeps.unbroken]
      exact something
    -- Nothing is kept after a newline.
    have nothing : rest = [] := by
      have closed := ends.open_
      obtain ⟨body, _, same⟩ := normalize_newline returns.keeps.unbroken
      rw [List.append_nil, List.append_nil, returns.keeps.text, stamp_text, unfinished_eq_nil.mpr (.inr ⟨body, same⟩)] at closed
      have empty := closed.mpr rfl
      rw [ends.keeps.text, unfinished, lastPart_of_not_mem ends.keeps.unbroken,
        normalize_of_not_mem ends.keeps.unbroken, ← ends.keeps.text] at empty
      exact List.map_eq_nil_iff.mp empty
    subst nothing
    refine ⟨last, infos ++ info.toList, stamp ['\n'] time, ?_, ends.keeps.text.symm, ?_, ?_, ?_⟩
    · simp [LineBoundaryFinder.run, fed, LineBoundaryFinder.flush, something, returns.keeps.time (char, time) rfl, flushed]
    · rw [if_neg fun closed => unfinished_ (still.mpr closed), stamp_text]
    · have returned := ends.delivered [] [] (.inl rfl) .nothing
      rw [List.append_nil, List.append_nil, returns.same] at returned
      have all := returns.delivered (stamp ['\n'] time) _ (.inr (stamp_text _ _)) returned
      rwa [List.flatMap_append]
    · intro shown member
      rcases List.mem_append.mp member with before | later
      · exact returns.exact shown before
      · rw [← returns.same]
        exact ends.exact shown later

theorem texts_append (front back : List (Text × τ)) : texts (front ++ back) = texts front ++ texts back := by
  simp [texts]

theorem new_short {maxLineLength : Nat} (ends : 2 ≤ maxLineLength) {front back : List (Text × τ)}
    (proper : (new maxLineLength ends).Proper (front ++ back)) :
    ∃ after infos, (new maxLineLength ends).feed front = some (after, infos) ∧ after.partialLine.length < maxLineLength := by
  obtain ⟨after, infos, left, fed, returns⟩ := @Keeps.feed _ _ _ (texts back) front (new_keeps ends)
    fun before text time between same last infos ran => by
      rw [← texts_append]
      refine proper before text time (between ++ back) ?_ last infos ran
      rw [same, List.append_assoc, List.cons_append]
  refine ⟨after, infos, fed, ?_⟩
  have short := returns.keeps.short
  rwa [returns.same] at short

/-- Nothing is lost in a run none of whose calls loses anything. -/
theorem run_delivers {maxLineLength : Nat} (ends : 2 ≤ maxLineLength) (calls : List (Text × τ))
    (proper : (new maxLineLength ends).Proper calls) :
    (∃ after infos closing, (new maxLineLength ends).run calls = some (after, infos) ∧ after.partialLine = [] ∧
      closing.text = (if unfinished (texts calls) = [] then [] else ['\n']) ∧
      Delivered maxLineLength (came calls ++ closing) (infos.flatMap LineInfo.timedLines) ∧
      ∀ info ∈ infos, info.Exact maxLineLength) ∧
    ∀ front back, calls = front ++ back → ∃ after infos, (new maxLineLength ends).feed front = some (after, infos) ∧
      after.partialLine.length < maxLineLength := by
  refine ⟨(new_keeps ends).run proper, ?_⟩
  rintro front back rfl
  exact new_short ends proper

/-- A character is lost where a line that ends is cut. -/
theorem longLine_loses : ∃ after infos, (new 4 (by decide)).run [("abcdef\n".toList, 1)] = some (after, infos) ∧
    infos = [⟨"abc\nef\n".toList, [3, 6], [1, 1]⟩] ∧
    ¬ Delivered 4 (came [("abcdef\n".toList, 1)]) (infos.flatMap LineInfo.timedLines) := by
  refine ⟨_, _, rfl, by decide, fun delivered => ?_⟩
  have characters := delivered.characters
  revert characters
  decide

theorem proper_cons {text : Text} {time : τ} {calls : List (Text × τ)} (lossless : finder.Lossless text (texts calls))
    (later : ∀ after info, finder.append text time = some (after, info) → after.Proper calls) :
    finder.Proper ((text, time) :: calls) := by
  intro front other since back same after infos ran
  cases front with
  | nil =>
    cases same
    cases ran
    exact lossless
  | cons call front =>
    obtain ⟨rfl, rest⟩ := List.cons.inj same
    cases appended : finder.append text time with
    | none => simp [LineBoundaryFinder.feed, appended] at ran
    | some result =>
      obtain ⟨next, info⟩ := result
      cases fed : next.feed front with
      | none => simp [LineBoundaryFinder.feed, appended, fed] at ran
      | some result =>
        obtain ⟨last, infos⟩ := result
        simp only [LineBoundaryFinder.feed, appended, fed, Option.bind_eq_bind, Option.bind_some, Option.pure_def,
          Option.some.injEq, Prod.mk.injEq] at ran
        rw [← ran.1]
        exact later next info appended front other since back rest last infos fed

theorem unmatched_inert {count : Nat} {text : Text} (inert : ∀ char ∈ text, Inert char) : Unmatched count text := by
  rintro front (_ | ⟨char, back⟩) rfl _
  · rfl
  · exact terminator_inert (inert char (by simp)) back

theorem cutOnce_delivers : (∃ after infos closing,
    (new 4 (by decide)).run [("abc".toList, 1), ("d".toList, 2)] = some (after, infos) ∧ after.partialLine = [] ∧
      closing.text = (if unfinished (texts [("abc".toList, 1), ("d".toList, 2)]) = [] then [] else ['\n']) ∧
      Delivered 4 (came [("abc".toList, 1), ("d".toList, 2)] ++ closing) (infos.flatMap LineInfo.timedLines) ∧
      ∀ info ∈ infos, info.Exact 4) := by
  refine (run_delivers (by decide) [("abc".toList, 1), ("d".toList, 2)] ?_).1
  refine proper_cons ⟨nofun, by decide, nofun⟩ fun after info appended => ?_
  have kept : (new 4 (by decide)).append "abc".toList 1 = some (⟨4, by decide, "abc".toList, some 1⟩, none) := rfl
  cases kept.symm.trans appended
  refine proper_cons ⟨nofun, by decide, fun _ => ⟨by decide, by decide, by decide, ?_⟩⟩ fun after info appended => ?_
  · apply unmatched_inert
    simp [texts, Inert]
  · intro front text time back same
    simp at same

end LineBoundaryFinder

end Umbilical.BuildbotWorker
