import Umbilical.Logs.LineBoundaries

set_option autoImplicit false

/-!
# Whole lines, on the worker

The worker cuts its output into lines itself, and sends with them where they end and when they began.
-/

namespace Umbilical.BuildbotWorker

open Python Lines Logs

variable {τ : Type}

structure LineInfo (τ : Type) where
  text : Text
  lfPositions : List Nat
  lineTimes : List τ
  deriving DecidableEq

/-- With a `max_line_length` of less than two, its loops need not end. -/
structure LineBoundaryFinder (τ : Type) where
  maxLineLength : Nat
  ends : 2 ≤ maxLineLength
  partialLine : Text
  time : Option τ

/-- The positions at which `text.find('\n', position)` stops one after the other. -/
def lfPositionsFrom : Nat → Text → List Nat
  | _, [] => []
  | position, char :: text =>
    if char = '\n' then position :: lfPositionsFrom (position + 1) text else lfPositionsFrom (position + 1) text

def getLfPositions (text : Text) : List Nat := lfPositionsFrom 0 text

/-- `text[first:last]` -/
def slice (text : Text) (first last : Nat) : Text := (text.take last).drop first

/-- What the loops of `append` collect. `retTextLength` is one more than in the source, where it starts at -1. -/
structure Cut where
  retLines : List Text
  retIndexes : List Nat
  retTextLength : Nat
  retLineCount : Nat
  firstPosition : Nat
  deriving DecidableEq

namespace Cut

def start : Cut where
  retLines := []
  retIndexes := []
  retTextLength := 0
  retLineCount := 0
  firstPosition := 0

def push (cut : Cut) (line : Text) : Cut :=
  { cut with
    retLines := cut.retLines ++ [line]
    retIndexes := cut.retIndexes ++ [cut.retTextLength + line.length - 1]
    retTextLength := cut.retTextLength + line.length }

/-- The inner loop for a line that ends at `position`; its rounds are no more than the characters of the text. -/
def splitLine (maxLineLength : Nat) (text : Text) (position : Nat) : Nat → Cut → Cut
  | 0, cut => cut
  | rounds + 1, cut =>
    if maxLineLength ≤ position - cut.firstPosition then
      -- The slice starts at `first_position` but ends where the first one does.
      let pushed := cut.push (slice text cut.firstPosition (maxLineLength - 1) ++ ['\n'])
      splitLine maxLineLength text position rounds
        { pushed with
          retLineCount := cut.retLineCount + 1
          firstPosition := cut.firstPosition + maxLineLength }
    else cut

def takeLine (maxLineLength : Nat) (text : Text) (cut : Cut) (position : Nat) : Cut :=
  let split := splitLine maxLineLength text position (text.length + 1) cut
  { split.push (slice text split.firstPosition (position + 1)) with
    retLineCount := split.retLineCount + 1
    firstPosition := position + 1 }

/-- The loop for what comes after the last newline. It does not count its lines. -/
def splitRest (maxLineLength : Nat) (text : Text) : Nat → Cut → Cut
  | 0, cut => cut
  | rounds + 1, cut =>
    if maxLineLength ≤ text.length - cut.firstPosition then
      splitRest maxLineLength text rounds
        { cut.push (slice text cut.firstPosition (maxLineLength - 1) ++ ['\n']) with
          firstPosition := cut.firstPosition + maxLineLength - 1 }
    else cut

end Cut

def cutLines (maxLineLength : Nat) (text : Text) : Cut :=
  Cut.splitRest maxLineLength text (text.length + 1)
    ((getLfPositions text).foldl (Cut.takeLine maxLineLength text) Cut.start)

namespace LineBoundaryFinder

variable (finder : LineBoundaryFinder τ)

def new (maxLineLength : Nat) (ends : 2 ≤ maxLineLength) : LineBoundaryFinder τ where
  maxLineLength := maxLineLength
  ends := ends
  partialLine := []
  time := none

/-- Nothing where the assertion that there is a time with a partial line fails. -/
def lineTimes (retLineCount : Nat) (time : τ) : Option (List τ) :=
  if finder.partialLine = [] then some (List.replicate retLineCount time)
  else finder.time.map fun timePartialLine => timePartialLine :: List.replicate (retLineCount - 1) time

def append (text : Text) (time : τ) : Option (LineBoundaryFinder τ × Option (LineInfo τ)) :=
  let text := normalize (finder.partialLine ++ text)
  let cut := cutLines finder.maxLineLength text
  let retText := cut.retLines.flatten
  let after := { finder with
    partialLine := slice text cut.firstPosition text.length
    time := if retText ≠ [] ∨ finder.partialLine = [] then some time else finder.time }
  (finder.lineTimes cut.retLineCount time).map fun lineTimes =>
    (after, if retText = [] then none else some ⟨retText, cut.retIndexes, lineTimes⟩)

def flush : Option (LineBoundaryFinder τ × Option (LineInfo τ)) :=
  if finder.partialLine = [] then some (finder, none)
  else finder.time.bind fun time => finder.append ['\n'] time

/-- What the calls return, one after the other. -/
def feed : LineBoundaryFinder τ → List (Text × τ) → Option (LineBoundaryFinder τ × List (LineInfo τ))
  | finder, [] => some (finder, [])
  | finder, (text, time) :: calls => do
    let (finder, info) ← finder.append text time
    let (finder, infos) ← feed finder calls
    return (finder, info.toList ++ infos)

def run (calls : List (Text × τ)) : Option (LineBoundaryFinder τ × List (LineInfo τ)) := do
  let (finder, infos) ← finder.feed calls
  let (finder, last) ← finder.flush
  return (finder, infos ++ last.toList)

end LineBoundaryFinder

theorem lfPositionsFrom_unbroken {text : Text} (unbroken : '\n' ∉ text) (position : Nat) :
    lfPositionsFrom position text = [] := by
  induction text generalizing position with
  | nil => rfl
  | cons char text ih =>
    rw [List.mem_cons, not_or] at unbroken
    rw [lfPositionsFrom, if_neg (Ne.symm unbroken.1), ih unbroken.2]

theorem lfPositionsFrom_line {body : Text} (unbroken : '\n' ∉ body) (position : Nat) (rest : Text) :
    lfPositionsFrom position (body ++ '\n' :: rest) =
      (position + body.length) :: lfPositionsFrom (position + body.length + 1) rest := by
  induction body generalizing position with
  | nil => exact if_pos rfl
  | cons char body ih =>
    rw [List.mem_cons, not_or] at unbroken
    rw [List.cons_append, lfPositionsFrom, if_neg (Ne.symm unbroken.1), ih unbroken.2, List.length_cons,
      Nat.add_right_comm, Nat.add_assoc position]

/-- Exactly where the newlines are. -/
theorem mem_lfPositionsFrom {text : Text} {start position : Nat} :
    position ∈ lfPositionsFrom start text ↔ start ≤ position ∧ text[position - start]? = some '\n' := by
  induction text generalizing start with
  | nil => simp [lfPositionsFrom]
  | cons char text ih =>
    have later : position ∈ lfPositionsFrom (start + 1) text ↔
        start < position ∧ (char :: text)[position - start]? = some '\n' := by
      rw [ih]
      refine and_congr_right fun after => ?_
      obtain ⟨more, rfl⟩ := Nat.exists_eq_add_of_lt after
      rw [show start + more + 1 - (start + 1) = more by omega, show start + more + 1 - start = more + 1 by omega,
        List.getElem?_cons_succ]
    rw [lfPositionsFrom]
    split
    · rename_i newline
      rw [List.mem_cons, later]
      constructor
      · rintro (rfl | ⟨after, found⟩)
        · exact ⟨le_rfl, by rw [Nat.sub_self, newline]; rfl⟩
        · exact ⟨after.le, found⟩
      · rintro ⟨from_, found⟩
        exact (Nat.eq_or_lt_of_le from_).imp Eq.symm fun after => ⟨after, found⟩
    · rename_i different
      rw [later]
      refine ⟨fun ⟨after, found⟩ => ⟨after.le, found⟩, fun ⟨from_, found⟩ => ⟨?_, found⟩⟩
      refine lt_of_le_of_ne from_ ?_
      rintro rfl
      rw [Nat.sub_self] at found
      exact different (Option.some.inj found)

theorem slice_append (before line after : Text) : slice (before ++ line ++ after) before.length
    (before.length + line.length) = line := by
  rw [slice, List.take_left' (by rw [List.length_append]), List.drop_left]

namespace Cut

theorem splitLine_short {maxLineLength position : Nat} {text : Text} {cut : Cut}
    (short : position - cut.firstPosition < maxLineLength) (rounds : Nat) :
    splitLine maxLineLength text position rounds cut = cut := by
  cases rounds with
  | zero => rfl
  | succ rounds => exact if_neg (Nat.not_le.mpr short)

theorem splitRest_short {maxLineLength : Nat} {text : Text} {cut : Cut}
    (short : text.length - cut.firstPosition < maxLineLength) (rounds : Nat) :
    splitRest maxLineLength text rounds cut = cut := by
  cases rounds with
  | zero => rfl
  | succ rounds => exact if_neg (Nat.not_le.mpr short)

/-- What the loops have when they took these lines up to there. -/
def taken (cut : Cut) (lines : List Text) (position : Nat) : Cut where
  retLines := cut.retLines ++ lines
  retIndexes := cut.retIndexes ++ lfPositionsFrom cut.retTextLength lines.flatten
  retTextLength := cut.retTextLength + lines.flatten.length
  retLineCount := cut.retLineCount + lines.length
  firstPosition := position

theorem taken_cons {cut : Cut} {body : Text} (unbroken : '\n' ∉ body) (lines : List Text) (position next : Nat) :
    ({ cut.push (body ++ ['\n']) with retLineCount := cut.retLineCount + 1, firstPosition := position } : Cut).taken
      lines next = cut.taken ((body ++ ['\n']) :: lines) next := by
  simp only [taken, push, List.flatten_cons, List.append_assoc, List.cons_append, List.nil_append, List.length_append,
    List.length_cons, List.length_nil, lfPositionsFrom_line unbroken]
  congr 1
  all_goals omega

/-- A line that is short enough is taken whole. -/
theorem takeLine_short {maxLineLength : Nat} {before body rest : Text} {cut : Cut}
    (here : cut.firstPosition = before.length) (short : body.length < maxLineLength) :
    takeLine maxLineLength (before ++ (body ++ '\n' :: rest)) cut (before.length + body.length) =
      { cut.push (body ++ ['\n']) with
        retLineCount := cut.retLineCount + 1
        firstPosition := before.length + body.length + 1 } := by
  have whole := slice_append before (body ++ ['\n']) rest
  rw [List.length_append, List.length_singleton, ← Nat.add_assoc] at whole
  have same : before ++ (body ++ '\n' :: rest) = before ++ (body ++ ['\n']) ++ rest := by simp
  unfold takeLine
  rw [splitLine_short (by rw [here]; omega)]
  dsimp only
  rw [here, same, whole]

theorem foldl_takeLine {maxLineLength : Nat} {remaining before : Text} {cut : Cut}
    (here : cut.firstPosition = before.length)
    (short : ∀ line ∈ readLines '\n' (wholeLines '\n' remaining), line.length ≤ maxLineLength) :
    (lfPositionsFrom before.length remaining).foldl (takeLine maxLineLength (before ++ remaining)) cut =
      cut.taken (readLines '\n' (wholeLines '\n' remaining)) (before.length + (wholeLines '\n' remaining).length) := by
  induction length : remaining.length using Nat.strong_induction_on generalizing remaining before cut with
  | _ n ih =>
    subst length
    by_cases broken : '\n' ∈ remaining
    · obtain ⟨body, rest, rfl, unbroken⟩ := List.eq_append_cons_of_mem broken
      -- The first line, and then the rest of the text.
      have lines : wholeLines '\n' (body ++ '\n' :: rest) = body ++ ['\n'] ++ wholeLines '\n' rest := by
        have whole := (@wholeLines_append _ _ '\n' (body ++ ['\n']) (.inr ⟨body, rfl⟩) rest).1
        rw [← whole, List.append_assoc, List.singleton_append]
      have read : readLines '\n' (wholeLines '\n' (body ++ '\n' :: rest)) =
          (body ++ ['\n']) :: readLines '\n' (wholeLines '\n' rest) := by
        rw [lines, List.append_assoc, List.singleton_append, readLines_append, readLines_line '\n' unbroken]
        rfl
      rw [read] at short
      have first := short _ List.mem_cons_self
      rw [List.length_append, List.length_singleton] at first
      rw [lfPositionsFrom_line unbroken, List.foldl_cons, takeLine_short here first, read]
      have next : before.length + body.length + 1 = (before ++ body ++ ['\n']).length := by simp [Nat.add_assoc]
      have same : before ++ (body ++ '\n' :: rest) = before ++ body ++ ['\n'] ++ rest := by simp
      rw [next, same, ih rest.length (by simp; omega) rfl
        (fun line member => short line (List.mem_cons_of_mem _ member)) rfl, taken_cons unbroken, lines]
      congr 1
      simp only [List.length_append, List.length_singleton]
      omega
    · rw [lfPositionsFrom_unbroken broken, wholeLines_of_not_mem broken]
      simp [taken, readLines, lfPositionsFrom, ← here]

end Cut

/-- The lines come out as they are where none of them is too long. -/
theorem cutLines_short {maxLineLength : Nat} {text : Text}
    (short : ∀ line ∈ readLines '\n' (wholeLines '\n' text), line.length ≤ maxLineLength)
    (rest : (lastPart '\n' text).length < maxLineLength) : cutLines maxLineLength text =
      Cut.start.taken (readLines '\n' (wholeLines '\n' text)) (wholeLines '\n' text).length := by
  have all := @Cut.foldl_takeLine maxLineLength text [] Cut.start rfl short
  rw [List.length_nil, List.nil_append, Nat.zero_add] at all
  rw [cutLines, getLfPositions, all, Cut.splitRest_short]
  have lengths := congrArg List.length (@wholeLines_append_lastPart _ _ '\n' text)
  rw [List.length_append] at lengths
  simp only [Cut.taken]
  omega

/-- A text without a newline is cut once where it is not too long for that. -/
theorem cutLines_split {maxLineLength : Nat} {text : Text} (ends : 2 ≤ maxLineLength) (unbroken : '\n' ∉ text)
    (long : maxLineLength ≤ text.length) (once : text.length + 1 < 2 * maxLineLength) : cutLines maxLineLength text =
      { Cut.start.push (text.take (maxLineLength - 1) ++ ['\n']) with firstPosition := maxLineLength - 1 } := by
  obtain ⟨rounds, same⟩ : ∃ rounds, text.length + 1 = rounds + 1 + 1 := ⟨text.length - 1, by omega⟩
  rw [cutLines, getLfPositions, lfPositionsFrom_unbroken unbroken, List.foldl_nil, same, Cut.splitRest, if_pos]
  · rw [Cut.splitRest_short]
    · simp [Cut.start, slice]
    · simp only [Cut.start, Nat.zero_add]
      omega
  · exact long

/-- A text of whole lines, with the positions of their newlines and a time for each. -/
structure LineInfo.WellFormed (info : LineInfo τ) : Prop where
  whole : Whole '\n' info.text
  positions : info.lfPositions = getLfPositions info.text
  times : info.lineTimes.length = (readLines '\n' info.text).length

def LineInfo.timedLines (info : LineInfo τ) : List (Text × τ) := (readLines '\n' info.text).zip info.lineTimes

end Umbilical.BuildbotWorker
