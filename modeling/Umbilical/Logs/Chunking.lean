import Umbilical.Logs.Pieces

set_option autoImplicit false

/-!
# Which texts may be cut anywhere

What a line boundary finder passes on does not depend on how the text was cut, exactly if
no line of it is ever too long and it has no run of backspaces.
-/

namespace Umbilical.Logs

open Python Lines

/-- Wherever the text is cut, the line that is unfinished there is no long one, and no run of backspaces goes on. -/
def Cuttable (text : Text) : Prop :=
  ∀ front back, front ++ back = text → (unfinished front).length ≤ MAX_LINELENGTH ∧ Apart front back

namespace LineBoundaryFinder

theorem tidy_of_cuttable {pieces : List Text} (cuttable : Cuttable pieces.flatten) : Tidy [] pieces := by
  rintro front rest rfl
  exact cuttable front.flatten rest.flatten (List.flatten_append ..).symm

theorem cuttable_of_tidy {text : Text} (tidy : ∀ pieces : List Text, pieces.flatten = text → Tidy [] pieces) : Cuttable text := by
  intro front back same
  have cut : [front, back].flatten = text := by simpa using same
  have once := tidy [front, back] cut [front] [back] rfl
  simpa using once

/-- Nothing is kept back after the end, if no long line was. -/
theorem flush_pending (finder : LineBoundaryFinder) :
    finder.flush.1.pending = [] ↔ finder.pending.length ≤ MAX_LINELENGTH := by
  cases kept : finder.partialLine with
  | none => simp [flush, pending, kept]
  | some line =>
    have given : finder.flush = finder.append ['\n'] := by simp [flush, kept]
    rw [given]
    constructor
    · intro empty
      by_contra long
      rw [append_long (Nat.not_le.mp long)] at empty
      cases empty
    · intro short
      obtain ⟨_, _, last, _⟩ := adjustLine_correct short ['\n']
      rw [last]
      exact unfinished_eq_nil.mpr (whole_append (List.cons_ne_nil _ _) (.inr ⟨[], rfl⟩) _)

/-- All that ever comes out are whole lines. A cutting gives the normalized text exactly if it is tidy, so that all
cuttings of a text do exactly if it may be cut anywhere; and then the end leaves nothing. -/
theorem cutting_exact (text : Text) :
    ((∀ pieces : List Text, pieces.flatten = text → passed ⟨none⟩ pieces = ended text) ↔ Cuttable text) ∧
    ∀ pieces : List Text, pieces.flatten = text →
      (passed ⟨none⟩ pieces = ended text ↔ Tidy [] pieces) ∧
      (Tidy [] pieces → (feed ⟨none⟩ pieces).1.flush.1.pending = []) ∧
      (∀ front piece line, ((feed ⟨none⟩ front).1.append piece).2 = some line → Whole '\n' line ∧ line ≠ []) ∧
      ∀ line, (feed ⟨none⟩ pieces).1.flush.2 = some line → Whole '\n' line ∧ line ≠ [] := by
  refine ⟨⟨fun all => cuttable_of_tidy fun pieces same => ?_, fun cuttable pieces same => ?_⟩, fun pieces same => ?_⟩
  · exact (passed_iff pieces).mp (same ▸ all pieces same)
  · subst same
    exact (passed_iff pieces).mpr (tidy_of_cuttable cuttable)
  · subst same
    refine ⟨passed_iff pieces, fun tidy => ?_, fun _ _ _ out => append_whole out, fun _ out => flush_whole out⟩
    have holds := (feed_tidy new_holds tidy).1
    refine (flush_pending _).mpr ?_
    rw [holds.kept]
    exact (tidy pieces [] (List.append_nil _)).1

end LineBoundaryFinder

end Umbilical.Logs
