import Umbilical.Authority.Requests

set_option autoImplicit false

/-!
# Calls whose statements do not fail

Without failures of the engine, what a call does is what its statements come to
on the durable state, unless the transaction could not be opened.
-/

namespace Umbilical.Authority

open Python

/-- `BEGIN` cannot succeed: the connection is in a transaction, or another one has the lock. -/
def Call.Blocked (call : Call) : Prop := call.transaction.isSome ∨ call.locked

/-- The ways the `try` block can end. -/
inductive CalmlyAttempted {α : Type} (body : Statements α) (before : Call) : EStateM.Result PyError Call α → Prop
  | committed {value : α} {after : Call} (evaluated : body.eval before.durable = .ok value after.durable)
      (ready : after.handle = .ready) : CalmlyAttempted body before (.ok value after)
  | raised {error : PyError} {after : Call} {contents : Database}
      (evaluated : body.eval before.durable = .error error contents) (kept : after.durable = before.durable)
      (left : ∃ transaction, after.handle = .inside transaction) (calm : Calm after.outcomes)
      (unstarted : after.commitStarted = before.commitStarted) : CalmlyAttempted body before (.error error after)
  | blocked {after : Call} (blocked : before.Blocked) (kept : after.durable = before.durable)
      (same : after.handle = before.handle) (calm : Calm after.outcomes)
      (unstarted : after.commitStarted = before.commitStarted) :
      CalmlyAttempted body before (.error .databaseError after)

/-- What a caught error surfaces as. -/
def Surfaces (error surfaced : PyError) : Prop :=
  surfaced = error ∨ error = .databaseError ∧ ∃ message, surfaced = authorityError message

/-- The ways a call of an operation can end. -/
inductive CalmlyConcluded {α : Type} (body : Statements α) (before : Call) : EStateM.Result PyError Call α → Prop
  | committed {value : α} {after : Call} (evaluated : body.eval before.durable = .ok value after.durable)
      (ready : after.handle = .ready) : CalmlyConcluded body before (.ok value after)
  | refused {error surfaced : PyError} {after : Call} {contents : Database}
      (evaluated : body.eval before.durable = .error error contents) (caught : Caught error)
      (surfaces : Surfaces error surfaced) (kept : after.durable = before.durable) (ready : after.handle = .ready) :
      CalmlyConcluded body before (.error surfaced after)
  | abandoned {error : PyError} {after : Call} {contents : Database}
      (evaluated : body.eval before.durable = .error error contents) (uncaught : ¬ Caught error)
      (kept : after.durable = before.durable) (left : ∃ transaction, after.handle = .inside transaction)
      (unstarted : after.commitStarted = before.commitStarted) :
      CalmlyConcluded body before (.error error after)
  | blocked {surfaced : PyError} {after : Call} (blocked : before.Blocked) (surfaces : Surfaces .databaseError surfaced)
      (kept : after.durable = before.durable) (ready : after.handle = .ready) :
      CalmlyConcluded body before (.error surfaced after)

section Transactions

variable {α : Type} {body : Statements α} {call : Call}

theorem attempt_calm (calm : Calm call.outcomes) (usable : call.handle.Usable) (immediate : Bool) :
    CalmlyAttempted body call (attempt immediate body call) := by
  obtain ⟨transaction, same⟩ := usable
  have current : call.transaction = transaction := by simp [Call.transaction, same]
  unfold attempt
  simp only [bind, EStateM.bind, begin, calm.headD]
  split_ifs with refused
  · refine .blocked ?_ rfl ?_ calm.tail rfl
    · exact refused.imp id fun immediately => immediately.2
    · simp [Call.after, same, current]
  · have open_ : (call.after (some ⟨immediate, call.durable⟩)).transaction = some ⟨immediate, call.durable⟩ := by
      simp [Call.after, Call.transaction, same]
    obtain ⟨ended, rest⟩ := body.run_calm call.outcomes.tail calm.tail call.durable
    simp only [perform, open_]
    generalize ran : body.run (call.after (some ⟨immediate, call.durable⟩)).outcomes call.durable = ending
    change body.run call.outcomes.tail call.durable = ending at ran
    obtain ⟨ending, outcomes⟩ := ending
    rw [ran] at ended rest
    cases evaluated : body.eval call.durable with
    | ok value contents =>
      obtain rfl : ending = .returned value contents := by rw [evaluated] at ended; exact ended
      simp only [commit, rest.headD]
      refine .committed ?_ ?_
      · simp [Call.started, Call.applied, Call.after, Call.transaction, same, evaluated]
      · simp [Call.started, Call.applied, Call.after, same, Handle.ready]
    | error error contents =>
      obtain rfl : ending = .raised error contents := by rw [evaluated] at ended; exact ended
      exact .raised evaluated rfl ⟨⟨immediate, contents⟩, by simp [Call.after, same, Handle.inside]⟩ rest rfl

theorem rollbackAfterFailure_calm (calm : Calm call.outcomes) (usable : call.handle.Usable) :
    ∃ after, rollbackAfterFailure call = .ok () after ∧ after.durable = call.durable ∧ after.handle = .ready := by
  obtain ⟨transaction, same⟩ := usable
  have current : call.transaction = transaction := by simp [Call.transaction, same]
  unfold rollbackAfterFailure
  rw [current, calm.headD]
  cases transaction with
  | none => exact ⟨call, rfl, rfl, same⟩
  | some transaction => exact ⟨_, rfl, rfl, by simp [Call.after, same, Handle.ready]⟩

/-- Cleaning up after a caught error without failures. -/
def CalmlyCleansUp (handler : PyError → Operation α) : Prop :=
  ∀ error, Caught error → ∀ call : Call, Calm call.outcomes → call.handle.Usable → call.commitStarted = false →
    ∃ surfaced after, handler error call = .error surfaced after ∧ Surfaces error surfaced ∧
      after.durable = call.durable ∧ after.handle = .ready

theorem rollback_calm (calm : Calm call.outcomes) (usable : call.handle.Usable) (surfaced : PyError) :
    ∃ after, (do rollbackAfterFailure; throw surfaced : Operation α) call = .error surfaced after ∧
      after.durable = call.durable ∧ after.handle = .ready := by
  obtain ⟨after, rolled, kept, ready⟩ := rollbackAfterFailure_calm calm usable
  refine ⟨after, ?_, kept, ready⟩
  simp only [bind, EStateM.bind, rolled]
  rfl

theorem tryCatch_calm {handler : PyError → Operation α} {block : Operation α} (cleansUp : CalmlyCleansUp handler)
    (passes : ∀ error, ¬ Caught error → handler error = throw error) (usable : call.handle.Usable)
    (unstarted : call.commitStarted = false) (attempted : CalmlyAttempted body call (block call)) :
    CalmlyConcluded body call (tryCatch block handler call) := by
  change CalmlyConcluded body call (EStateM.tryCatch block handler call)
  unfold EStateM.tryCatch
  generalize block call = result at attempted
  cases attempted with
  | committed evaluated ready => exact .committed evaluated ready
  | @raised error after contents evaluated kept left calm same =>
    change CalmlyConcluded body call (handler error after)
    obtain ⟨transaction, inside⟩ := left
    by_cases caught : Caught error
    · obtain ⟨surfaced, final, handled, surfaces, kept', ready⟩ :=
        cleansUp error caught after calm (inside ▸ Handle.inside_usable transaction) (same.trans unstarted)
      rw [handled]
      exact .refused evaluated caught surfaces (kept'.trans kept) ready
    · rw [passes error caught]
      exact .abandoned evaluated caught kept ⟨transaction, inside⟩ same
  | @blocked after blocked kept same calm unchanged =>
    change CalmlyConcluded body call (handler .databaseError after)
    obtain ⟨surfaced, final, handled, surfaces, kept', ready⟩ :=
      cleansUp .databaseError trivial after calm (same ▸ usable) (unchanged.trans unstarted)
    rw [handled]
    exact .blocked blocked surfaces (kept'.trans kept) ready

theorem ordinary_calm (calm : Calm call.outcomes) (usable : call.handle.Usable) (unstarted : call.commitStarted = false)
    (immediate : Bool) (message : String) : CalmlyConcluded body call (ordinary immediate message body call) := by
  refine tryCatch_calm ?_ ?_ usable unstarted (attempt_calm calm usable immediate)
  · intro error caught call calm usable _
    cases error with
    | store kind text =>
      obtain ⟨after, handled, kept, ready⟩ := rollback_calm calm usable (.store kind text)
      exact ⟨_, after, handled, .inl rfl, kept, ready⟩
    | databaseError =>
      obtain ⟨after, handled, kept, ready⟩ := rollback_calm calm usable (authorityError message)
      exact ⟨_, after, handled, .inr ⟨rfl, message, rfl⟩, kept, ready⟩
    | _ => cases caught
  · intro error uncaught
    cases error with
    | store | databaseError => exact absurd trivial uncaught
    | _ => rfl

theorem consequential_calm (calm : Calm call.outcomes) (usable : call.handle.Usable)
    (unstarted : call.commitStarted = false) (operation : String) :
    CalmlyConcluded body call (consequential operation body call) := by
  refine tryCatch_calm ?_ ?_ usable unstarted (attempt_calm calm usable true)
  · intro error caught call calm usable unstarted
    have handles (cause : PyError) : ∃ after, (handleConsequentialFailure operation cause : Operation α) call =
        .error cause after ∧ after.durable = call.durable ∧ after.handle = .ready := by
      unfold handleConsequentialFailure
      rw [Operation.get_bind, unstarted, if_neg Bool.false_ne_true]
      exact rollback_calm calm usable cause
    cases error with
    | store kind text =>
      obtain ⟨after, handled, kept, ready⟩ := handles (.store kind text)
      exact ⟨_, after, handled, .inl rfl, kept, ready⟩
    | databaseError =>
      obtain ⟨after, handled, kept, ready⟩ := handles .databaseError
      exact ⟨_, after, handled, .inl rfl, kept, ready⟩
    | _ => cases caught
  · intro error uncaught
    cases error with
    | store | databaseError => exact absurd trivial uncaught
    | _ => rfl

end Transactions

theorem calm_concludes {call : Call} (calm : Calm call.outcomes) (unstarted : call.commitStarted = false) :
    Concludes (fun _ => True) call fun body result => CalmlyConcluded body call result where
  map f body run concluded := by
    rw [map_run]
    generalize run call = result at concluded
    cases concluded with
    | committed evaluated ready => exact .committed (by rw [Script.eval_map, evaluated]) ready
    | refused evaluated caught surfaces kept ready =>
      exact .refused (by rw [Script.eval_map, evaluated]) caught surfaces kept ready
    | abandoned evaluated uncaught kept left unstarted =>
      exact .abandoned (by rw [Script.eval_map, evaluated]) uncaught kept left unstarted
    | blocked blocked surfaces kept ready => exact .blocked blocked surfaces kept ready
  ordinary immediate message _ usable := ordinary_calm calm usable unstarted immediate message
  consequential operation _ usable := consequential_calm calm usable unstarted operation

/-- How a call ends when none of its statements fails. -/
theorem Request.run_calm (request : Request) {call : Call} (calm : Calm call.outcomes)
    (unstarted : call.commitStarted = false) :
    Answered call (fun body result => CalmlyConcluded body call result) request.body (request.run call) :=
  request.run_answered_any (calm_concludes calm unstarted)

end Umbilical.Authority
