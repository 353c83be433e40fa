import Umbilical.Authority.Database
import Mathlib.Tactic.SplitIfs

set_option autoImplicit false

/-!
# Transactions on one handle

How an operation brackets its statements, and what it does when one fails.
-/

namespace Umbilical.Authority

open Python

structure Transaction where
  immediate : Bool
  contents : Database

/-- `connection.in_transaction` is whether there is one. -/
structure Connection where
  transaction : Option Transaction

/-- The fields of an `AuthorityStore`. -/
structure Handle where
  poisoned : Bool
  connection : Option Connection

/-- A handle between two calls, none of which left a transaction open. -/
def Handle.ready : Handle where
  poisoned := false
  connection := some ⟨none⟩

/-- A handle that a call left inside a transaction. -/
def Handle.inside (transaction : Transaction) : Handle where
  poisoned := false
  connection := some ⟨some transaction⟩

/-- A handle whose connection `_poison` closed. -/
def Handle.spent : Handle where
  poisoned := true
  connection := none

/-- What a call works on: the durable state, whether another connection holds the write lock, the
handle, how the engine will let the coming statements end, and whether the `COMMIT` was started. -/
structure Call where
  durable : Database
  locked : Bool
  handle : Handle
  outcomes : List Outcome
  commitStarted : Bool

abbrev Operation := EStateM PyError Call

theorem Operation.get_bind {α : Type} (next : Call → Operation α) (call : Call) :
    (get >>= next : Operation α) call = next call call := rfl

namespace Call

def transaction (call : Call) : Option Transaction := call.handle.connection.bind Connection.transaction

/-- The transaction of the connection replaced, and the next outcome used up. -/
def after (call : Call) (transaction : Option Transaction) : Call :=
  { call with
    handle := { call.handle with connection := call.handle.connection.map fun _ => ⟨transaction⟩ }
    outcomes := call.outcomes.tail }

end Call

/-- `connection.execute("BEGIN")` and `connection.execute("BEGIN IMMEDIATE")`. -/
def begin (immediate : Bool) : Operation Unit := fun call =>
  match call.outcomes.headD .done with
  | .done =>
      if call.transaction.isSome ∨ (immediate ∧ call.locked) then
        .error .databaseError (call.after call.transaction)
      else .ok () (call.after (some ⟨immediate, call.durable⟩))
  | .died _ => .error .processDied (call.after call.transaction)
  | _ => .error .databaseError (call.after call.transaction)

def Call.started (call : Call) : Call := { call with commitStarted := true }

/-- The transaction over, and what it wrote durable. -/
def Call.applied (call : Call) : Call :=
  { call.after none with durable := (call.transaction.map Transaction.contents).getD call.durable }

/-- `connection.execute("COMMIT")`. -/
def commit : Operation Unit := fun call =>
  match call.outcomes.headD .done with
  | .done | .ignored => .ok () call.started.applied
  | .applied => .error .databaseError call.started.applied
  | .died true => .error .processDied call.started.applied
  | .died false => .error .processDied (call.started.after none)
  | .rolledBack => .error .databaseError (call.started.after none)
  | .failed => .error .databaseError (call.started.after call.transaction)

/-- The statements between `BEGIN` and `COMMIT`. -/
def perform {α : Type} (body : Statements α) : Operation α := fun call =>
  match call.transaction with
  | none => .error .databaseError call
  | some transaction =>
      match body.run call.outcomes transaction.contents with
      | (.returned value contents, outcomes) =>
          .ok value { call.after (some { transaction with contents := contents }) with outcomes := outcomes }
      | (.raised error contents, outcomes) =>
          .error error { call.after (some { transaction with contents := contents }) with outcomes := outcomes }
      | (.failed _ (.died _) _, outcomes) => .error .processDied { call.after none with outcomes := outcomes }
      | (.failed error .rolledBack _, outcomes) => .error error { call.after none with outcomes := outcomes }
      | (.failed error _ contents, outcomes) =>
          .error error { call.after (some { transaction with contents := contents }) with outcomes := outcomes }

/-- `_poison`. -/
def poison : Operation Unit := fun call => .ok () { call with handle := { poisoned := true, connection := none } }

def authorityError (message : String) : PyError := .store .authorityStoreError message

def rollbackFailed : PyError :=
  authorityError "authority transaction rollback failed; store permanently poisoned"

/-- `_rollback_after_failure`. -/
def rollbackAfterFailure : Operation Unit := fun call =>
  match call.transaction with
  | none => .ok () call
  | some transaction =>
      match call.outcomes.headD .done with
      | .done => .ok () (call.after none)
      | .died _ => .error .processDied (call.after none)
      -- ROLLBACK raised, or returned with the transaction still active
      | _ => (do poison; throw rollbackFailed) (call.after (some transaction))

/-- `try: BEGIN; …; COMMIT`. -/
def attempt {α : Type} (immediate : Bool) (body : Statements α) : Operation α := do
  begin immediate
  let value ← perform body
  commit
  return value

/-- The `except` clauses of every operation but the three on launches. -/
def ordinary {α : Type} (immediate : Bool) (message : String) (body : Statements α) : Operation α :=
  tryCatch (attempt immediate body) fun
    | .store kind text => do
        rollbackAfterFailure
        throw (.store kind text)
    | .databaseError => do
        rollbackAfterFailure
        throw (authorityError message)
    | error => throw error

/-- `_handle_consequential_failure`. -/
def handleConsequentialFailure {α : Type} (operation : String) (cause : PyError) : Operation α := do
  let call ← get
  if call.commitStarted then
    poison
    throw (authorityError (operation ++ " COMMIT outcome is uncertain; physical launch authority " ++
      "must be treated as consumed until durable state is inspected"))
  else
    rollbackAfterFailure
    throw cause

/-- The `except` clauses of the three operations on launches. -/
def consequential {α : Type} (operation : String) (body : Statements α) : Operation α :=
  tryCatch (attempt true body) fun
    | .store kind text => handleConsequentialFailure operation (.store kind text)
    | .databaseError => handleConsequentialFailure operation .databaseError
    | error => throw error

/-- `_require_usable_connection`. -/
def requireUsableConnection : Operation Unit := fun call =>
  if call.handle.poisoned then
    .error (authorityError "authority store is poisoned after uncertain transaction cleanup") call
  else if call.handle.connection.isNone then .error (authorityError "authority store is closed") call
  else .ok () call

/-- An open transaction ends with its connection. -/
def Call.closed (call : Call) : Call := { call with handle := { call.handle with connection := none } }

/-- `close`. -/
def close : Operation Unit := fun call => .ok () call.closed

/-- Errors that the `except` clauses of every operation catch. -/
def Caught : PyError → Prop
  | .store _ _ | .databaseError => True
  | _ => False

instance (error : PyError) : Decidable (Caught error) := by
  cases error <;> unfold Caught <;> infer_instance

/-- A handle that holds no transaction and no lock. -/
def Handle.Settled (handle : Handle) : Prop := handle = .ready ∨ handle = .spent

/-- A handle that `_require_usable_connection` lets through, with or without an open transaction. -/
def Handle.Usable (handle : Handle) : Prop := ∃ transaction, handle = ⟨false, some ⟨transaction⟩⟩

theorem Handle.ready_usable : Handle.ready.Usable := ⟨none, rfl⟩

theorem Handle.inside_usable (transaction : Transaction) : (Handle.inside transaction).Usable :=
  ⟨some transaction, rfl⟩

theorem Handle.usable_iff {handle : Handle} : handle.Usable ↔ handle = .ready ∨ ∃ transaction, handle = .inside transaction := by
  constructor
  · rintro ⟨_ | transaction, rfl⟩
    · exact .inl rfl
    · exact .inr ⟨transaction, rfl⟩
  · rintro (rfl | ⟨transaction, rfl⟩)
    · exact ready_usable
    · exact inside_usable transaction

/-- Every way a transaction can end, as far as the durable state and the handle are concerned. -/
inductive Concluded {α : Type} (body : Statements α) (before : Call) : EStateM.Result PyError Call α → Prop
  | committed {value : α} {after : Call} (evaluated : body.eval before.durable = .ok value after.durable)
      (ready : after.handle = .ready) : Concluded body before (.ok value after)
  /-- An error, although the `COMMIT` took effect. -/
  | uncertain {value : α} {error : PyError} {after : Call}
      (evaluated : body.eval before.durable = .ok value after.durable) (started : after.commitStarted = true)
      (settled : after.handle.Settled ∨ error = .processDied) : Concluded body before (.error error after)
  | refused {error : PyError} {after : Call} (kept : after.durable = before.durable)
      (settled : after.handle.Settled ∨ error = .processDied) : Concluded body before (.error error after)
  /-- An error that no `except` clause names. -/
  | abandoned {error : PyError} {after : Call} {contents : Database} (kept : after.durable = before.durable)
      (evaluated : body.eval before.durable = .error error contents) (uncaught : ¬ Caught error)
      (usable : after.handle.Usable) : Concluded body before (.error error after)

/-- The same for the `try` block, before any `except` clause. -/
inductive Attempted {α : Type} (body : Statements α) (before : Call) : EStateM.Result PyError Call α → Prop
  | committed {value : α} {after : Call} (evaluated : body.eval before.durable = .ok value after.durable)
      (ready : after.handle = .ready) : Attempted body before (.ok value after)
  | uncertain {value : α} {error : PyError} {after : Call}
      (evaluated : body.eval before.durable = .ok value after.durable) (started : after.commitStarted = true)
      (ready : after.handle = .ready) : Attempted body before (.error error after)
  | failed {error : PyError} {after : Call} (kept : after.durable = before.durable)
      (usable : after.handle.Usable) (caught : Caught error) : Attempted body before (.error error after)
  | died {after : Call} (kept : after.durable = before.durable) :
      Attempted body before (.error .processDied after)
  | abandoned {error : PyError} {after : Call} {contents : Database} (kept : after.durable = before.durable)
      (evaluated : body.eval before.durable = .error error contents) (uncaught : ¬ Caught error)
      (usable : after.handle.Usable) : Attempted body before (.error error after)

section Transactions

variable {α : Type} {body : Statements α} {call : Call}

theorem begin_cases (usable : call.handle.Usable) (immediate : Bool) :
    (∃ after, begin immediate call = .ok () after ∧ after.durable = call.durable ∧
      after.handle = ⟨false, some ⟨some ⟨immediate, call.durable⟩⟩⟩) ∨
    ∃ error after, begin immediate call = .error error after ∧ after.durable = call.durable ∧
      after.handle = call.handle ∧ (Caught error ∨ error = .processDied) := by
  obtain ⟨transaction, same⟩ := usable
  have unchanged : (call.after call.transaction).handle = call.handle := by
    simp [Call.after, Call.transaction, same]
  unfold begin
  split
  · split_ifs with refused
    · exact .inr ⟨_, _, rfl, rfl, unchanged, .inl trivial⟩
    · exact .inl ⟨_, rfl, rfl, by simp [Call.after, same]⟩
  · exact .inr ⟨_, _, rfl, rfl, unchanged, .inr rfl⟩
  · exact .inr ⟨_, _, rfl, rfl, unchanged, .inl trivial⟩

theorem perform_cases {immediate : Bool} {contents : Database} (surfaced : body.RaisesOnly (fun _ => True) Caught)
    (begun : call.handle = ⟨false, some ⟨some ⟨immediate, contents⟩⟩⟩) :
    (∃ value reached after, perform body call = .ok value after ∧ body.eval contents = .ok value reached ∧
      after.durable = call.durable ∧ after.handle = ⟨false, some ⟨some ⟨immediate, reached⟩⟩⟩) ∨
    ∃ error after, perform body call = .error error after ∧ after.durable = call.durable ∧ after.handle.Usable ∧
      (Caught error ∨ error = .processDied ∨ ∃ reached, body.eval contents = .error error reached) := by
  have open_ : call.transaction = some ⟨immediate, contents⟩ := by simp [Call.transaction, begun]
  have usable (transaction : Option Transaction) : (call.after transaction).handle.Usable :=
    ⟨transaction, by simp [Call.after, begun]⟩
  simp only [perform, open_]
  generalize ran : body.run call.outcomes contents = ending
  obtain ⟨ending, outcomes⟩ := ending
  have ended : (body.run call.outcomes contents).1 = ending := by rw [ran]
  cases ending with
  | returned value reached =>
    rcases body.run_cases call.outcomes contents with ⟨_, _, _, _, failed⟩ | finished
    · rw [ended] at failed
      cases failed
    · rw [ended] at finished
      cases evaluated : body.eval contents <;> rw [evaluated] at finished <;> cases finished
      exact .inl ⟨value, reached, _, rfl, rfl, rfl, by simp [Call.after, begun]⟩
  | raised error reached =>
    rcases body.run_cases call.outcomes contents with ⟨_, _, _, _, failed⟩ | finished
    · rw [ended] at failed
      cases failed
    · rw [ended] at finished
      cases evaluated : body.eval contents <;> rw [evaluated] at finished <;> cases finished
      exact .inr ⟨error, _, rfl, rfl, usable _, .inr (.inr ⟨reached, rfl⟩)⟩
  | failed error outcome reached =>
    have caught : Caught error := surfaced.run ended
    cases outcome with
    | died => exact .inr ⟨_, _, rfl, rfl, usable none, .inr (.inl rfl)⟩
    | rolledBack => exact .inr ⟨error, _, rfl, rfl, usable none, .inl caught⟩
    | done | failed | applied | ignored => exact .inr ⟨error, _, rfl, rfl, usable _, .inl caught⟩

theorem commit_cases {immediate : Bool} {contents : Database}
    (begun : call.handle = ⟨false, some ⟨some ⟨immediate, contents⟩⟩⟩) :
    (∃ after, commit call = .ok () after ∧ after.durable = contents ∧ after.handle = .ready) ∨
    ∃ error after, commit call = .error error after ∧ (Caught error ∨ error = .processDied) ∧
      (after.durable = contents ∧ after.commitStarted = true ∧ after.handle = .ready ∨
        after.durable = call.durable ∧ after.handle.Usable) := by
  have written : call.started.applied.durable = contents := by
    simp [Call.started, Call.applied, Call.transaction, begun]
  have ready : call.started.applied.handle = .ready := by
    simp [Call.started, Call.applied, Call.after, begun, Handle.ready]
  have usable (transaction : Option Transaction) : (call.started.after transaction).handle.Usable :=
    ⟨transaction, by simp [Call.started, Call.after, begun]⟩
  unfold commit
  split
  · exact .inl ⟨_, rfl, written, ready⟩
  · exact .inl ⟨_, rfl, written, ready⟩
  · exact .inr ⟨_, _, rfl, .inl trivial, .inl ⟨written, rfl, ready⟩⟩
  · exact .inr ⟨_, _, rfl, .inr rfl, .inl ⟨written, rfl, ready⟩⟩
  · exact .inr ⟨_, _, rfl, .inr rfl, .inr ⟨rfl, usable none⟩⟩
  · exact .inr ⟨_, _, rfl, .inl trivial, .inr ⟨rfl, usable none⟩⟩
  · exact .inr ⟨_, _, rfl, .inl trivial, .inr ⟨rfl, usable _⟩⟩

theorem rollbackAfterFailure_cases (usable : call.handle.Usable) :
    (∃ after, rollbackAfterFailure call = .ok () after ∧ after.durable = call.durable ∧
      after.commitStarted = call.commitStarted ∧ after.handle = .ready) ∨
    ∃ error after, rollbackAfterFailure call = .error error after ∧ after.durable = call.durable ∧
      after.commitStarted = call.commitStarted ∧ (after.handle = .spent ∨ error = .processDied) := by
  obtain ⟨transaction, same⟩ := usable
  unfold rollbackAfterFailure
  have open_ : call.transaction = transaction := by simp [Call.transaction, same]
  rw [open_]
  cases transaction with
  | none => exact .inl ⟨call, rfl, rfl, rfl, same⟩
  | some transaction =>
    split
    · rename_i absent
      cases absent
    · split
      · exact .inl ⟨_, rfl, rfl, rfl, by simp [Call.after, same, Handle.ready]⟩
      · exact .inr ⟨_, _, rfl, rfl, rfl, .inr rfl⟩
      · exact .inr ⟨_, _, rfl, rfl, rfl, .inl rfl⟩

theorem attempt_cases (surfaced : body.RaisesOnly (fun _ => True) Caught) (usable : call.handle.Usable)
    (immediate : Bool) : Attempted body call (attempt immediate body call) := by
  unfold attempt
  rcases begin_cases usable immediate with ⟨opened, began, kept, handle⟩ | ⟨error, after, failed, kept, same, kind⟩
  · rcases perform_cases surfaced handle with
      ⟨value, reached, performed, ran, evaluated, kept', handle'⟩ | ⟨error, after, failed, kept', usable', kind⟩
    · rcases commit_cases handle' with
        ⟨after, committed, written, ready⟩ | ⟨error, after, failed, kind, ⟨written, started, ready⟩ | ⟨kept'', usable'⟩⟩
      · simp only [bind, EStateM.bind, began, ran, committed, pure, EStateM.pure]
        exact .committed (written ▸ evaluated) ready
      · simp only [bind, EStateM.bind, began, ran, failed]
        exact .uncertain (written ▸ evaluated) started ready
      · simp only [bind, EStateM.bind, began, ran, failed]
        have kept := kept''.trans (kept'.trans kept)
        rcases kind with caught | rfl
        · exact .failed kept usable' caught
        · exact .died kept
    · simp only [bind, EStateM.bind, began, failed]
      have kept := kept'.trans kept
      by_cases caught : Caught error
      · exact .failed kept usable' caught
      · rcases kind with caught' | rfl | ⟨reached, evaluated⟩
        · exact absurd caught' caught
        · exact .died kept
        · exact .abandoned kept evaluated caught usable'
  · simp only [bind, EStateM.bind, failed]
    rcases kind with caught | rfl
    · exact .failed kept (same ▸ usable) caught
    · exact .died kept

/-- Cleaning up after an error keeps what is durable and lets go of the transaction. -/
def CleansUp (handler : Operation α) : Prop :=
  ∀ call : Call, call.handle.Usable → ∃ error after, handler call = .error error after ∧
    after.durable = call.durable ∧ (call.commitStarted = true → after.commitStarted = true) ∧
    (after.handle.Settled ∨ error = .processDied)

theorem rollback_cleansUp (error : PyError) : CleansUp (do rollbackAfterFailure; throw error : Operation α) := by
  intro call usable
  rcases rollbackAfterFailure_cases usable with
    ⟨after, rolled, kept, started, ready⟩ | ⟨other, after, failed, kept, started, spent⟩
  · refine ⟨error, after, ?_, kept, started.trans, .inl (.inl ready)⟩
    simp only [bind, EStateM.bind, rolled]
    rfl
  · exact ⟨other, after, by simp only [bind, EStateM.bind, failed], kept, started.trans, spent.imp .inr id⟩

theorem handleConsequentialFailure_cleansUp (operation : String) (cause : PyError) :
    CleansUp (handleConsequentialFailure operation cause : Operation α) := by
  intro call usable
  unfold handleConsequentialFailure
  change ∃ error after, (if call.commitStarted then _ else _ : Operation α) call = .error error after ∧ _
  split_ifs with started
  · exact ⟨_, _, rfl, rfl, id, .inl (.inr rfl)⟩
  · exact rollback_cleansUp cause call usable

/-- `except` clauses that clean up after what they catch, and leave the rest alone. -/
theorem tryCatch_concluded {handler : PyError → Operation α} {block : Operation α}
    (cleansUp : ∀ error, Caught error → CleansUp (handler error))
    (passes : ∀ error, ¬ Caught error → handler error = throw error)
    (attempted : Attempted body call (block call)) : Concluded body call (tryCatch block handler call) := by
  change Concluded body call (EStateM.tryCatch block handler call)
  unfold EStateM.tryCatch
  generalize block call = result at attempted
  cases attempted with
  | committed evaluated ready => exact .committed evaluated ready
  | @uncertain value error after evaluated started ready =>
    change Concluded body call (handler error after)
    by_cases caught : Caught error
    · obtain ⟨surfaced, final, handled, kept, still, settled⟩ := cleansUp error caught after ⟨none, ready⟩
      rw [handled]
      exact .uncertain (kept ▸ evaluated) (still started) settled
    · rw [passes error caught]
      exact .uncertain evaluated started (.inl (.inl ready))
  | @failed error after kept usable caught =>
    change Concluded body call (handler error after)
    obtain ⟨surfaced, final, handled, kept', _, settled⟩ := cleansUp error caught after usable
    rw [handled]
    exact .refused (kept'.trans kept) settled
  | @died after kept =>
    change Concluded body call (handler .processDied after)
    rw [passes .processDied id]
    exact .refused kept (.inr rfl)
  | @abandoned error after contents kept evaluated uncaught usable =>
    change Concluded body call (handler error after)
    rw [passes error uncaught]
    exact .abandoned kept evaluated uncaught usable

theorem ordinary_concluded (surfaced : body.RaisesOnly (fun _ => True) Caught) (usable : call.handle.Usable)
    (immediate : Bool) (message : String) : Concluded body call (ordinary immediate message body call) := by
  refine tryCatch_concluded ?_ ?_ (attempt_cases surfaced usable immediate)
  · intro error caught
    cases error with
    | store kind text => exact rollback_cleansUp _
    | databaseError => exact rollback_cleansUp _
    | _ => cases caught
  · intro error uncaught
    cases error with
    | store | databaseError => exact absurd trivial uncaught
    | _ => rfl

theorem consequential_concluded (surfaced : body.RaisesOnly (fun _ => True) Caught) (usable : call.handle.Usable)
    (operation : String) : Concluded body call (consequential operation body call) := by
  refine tryCatch_concluded ?_ ?_ (attempt_cases surfaced usable true)
  · intro error caught
    cases error with
    | store kind text => exact handleConsequentialFailure_cleansUp operation _
    | databaseError => exact handleConsequentialFailure_cleansUp operation _
    | _ => cases caught
  · intro error uncaught
    cases error with
    | store | databaseError => exact absurd trivial uncaught
    | _ => rfl

end Transactions

end Umbilical.Authority
