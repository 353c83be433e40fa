import Umbilical.Authority.Surfacing

set_option autoImplicit false

/-!
# Opening, initializing and migrating

The class methods of `AuthorityStore`. Each works on a connection of its own,
and the durable state may change under it between its transactions.
-/

namespace Umbilical.Authority

open Python

variable (path : String)

/-- `_connect_rw` on a file that exists. -/
def connectRw : Operation Unit := fun call =>
  match call.outcomes.headD .done with
  | .done => .ok () { call with handle := .ready, outcomes := call.outcomes.tail }
  | .died _ => .error .processDied { call with outcomes := call.outcomes.tail }
  | _ => .error (authorityError ("unable to open authority store: " ++ path))
      { call with outcomes := call.outcomes.tail }

/-- A `PRAGMA` that SQLite completes without doing what it was told, or does not complete. -/
def pragma (ignored : Except PyError Unit) : Operation Unit := fun call =>
  match call.outcomes.headD .done, ignored with
  | .done, _ | .ignored, .ok () => .ok () (call.after call.transaction)
  | .ignored, .error error => .error error (call.after call.transaction)
  | .died _, _ => .error .processDied (call.after call.transaction)
  | _, _ => .error .databaseError (call.after call.transaction)

/-- `_configure_durability`. -/
def configureDurability : Operation Unit := do
  pragma (.error (authorityError "SQLite refused required WAL journal mode"))
  pragma (.ok ())
  pragma (.error (authorityError "SQLite refused required synchronous=FULL"))

/-- Statements outside any transaction, `views` what they see. -/
def autocommit {α : Type} (views : List Database) (script : Statements α) : Operation α := fun call =>
  match script.observe call.outcomes views call.durable with
  | (.returned value _, outcomes) => .ok value { call with outcomes := outcomes }
  | (.raised error _, outcomes) => .error error { call with outcomes := outcomes }
  | (.failed _ (.died _) _, outcomes) => .error .processDied { call with outcomes := outcomes }
  | (.failed error _ _, outcomes) => .error error { call with outcomes := outcomes }

/-- `if not store_path.exists()`. -/
def missing : PyError := .store .authorityStoreMissingError ("authority store is missing: " ++ path)

/-- `open_existing` on a file that exists. -/
def openExisting (views : List Database) : Operation Unit :=
  tryCatch (do connectRw path; autocommit views validateStore; configureDurability) fun
    | .store kind text => do
        close
        throw (.store kind text)
    | .databaseError => do
        close
        throw (malformed ("authority store is unreadable or malformed: " ++ path))
    | error => throw error

/-- `_rollback_if_needed`. -/
def rollbackIfNeeded : Operation Unit := fun call =>
  match call.transaction, call.outcomes.headD .done with
  | none, _ => .ok () call
  | some _, .died _ => .error .processDied (call.after none)
  | some _, .done => .ok () (call.after none)
  | some transaction, _ => .ok () (call.after (some transaction))

def initializationBody : Statements Unit := do
  Statements.createTable .controllerGenerations
  Statements.createTable .executionKeys
  Statements.createTable .executionCommandBindings
  Statements.createTable .executionAdmissions
  Statements.createTable .executionLaunches
  Statements.setUserVersion 5
  validateStore

/-- `initialize_new`, up to the reservation of the path, which creates an empty file. -/
def reserve (windows reserved : Bool) (present : Option Database) : Except PyError Database := do
  raiseIf (windows = false) (authorityError "new authority-store initialization is supported only on Windows")
  raiseIf present.isSome (.store .authorityStoreExistsError ("authority store already exists: " ++ path))
  raiseIf (reserved = false) (authorityError ("unable to reserve new authority store: " ++ path))
  return .empty

/-- The `except` clauses of `initialize_new`. The reserved path is intentionally left in place. -/
def initializationClauses : PyError → Operation Unit
  | .store kind text => do
      rollbackIfNeeded
      close
      throw (.store kind text)
  | .databaseError | .osError => do
      rollbackIfNeeded
      close
      throw (authorityError ("failed to initialize authority store: " ++ path))
  | error => throw error

/-- `initialize_new`, once the path is reserved. -/
def initializeReserved : Operation Unit :=
  tryCatch (do (do connectRw path; configureDurability); attempt true initializationBody) (initializationClauses path)

/-- `try: … finally: connection.close()`. -/
def finallyClose {α : Type} (block : Operation α) : Operation α := fun call =>
  match block call with
  | .ok value after => .ok value after.closed
  | .error error after => .error error after.closed

inductive Migration where
  | v1ToV2
  | v2ToV3
  | v3ToV4
  | v4ToV5
  deriving DecidableEq

namespace Migration

def source : Migration → Nat
  | v1ToV2 => 1
  | v2ToV3 => 2
  | v3ToV4 => 3
  | v4ToV5 => 4

def target (migration : Migration) : Nat := migration.source + 1

def name : Migration → String
  | v1ToV2 => "v1-to-v2"
  | v2ToV3 => "v2-to-v3"
  | v3ToV4 => "v3-to-v4"
  | v4ToV5 => "v4-to-v5"

/-- The table that `create_sql` creates. -/
def table : Migration → Table
  | v1ToV2 => .executionKeys
  | v2ToV3 => .executionCommandBindings
  | v3ToV4 => .executionAdmissions
  | v4ToV5 => .executionLaunches

def sourceValidator : Migration → Statements Unit
  | v1ToV2 => validateV1Store
  | v2ToV3 => validateV2Store
  | v3ToV4 => validateV3Store
  | v4ToV5 => validateV4Store

def targetValidator : Migration → Statements Unit
  | v1ToV2 => validateV2Store
  | v2ToV3 => validateV3Store
  | v3ToV4 => validateV4Store
  | v4ToV5 => validateCurrentStore

/-- The version check, which is outside the transaction. -/
def checkVersion (migration : Migration) : Statements Unit := do
  let version ← readSchemaVersion
  Script.lift (raiseIf (version ≠ migration.source) (.store .authorityStoreVersionError
    (migration.name ++ " migration requires schema version " ++ toString migration.source ++ ", found " ++
      toString version)))

def body (migration : Migration) : Statements Unit := do
  migration.sourceValidator
  Statements.createTable migration.table
  Statements.setUserVersion migration.target
  migration.targetValidator

/-- `_rollback_migration_if_needed`. -/
def rollbackIfNeeded (migration : Migration) : Operation Unit := fun call =>
  match call.transaction, call.outcomes.headD .done with
  | none, _ => .ok () call
  | some _, .done => .ok () (call.after none)
  | some _, .died _ => .error .processDied (call.after none)
  | some transaction, .ignored =>
      .error (authorityError (migration.name ++ " migration remained active after rollback; " ++
        "durable outcome requires inspection")) (call.after (some transaction))
  | some transaction, _ =>
      .error (authorityError (migration.name ++ " migration rollback failed; " ++
        "durable outcome requires inspection")) (call.after (some transaction))

/-- What an `except` clause of `_migrate_one_table` does, but for closing the connection. -/
def fail {α : Type} (migration : Migration) (committing failure : PyError) : Operation α := do
  let call ← get
  if call.commitStarted then throw committing
  else do
    migration.rollbackIfNeeded
    throw failure

/-- The `except` clauses of `_migrate_one_table`. -/
def clauses {α : Type} (migration : Migration) : PyError → Operation α
  | .store kind text => finallyClose (migration.fail (.store kind text) (.store kind text))
  | .databaseError =>
      finallyClose (migration.fail
        (authorityError (migration.name ++ " migration COMMIT outcome is uncertain; " ++
          "inspect the durable store explicitly"))
        (authorityError (migration.name ++ " authority migration failed")))
  | error => throw error

/-- `_migrate_one_table` on a file that exists, up to the `BEGIN IMMEDIATE`. -/
def start (migration : Migration) : Operation Unit :=
  tryCatch (do connectRw path; autocommit [] migration.checkVersion) migration.clauses

/-- The rest of `_migrate_one_table`. -/
def finish (migration : Migration) : Operation Unit := do
  tryCatch (do configureDurability; attempt true migration.body) migration.clauses
  close

end Migration

/-- What a call has come to, whether it returned or raised. -/
def reached {α : Type} : EStateM.Result PyError Call α → Call
  | .ok _ after | .error _ after => after

/-- Code that commits nothing. -/
def Keeps {α : Type} (run : Operation α) : Prop :=
  ∀ call, (reached (run call)).durable = call.durable ∧ (reached (run call)).commitStarted = call.commitStarted

section Keeping

variable {α β : Type} {run : Operation α}

theorem Keeps.ok (keeps : Keeps run) {call after : Call} {value : α} (returned : run call = .ok value after) :
    after.durable = call.durable ∧ after.commitStarted = call.commitStarted := by
  have kept := keeps call
  rwa [returned] at kept

theorem Keeps.error (keeps : Keeps run) {call after : Call} {error : PyError} (raised : run call = .error error after) :
    after.durable = call.durable ∧ after.commitStarted = call.commitStarted := by
  have kept := keeps call
  rwa [raised] at kept

theorem bind_run (first : Operation α) (rest : α → Operation β) (call : Call) : (first >>= rest) call =
    match first call with
    | .ok value after => rest value after
    | .error error after => .error error after := by
  simp only [Bind.bind, EStateM.bind]
  cases first call <;> rfl

theorem Keeps.bind {next : α → Operation β} (first : Keeps run) (rest : ∀ value, Keeps (next value)) :
    Keeps (run >>= next) := by
  intro call
  simp only [Bind.bind, EStateM.bind]
  cases returned : run call with
  | ok value between =>
    obtain ⟨kept, same⟩ := first.ok returned
    have after := rest value between
    rw [kept, same] at after
    exact after
  | error error between => exact first.error returned

theorem Keeps.throw (error : PyError) : Keeps (throw error : Operation α) := fun _ => ⟨rfl, rfl⟩

theorem Keeps.get : Keeps (MonadState.get : Operation Call) := fun _ => ⟨rfl, rfl⟩

theorem Keeps.tryCatch {handler : PyError → Operation α} (keeps : Keeps run) (handles : ∀ error, Keeps (handler error)) :
    Keeps (tryCatch run handler) := by
  intro call
  change (reached (EStateM.tryCatch run handler call)).durable = _ ∧ (reached (EStateM.tryCatch run handler call)).commitStarted = _
  unfold EStateM.tryCatch
  cases returned : run call with
  | ok value between => exact keeps.ok returned
  | error error between =>
    obtain ⟨kept, same⟩ := keeps.error returned
    have after := handles error between
    rw [kept, same] at after
    exact after

theorem Keeps.finallyClose (keeps : Keeps run) : Keeps (finallyClose run) := by
  intro call
  have kept := keeps call
  unfold Authority.finallyClose
  cases returned : run call <;> rw [returned] at kept <;> exact kept

theorem close_keeps : Keeps close := fun _ => ⟨rfl, rfl⟩

theorem connectRw_keeps (path : String) : Keeps (connectRw path) := by
  intro call
  unfold connectRw
  split <;> exact ⟨rfl, rfl⟩

theorem pragma_keeps (ignored : Except PyError Unit) : Keeps (pragma ignored) := by
  intro call
  unfold pragma
  split <;> exact ⟨rfl, rfl⟩

theorem configureDurability_keeps : Keeps configureDurability :=
  .bind (pragma_keeps _) fun _ => .bind (pragma_keeps _) fun _ => pragma_keeps _

theorem autocommit_keeps (views : List Database) (script : Statements α) : Keeps (autocommit views script) := by
  intro call
  unfold autocommit
  split <;> exact ⟨rfl, rfl⟩

theorem rollbackIfNeeded_keeps : Keeps rollbackIfNeeded := by
  intro call
  unfold rollbackIfNeeded
  split <;> exact ⟨rfl, rfl⟩

theorem Migration.rollbackIfNeeded_keeps (migration : Migration) : Keeps migration.rollbackIfNeeded := by
  intro call
  unfold Migration.rollbackIfNeeded
  split <;> exact ⟨rfl, rfl⟩

theorem Migration.fail_keeps (migration : Migration) (committing failure : PyError) :
    Keeps (migration.fail committing failure : Operation α) := by
  refine .bind .get fun call => ?_
  split_ifs
  · exact .throw committing
  · exact .bind migration.rollbackIfNeeded_keeps fun _ => .throw failure

end Keeping

/-- Code that only reads keeps the durable state, so a handle it makes is for that state. -/
theorem openExisting_keeps (path : String) (views : List Database) : Keeps (openExisting path views) := by
  refine .tryCatch (.bind (connectRw_keeps path) fun _ => .bind (autocommit_keeps views _) fun _ =>
    configureDurability_keeps) fun error => ?_
  cases error with
  | store | databaseError => exact .bind close_keeps fun _ => .throw _
  | _ => exact .throw _

theorem Migration.start_keeps (path : String) (migration : Migration) : Keeps (migration.start path) := by
  refine .tryCatch (.bind (connectRw_keeps path) fun _ => autocommit_keeps [] _) fun error => ?_
  cases error with
  | store | databaseError => exact .finallyClose (migration.fail_keeps _ _)
  | _ => exact .throw _

/-- All that one transaction and the code around it can do to the durable state. -/
inductive Atomically {α : Type} (body : Statements α) (before : Call) : EStateM.Result PyError Call α → Prop
  | committed {value : α} {after : Call} (evaluated : body.eval before.durable = .ok value after.durable) :
      Atomically body before (.ok value after)
  | uncertain {value : α} {error : PyError} {after : Call}
      (evaluated : body.eval before.durable = .ok value after.durable) (started : after.commitStarted = true) :
      Atomically body before (.error error after)
  | kept {error : PyError} {after : Call} (kept : after.durable = before.durable) :
      Atomically body before (.error error after)

section Atomicity

variable {α : Type} {body : Statements α} {call : Call}

theorem pragma_ready (ready : call.handle = .ready) {ignored : Except PyError Unit} {after : Call}
    (ran : pragma ignored call = .ok () after) : after.handle = .ready := by
  have same : (call.after call.transaction).handle = .ready := by
    simp [Call.after, Call.transaction, ready, Handle.ready]
  unfold pragma at ran
  split at ran <;> cases ran
  · exact same
  · exact same

theorem configureDurability_ready (ready : call.handle = .ready) {after : Call}
    (ran : configureDurability call = .ok () after) : after.handle = .ready := by
  unfold configureDurability at ran
  simp only [bind, EStateM.bind] at ran
  split at ran
  · rename_i first
    split at ran
    · rename_i second
      exact pragma_ready (pragma_ready (pragma_ready ready first) second) ran
    · cases ran
  · cases ran

/-- Code that commits nothing and ends with an error. -/
def Reraises (run : Operation α) : Prop :=
  ∀ call, ∃ error after, run call = .error error after ∧ after.durable = call.durable ∧
    after.commitStarted = call.commitStarted

theorem Reraises.throw (error : PyError) : Reraises (throw error : Operation α) := fun call => ⟨error, call, rfl, rfl, rfl⟩

theorem Reraises.after {β : Type} {first : Operation β} {rest : β → Operation α} (keeps : Keeps first)
    (reraises : ∀ value, Reraises (rest value)) : Reraises (first >>= rest) := by
  intro call
  simp only [Bind.bind, EStateM.bind]
  cases returned : first call with
  | ok value between =>
    obtain ⟨kept, same⟩ := keeps.ok returned
    obtain ⟨error, after, raised, kept', same'⟩ := reraises value between
    exact ⟨error, after, raised, kept'.trans kept, same'.trans same⟩
  | error error between => exact ⟨error, between, rfl, keeps.error returned⟩

theorem Reraises.finallyClose {run : Operation α} (reraises : Reraises run) : Reraises (finallyClose run) := by
  intro call
  obtain ⟨error, after, raised, kept, same⟩ := reraises call
  exact ⟨error, after.closed, by rw [Authority.finallyClose, raised], kept, same⟩

theorem Migration.fail_reraises (migration : Migration) (committing failure : PyError) :
    Reraises (migration.fail committing failure : Operation α) := by
  refine .after .get fun call => ?_
  split_ifs
  · exact .throw committing
  · exact .after migration.rollbackIfNeeded_keeps fun _ => .throw failure

/-- One transaction, with code before it that commits nothing and clauses that only raise. -/
theorem tryCatch_atomic {prelude : Operation Unit} {handler : PyError → Operation α}
    (surfaced : body.RaisesOnly (fun _ => True) Caught) (keeps : Keeps prelude)
    (readies : ∀ after, prelude call = .ok () after → after.handle = .ready)
    (handles : ∀ error, Reraises (handler error)) :
    Atomically body call (tryCatch (do prelude; attempt true body) handler call) ∧
      ∀ value after, tryCatch (do prelude; attempt true body) handler call = .ok value after → after.handle = .ready := by
  change Atomically body call (EStateM.tryCatch (do prelude; attempt true body) handler call) ∧
    ∀ value after, EStateM.tryCatch (do prelude; attempt true body) handler call = .ok value after → after.handle = .ready
  simp only [EStateM.tryCatch, bind, EStateM.bind]
  cases prepared : prelude call with
  | error error between =>
    obtain ⟨kept, _⟩ := keeps.error prepared
    obtain ⟨surfaced, after, handled, kept', _⟩ := handles error between
    simp only [EStateM.Backtrackable.restore, EStateM.dummyRestore, handled]
    exact ⟨.kept (kept'.trans kept), nofun⟩
  | ok _ between =>
    obtain ⟨kept, _⟩ := keeps.ok prepared
    have attempted := attempt_cases surfaced (readies between prepared ▸ Handle.ready_usable) true
    simp only
    generalize attempt true body between = result at attempted
    cases attempted with
    | committed evaluated ready =>
      refine ⟨.committed (kept ▸ evaluated), ?_⟩
      rintro _ _ ⟨⟩
      exact ready
    | @uncertain value error after evaluated started ready =>
      obtain ⟨surfaced, final, handled, kept', same⟩ := handles error after
      simp only [EStateM.Backtrackable.restore, EStateM.dummyRestore, handled]
      exact ⟨.uncertain (kept ▸ kept' ▸ evaluated) (same.trans started), nofun⟩
    | @failed error after kept'' | @abandoned error after contents kept'' =>
      obtain ⟨surfaced, final, handled, kept', _⟩ := handles error after
      simp only [EStateM.Backtrackable.restore, EStateM.dummyRestore, handled]
      exact ⟨.kept (kept'.trans (kept''.trans kept)), nofun⟩
    | @died after kept'' =>
      obtain ⟨surfaced, final, handled, kept', _⟩ := handles .processDied after
      simp only [EStateM.Backtrackable.restore, EStateM.dummyRestore, handled]
      exact ⟨.kept (kept'.trans (kept''.trans kept)), nofun⟩

end Atomicity

theorem caught_raises {α : Type} {body : Statements α} (caught : body.RaisesOnly Caught Caught) :
    body.RaisesOnly (fun _ => True) Caught := caught.mono (fun _ _ => trivial) fun _ => id

theorem createTable_caught (table : Table) : (Statements.createTable table).RaisesOnly Caught Caught := .execute trivial

theorem setUserVersion_caught (version : Int) : (Statements.setUserVersion version).RaisesOnly Caught Caught :=
  .execute trivial

theorem initializationBody_caught : initializationBody.RaisesOnly Caught Caught :=
  .bind (createTable_caught _) fun _ => .bind (createTable_caught _) fun _ => .bind (createTable_caught _) fun _ =>
    .bind (createTable_caught _) fun _ => .bind (createTable_caught _) fun _ =>
      .bind (setUserVersion_caught _) fun _ => validateStore_caught

theorem Migration.body_caught (migration : Migration) : migration.body.RaisesOnly Caught Caught := by
  refine .bind ?_ fun _ => .bind (createTable_caught _) fun _ => .bind (setUserVersion_caught _) fun _ => ?_
  · cases migration <;> exact validateExactStore_caught ..
  · cases migration <;> exact validateExactStore_caught ..

theorem connectRw_ready {path : String} {call after : Call} (ran : connectRw path call = .ok () after) :
    after.handle = .ready := by
  unfold connectRw at ran
  split at ran <;> cases ran
  rfl

theorem initializeReserved_atomic (path : String) (call : Call) :
    Atomically initializationBody call (initializeReserved path call) ∧
      ∀ nothing after, initializeReserved path call = .ok nothing after → after.handle = .ready := by
  refine tryCatch_atomic (caught_raises initializationBody_caught)
    (.bind (connectRw_keeps path) fun _ => configureDurability_keeps) ?_ fun error => ?_
  · intro after prepared
    simp only [bind, EStateM.bind] at prepared
    split at prepared
    · exact configureDurability_ready (connectRw_ready ‹_›) prepared
    · cases prepared
  · cases error with
    | store | databaseError | osError =>
      exact .after rollbackIfNeeded_keeps fun _ => .after close_keeps fun _ => .throw _
    | _ => exact .throw _

theorem Migration.clauses_reraises {α : Type} (migration : Migration) (error : PyError) :
    Reraises (migration.clauses error : Operation α) := by
  cases error with
  | store | databaseError => exact .finallyClose (migration.fail_reraises _ _)
  | _ => exact .throw _

theorem Migration.finish_atomic (migration : Migration) {call : Call} (ready : call.handle = .ready) :
    Atomically migration.body call (migration.finish call) := by
  have atomic : Atomically migration.body call
      (tryCatch (do configureDurability; attempt true migration.body) migration.clauses call) :=
    (tryCatch_atomic (caught_raises migration.body_caught) configureDurability_keeps
      (fun _ => configureDurability_ready ready) migration.clauses_reraises).1
  rw [Migration.finish, bind_run]
  generalize (tryCatch (do configureDurability; attempt true migration.body) migration.clauses :
    Operation Unit) call = result at atomic ⊢
  cases atomic with
  | committed evaluated => exact .committed evaluated
  | uncertain evaluated started => exact .uncertain evaluated started
  | kept kept => exact .kept kept

theorem autocommit_handle {α : Type} {views : List Database} {script : Statements α} {call after : Call} {value : α}
    (ran : autocommit views script call = .ok value after) : after.handle = call.handle := by
  unfold autocommit at ran
  split at ran <;> cases ran
  rfl

theorem Migration.start_ready (migration : Migration) {path : String} {call after : Call} {nothing : Unit}
    (ran : migration.start path call = .ok nothing after) : after.handle = .ready := by
  change EStateM.tryCatch (do connectRw path; autocommit [] migration.checkVersion) migration.clauses call = _ at ran
  unfold EStateM.tryCatch at ran
  cases opened : (do connectRw path; autocommit [] migration.checkVersion : Operation Unit) call with
  | ok _ between =>
    rw [opened] at ran
    cases ran
    rw [bind_run] at opened
    cases connected : connectRw path call with
    | ok _ inside =>
      rw [connected] at opened
      exact (autocommit_handle opened).trans (connectRw_ready connected)
    | error error inside =>
      rw [connected] at opened
      cases opened
  | error error between =>
    rw [opened] at ran
    have reraises : Reraises (migration.clauses error : Operation Unit) := migration.clauses_reraises error
    obtain ⟨surfaced, final, handled, _⟩ := reraises between
    cases handled.symm.trans ran

end Umbilical.Authority
