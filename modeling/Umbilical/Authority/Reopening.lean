import Umbilical.Authority.Migrations
import Umbilical.Authority.Calm

set_option autoImplicit false

/-!
# Opening a store that others are using

`open_existing` validates statement by statement, outside any transaction. As
long as every statement sees a valid store, whichever, the store is opened.
-/

namespace Umbilical.Authority

open Python

def Database.Valid (database : Database) : Prop := ∃ ledger, database.Holds 5 ledger

section Validators

theorem Database.Valid.exact {database : Database} (valid : database.Valid) : database.Exact 5 :=
  Database.exact_iff.mpr valid

theorem passes_succeeds {view : Database → Prop} {condition : Prop} [Decidable condition] {error : PyError}
    (passes : ¬ condition) : (Script.lift (raiseIf condition error) : Statements Unit).Succeeds view fun _ => True :=
  .lift (raiseIf_ok.mpr passes : raiseIf condition error = .ok ()) trivial

theorem validateTable_succeeds (table : Table) (message : String) :
    (validateTable table message table.joins table.check).Succeeds Database.Valid fun _ => True := by
  have checked {database : Database} (valid : database.Valid) : database.Checked table :=
    valid.exact.checked table (by cases table <;> decide)
  refine .bind _ (.bind (· = table.columns) (.query fun database valid => ?_) fun columns same =>
    passes_succeeds (by simp [same])) fun _ _ => ?_
  · refine ⟨_, rfl, ?_⟩
    rw [(checked valid).present]
    rfl
  · refine .bind (fun rows => (rows.forM fun row => table.check row.1 row.2) = .ok ())
      (.query fun database valid => ?_) fun rows passed => .lift passed trivial
    obtain ⟨present, joins, rows⟩ := checked valid
    refine ⟨_, if_pos ⟨by simp [present], joins⟩, forM_ok.mpr fun row member => ?_⟩
    obtain ⟨original, among, rfl⟩ := List.mem_map.mp member
    exact rows original among

theorem readSchemaVersion_succeeds : readSchemaVersion.Succeeds Database.Valid fun version => version = 5 :=
  .translate <| .query fun _ valid => ⟨_, rfl, valid.exact.versioned⟩

/-- The objects `_validate_current_store` expects. -/
theorem currentObjects_perm : [Table.controllerGenerations, .executionAdmissions, .executionCommandBindings,
    .executionKeys, .executionLaunches].Perm (tables 5) := by decide

theorem validateCurrentStore_succeeds : validateCurrentStore.Succeeds Database.Valid fun _ => True := by
  refine .translate <| .bind (· = true) (.query fun _ valid => ⟨_, rfl, valid.exact.sound⟩) fun sound same => ?_
  refine .bind _ (passes_succeeds (by simp [same])) fun _ _ => .bind _ readSchemaVersion_succeeds fun version same => ?_
  refine .bind _ (passes_succeeds (by simp [same])) fun _ _ => ?_
  refine .bind (fun rows => checkSchema [.controllerGenerations, .executionAdmissions, .executionCommandBindings,
    .executionKeys, .executionLaunches] rows = .ok ()) (.query fun database valid => ?_) fun rows passed =>
    .bind (fun _ => True) (.lift passed trivial) fun _ _ => ?_
  · refine ⟨_, rfl, (checkSchema_ok (by decide)).mpr ?_⟩
    have ordered := (List.perm_insertionSort (fun left right : SchemaRow => left.before right) database.schema).filter
      fun row => !row.internal
    exact (ordered.trans valid.exact.schema).trans (currentObjects_perm.map _).symm
  · exact .bind _ (validateTable_succeeds .controllerGenerations _) fun _ _ =>
      .bind _ (validateTable_succeeds .executionKeys _) fun _ _ =>
      .bind _ (validateTable_succeeds .executionCommandBindings _) fun _ _ =>
      .bind _ (validateTable_succeeds .executionAdmissions _) fun _ _ =>
      validateTable_succeeds .executionLaunches _

theorem validateStore_succeeds : validateStore.Succeeds Database.Valid fun _ => True := by
  refine .bind _ readSchemaVersion_succeeds fun version same => ?_
  subst same
  exact validateCurrentStore_succeeds

end Validators

section Calls

variable {call : Call}

theorem connectRw_calm (path : String) (calm : Calm call.outcomes) : ∃ after, connectRw path call = .ok () after ∧
    after.durable = call.durable ∧ after.handle = .ready ∧ Calm after.outcomes ∧ after.locked = call.locked ∧
    after.commitStarted = call.commitStarted := by
  unfold connectRw
  rw [calm.headD]
  exact ⟨_, rfl, rfl, rfl, calm.tail, rfl, rfl⟩

theorem pragma_calm (ignored : Except PyError Unit) (calm : Calm call.outcomes) :
    pragma ignored call = .ok () (call.after call.transaction) := by
  unfold pragma
  rw [calm.headD]

theorem configureDurability_calm (calm : Calm call.outcomes) (ready : call.handle = .ready) :
    ∃ after, configureDurability call = .ok () after ∧ after.durable = call.durable ∧ after.handle = .ready ∧
      Calm after.outcomes ∧ after.locked = call.locked ∧ after.commitStarted = call.commitStarted := by
  unfold configureDurability
  simp only [bind, EStateM.bind, pragma_calm _ calm]
  rw [pragma_calm _ calm.tail]
  simp only
  rw [pragma_calm _ calm.tail.tail]
  exact ⟨_, rfl, rfl, by simp [Call.after, Call.transaction, ready, Handle.ready], calm.tail.tail.tail, rfl, rfl⟩

theorem autocommit_calm {α : Type} {good : α → Prop} {view : Database → Prop} {script : Statements α}
    (succeeds : script.Succeeds view good) (calm : Calm call.outcomes) {views : List Database}
    (among : ∀ database ∈ views, view database) (last : view call.durable) :
    ∃ value after, autocommit views script call = .ok value after ∧ good value ∧ Calm after.outcomes ∧
      after = { call with outcomes := after.outcomes } := by
  obtain ⟨value, holds, returned, rest⟩ := succeeds.observe calm among last
  unfold autocommit
  generalize ran : script.observe call.outcomes views call.durable = ending at returned rest
  obtain ⟨ending, outcomes⟩ := ending
  cases returned
  exact ⟨value, _, rfl, holds, rest, rfl⟩

/-- A valid store is opened, whatever valid stores its validation sees. -/
theorem openExisting_calm (path : String) (calm : Calm call.outcomes) {views : List Database}
    (among : ∀ database ∈ views, database.Valid) (last : call.durable.Valid) :
    ∃ after, openExisting path views call = .ok () after ∧ after.durable = call.durable ∧ after.handle = .ready := by
  obtain ⟨connected, ran, kept, ready, calm, _⟩ := connectRw_calm path calm
  obtain ⟨_, validated, ran', _, calm, same⟩ := autocommit_calm validateStore_succeeds calm among (kept ▸ last)
  obtain ⟨opened, ran'', kept', ready', _⟩ := configureDurability_calm calm (by rw [same]; exact ready)
  refine ⟨opened, ?_, ?_, ready'⟩
  · change EStateM.tryCatch (do connectRw path; autocommit views validateStore; configureDurability) _ call = _
    simp only [EStateM.tryCatch, bind, EStateM.bind, ran, ran', ran'']
  · rw [kept', same]
    exact kept

/-- A valid store of the source version is migrated. -/
theorem Migration.start_calm (migration : Migration) (path : String) (calm : Calm call.outcomes)
    (versioned : call.durable.userVersion = migration.source) : ∃ after, migration.start path call = .ok () after ∧
      after.durable = call.durable ∧ after.handle = .ready := by
  obtain ⟨connected, ran, kept, ready, calm, _⟩ := connectRw_calm path calm
  let view (database : Database) : Prop := database.userVersion = migration.source
  have succeeds : migration.checkVersion.Succeeds view fun _ => True :=
    .bind (· = (migration.source : Int)) (.translate <| .query fun _ same => ⟨_, rfl, same⟩) fun version same =>
      passes_succeeds (by simp [same])
  have current : view connected.durable := by rwa [kept]
  obtain ⟨_, checked, ran', _, calm, same⟩ :=
    autocommit_calm succeeds calm (fun _ member => nomatch member : ∀ database ∈ [], view database) current
  refine ⟨checked, ?_, by rw [same]; exact kept, by rw [same]; exact ready⟩
  change EStateM.tryCatch (do connectRw path; autocommit [] migration.checkVersion) _ call = _
  simp only [EStateM.tryCatch, bind, EStateM.bind, ran, ran']

theorem Migration.finish_calm (migration : Migration) (calm : Calm call.outcomes) (ready : call.handle = .ready)
    (unlocked : call.locked = false) (held : ∃ ledger, call.durable.Holds migration.source ledger) :
    ∃ after, migration.finish call = .ok () after ∧ after.durable = migration.migrate call.durable := by
  obtain ⟨configured, ran, kept, ready, calm, locked, _⟩ := configureDurability_calm calm ready
  have body : migration.body.eval configured.durable = .ok () (migration.migrate call.durable) := by
    rw [kept]
    exact migration.body_ok.mpr ⟨held, rfl⟩
  have attempted : CalmlyAttempted migration.body configured (attempt true migration.body configured) :=
    attempt_calm calm (ready ▸ Handle.ready_usable) true
  generalize outcome : attempt true migration.body configured = result at attempted
  cases attempted with
  | @committed nothing after evaluated _ =>
    refine ⟨after.closed, ?_, ?_⟩
    · unfold Migration.finish
      rw [bind_run]
      have tried : (tryCatch (do configureDurability; attempt true migration.body) migration.clauses : Operation Unit) call =
          .ok nothing after := by
        change EStateM.tryCatch (do configureDurability; attempt true migration.body) _ call = _
        simp only [EStateM.tryCatch, bind, EStateM.bind, ran, outcome]
      rw [tried]
      rfl
    · rw [body] at evaluated
      injection evaluated with _ same
      exact same.symm
  | raised evaluated => cases evaluated.symm.trans body
  | blocked blocked =>
    rcases blocked with inside | other
    · simp [Call.transaction, ready, Handle.ready] at inside
    · rw [locked, unlocked] at other
      cases other

end Calls

end Umbilical.Authority
