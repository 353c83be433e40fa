import Umbilical.Authority.Validity

set_option autoImplicit false

/-!
# Migrations are exact and atomic

A migration adds one empty table to a valid store of its source version, or
leaves the store as it is.
-/

namespace Umbilical.Authority

open Python Execution Interleaving

namespace Migration

variable (migration : Migration)

/-- What one migration makes of a store. -/
structure Exactly (before after : Database) : Prop where
  accepted : migration.targetValidator.eval after = .ok () after
  unchanged : ∀ table, table ≠ migration.table → after.contents table = before.contents table
  created : after.contents migration.table = some ⟨migration.table.columns, []⟩

theorem migrate_exactly {database : Database} {ledger : Ledger} (held : database.Holds migration.source ledger) :
    migration.Exactly database (migration.migrate database) where
  accepted := migration.targetValidator_ok.mpr ⟨⟨ledger, migration.migrate_holds held⟩, rfl⟩
  unchanged _ other := migration.migrate_contents other
  created := Function.update_self ..

theorem source_pos : 1 ≤ migration.source := by cases migration <;> decide

/-- The run of a migration that nothing disturbs. -/
theorem run_calm {database : Database} (valid : migration.sourceValidator.eval database = .ok () database) (path : String)
    {call : Call} (durable : call.durable = database) (calm : Calm call.outcomes) :
    ∃ between, migration.start path call = .ok () between ∧ between.durable = database ∧
      ∀ later : Call, later.handle = between.handle → later.durable = database → later.locked = false →
        Calm later.outcomes → ∃ after, migration.finish later = .ok () after ∧
          after.durable = migration.migrate database ∧ migration.Exactly database after.durable := by
  subst durable
  obtain ⟨⟨ledger, held⟩, _⟩ := migration.sourceValidator_ok.mp valid
  obtain ⟨between, started, kept, ready⟩ := migration.start_calm path calm held.versioned
  refine ⟨between, started, kept, fun later same durable unlocked calm => ?_⟩
  obtain ⟨after, finished, migrated⟩ :=
    migration.finish_calm calm (same.trans ready) unlocked ⟨ledger, durable.symm ▸ held⟩
  rw [durable] at migrated
  refine ⟨after, finished, migrated, ?_⟩
  rw [migrated]
  exact migration.migrate_exactly held

end Migration

/-- What the chain of all migrations makes of a store. -/
def Database.migrateAll (database : Database) : Database :=
  Migration.v4ToV5.migrate (Migration.v3ToV4.migrate (Migration.v2ToV3.migrate (Migration.v1ToV2.migrate database)))

theorem Database.Holds.migrateAll {database : Database} {ledger : Ledger} (held : database.Holds 1 ledger) :
    database.migrateAll.Holds 5 ledger :=
  Migration.v4ToV5.migrate_holds (Migration.v3ToV4.migrate_holds (Migration.v2ToV3.migrate_holds
    (Migration.v1ToV2.migrate_holds held)))

/-- The first version knows of generations only. -/
theorem Database.Holds.only_generations {database : Database} {ledger : Ledger} (held : database.Holds 1 ledger) :
    ledger.keys = [] ∧ ledger.bindings = [] ∧ ledger.admissions = [] ∧ ledger.launches = [] :=
  ⟨List.map_eq_nil_iff.mp (held.later .executionKeys (by decide)),
    List.map_eq_nil_iff.mp (held.later .executionCommandBindings (by decide)),
    List.map_eq_nil_iff.mp (held.later .executionAdmissions (by decide)),
    List.map_eq_nil_iff.mp (held.later .executionLaunches (by decide))⟩

variable {isabs : Str → Bool} {sha256 : List UInt8 → Text} {π : Type} [DecidableEq π]

/-- All that a step of a migration does to the durable state, with what it lets be seen. -/
inductive Migration.Ends (migration : Migration) (before : Option Database) :
    Option Database → List (Observation isabs sha256 π) → Prop
  | unchanged {seen : List (Observation isabs sha256 π)} (quiet : Observation.Unmigrated seen) : Ends migration before before seen
  /-- A failure that is reported now is reported as one after the start of the COMMIT. -/
  | migrated {source after : Database} {seen : List (Observation isabs sha256 π)} (there : before = some source)
      (accepted : migration.sourceValidator.eval source = .ok () source) (exactly : migration.Exactly source after)
      (reported : ∀ who task error started, .raised who task error started ∈ seen → started = true) :
      Ends migration before (some after) seen

namespace World

variable {world : World isabs sha256 π} {process : π} {migration : Migration}

theorem Sound.finish_ends (sound : world.Sound world.ledger)
    (migrating : (world.processes process).stage = .migrating migration) (outcomes : List Outcome) :
    migration.Ends world.store (world.step (process, .proceed outcomes)).1.store
      (world.step (process, .proceed outcomes)).2 := by
  simp only [step]
  cases there : world.store with
  | none =>
    simp only [there]
    exact .unchanged unmigrated_nil
  | some durable =>
    simp only [proceed, migrating]
    have ready : (world.callOn process durable outcomes).handle = .ready := sound.connected process migration migrating
    have atomic := migration.finish_atomic ready
    rw [conclude_store]
    generalize migration.finish (world.callOn process durable outcomes) = result at atomic
    have done {database : Database} {nothing : Unit} (ran : migration.body.eval durable = .ok nothing database) :
        migration.sourceValidator.eval durable = .ok () durable ∧ migration.Exactly durable database := by
      obtain ⟨⟨ledger, held⟩, rfl⟩ := migration.body_ok.mp ran
      exact ⟨migration.sourceValidator_ok.mpr ⟨⟨ledger, held⟩, rfl⟩, migration.migrate_exactly held⟩
    cases atomic with
    | committed ran =>
      refine .migrated rfl (done ran).1 (done ran).2 fun who task error started shown => ?_
      cases List.mem_singleton.mp shown
    | uncertain ran begun =>
      refine .migrated rfl (done ran).1 (done ran).2 fun who task error started shown => ?_
      rw [conclude_error_seen] at shown
      split_ifs at shown
      · cases shown
      · cases List.mem_singleton.mp shown
        exact begun
    | @kept error after same =>
      change migration.Ends _ (some after.durable) _
      rw [same]
      refine .unchanged ?_
      rw [conclude_error_seen]
      split_ifs <;> rfl

theorem start_ends (idle : (world.processes process).stage = .idle) (path : String) (outcomes : List Outcome) :
    migration.Ends world.store (world.step (process, .migrate path migration outcomes)).1.store
      (world.step (process, .migrate path migration outcomes)).2 := by
  simp only [step, idle, begin]
  cases there : world.store with
  | none =>
    simp only [there]
    exact .unchanged rfl
  | some durable =>
    have kept := (migration.start_keeps path ((world.become process ⟨.closed, .idle⟩).callOn process durable outcomes)).1
    simp only
    rw [conclude_store, kept]
    exact .unchanged (conclude_unmigrated fun _ => rfl)

/-- The store has the target version, or a later one. -/
def Migrated (migration : Migration) (world : World isabs sha256 π) : Prop :=
  ∃ database version ledger, world.store = some database ∧ database.Holds version ledger ∧ migration.target ≤ version

theorem Sound.migrated_stays (sound : world.Sound world.ledger) (event : π × Event isabs)
    (migrated : world.Migrated migration) : (world.step event).1.Migrated migration := by
  obtain ⟨database, version, ledger, there, held, reached⟩ := migrated
  have grows := (sound.step_stored event).grows
  rw [there] at grows
  obtain ⟨after, version', later, there', held', higher⟩ :=
    grows.version ((Nat.succ_le_succ (Nat.zero_le _)).trans reached) held
  exact ⟨after, version', later, there', held', reached.trans higher⟩

/-- Whoever reports success found the source version. -/
theorem Sound.migrates (sound : world.Sound world.ledger) (event : π × Event isabs)
    (shown : 0 < (world.step event).2.countP fun observed => observed.migration = some migration) :
    ((world.step event).2.countP fun observed => observed.migration = some migration) = 1 ∧
      ¬ world.Migrated migration ∧ (world.step event).1.Migrated migration := by
  rw [countP_eq_some] at shown ⊢
  have stored := sound.step_stored event
  generalize before : world.store = store at stored
  generalize now : (world.step event).1.store = store' at stored
  generalize (world.step event).2 = seen at stored shown ⊢
  have silent (quiet : Observation.Unmigrated seen) : False := by
    rw [quiet] at shown
    cases shown
  cases stored with
  | kept quiet | initialized _ quiet | served _ quiet => exact (silent quiet).elim
  | reserved => cases shown
  | @migrated durable database other _ ran told =>
    rcases told with quiet | single
    · exact (silent quiet).elim
    obtain rfl : other = migration := by
      by_contra different
      rw [single, List.count_singleton, if_neg (by simpa using different)] at shown
      cases shown
    obtain ⟨⟨ledger, held⟩, rfl⟩ := other.body_ok.mp ran
    refine ⟨by rw [single, List.count_singleton_self], ?_, _, _, ledger, now, other.migrate_holds held, le_rfl⟩
    rintro ⟨database, version, ledger', there, held', reached⟩
    obtain rfl := Option.some.inj (there.symm.trans before)
    rw [(held'.unique held).1] at reached
    exact absurd reached (Nat.not_succ_le_self _)

/-- Migrations are exact, the chain of them brings a first store to the current version, a migration
that fails or is cut short leaves the store as it was or as migrated, and one at most reports success. -/
theorem migrations_exact :
    (∀ (migration : Migration) (database : Database), migration.sourceValidator.eval database = .ok () database →
      ∀ (path : String) (call : Call), call.durable = database → Calm call.outcomes →
        ∃ between, migration.start path call = .ok () between ∧ between.durable = database ∧
          ∀ later : Call, later.handle = between.handle → later.durable = database → later.locked = false →
            Calm later.outcomes →
              ∃ after, migration.finish later = .ok () after ∧ after.durable = migration.migrate database ∧
                migration.Exactly database after.durable) ∧
    (∀ (database : Database), validateV1Store.eval database = .ok () database →
      ∃ ledger, database.Holds 1 ledger ∧ database.migrateAll.Holds 5 ledger ∧
        (ledger.keys = [] ∧ ledger.bindings = [] ∧ ledger.admissions = [] ∧ ledger.launches = []) ∧
        ∀ (path : String) (call : Call), call.durable = database.migrateAll → Calm call.outcomes →
          ∃ after, openExisting path [] call = .ok () after) ∧
    (∀ (store : Option Database) (events : List (π × Event isabs)) (process : π) (migration : Migration),
      (∀ path outcomes, ((final step (start store : World isabs sha256 π) events).processes process).stage = .idle →
        migration.Ends (final step (start store : World isabs sha256 π) events).store
          (step (final step (start store : World isabs sha256 π) events) (process, .migrate path migration outcomes)).1.store
          (step (final step (start store : World isabs sha256 π) events) (process, .migrate path migration outcomes)).2) ∧
      (step (final step (start store : World isabs sha256 π) events) (process, .crash)).1.store =
        (final step (start store : World isabs sha256 π) events).store ∧
      ∀ outcomes, ((final step (start store : World isabs sha256 π) events).processes process).stage = .migrating migration →
        migration.Ends (final step (start store : World isabs sha256 π) events).store
          (step (final step (start store : World isabs sha256 π) events) (process, .proceed outcomes)).1.store
          (step (final step (start store : World isabs sha256 π) events) (process, .proceed outcomes)).2) ∧
    ∀ (store : Option Database) (events : List (π × Event isabs)) (migration : Migration),
      (seen step (start store : World isabs sha256 π) events).countP
        (fun observed => observed.migration = some migration) ≤ 1 := by
  refine ⟨fun migration database valid => migration.run_calm valid, fun database valid => ?_,
    fun store events process migration => ⟨fun path outcomes idle => ?_, rfl, fun outcomes migrating => ?_⟩,
    fun store events migration => ?_⟩
  · obtain ⟨⟨ledger, held⟩, _⟩ := validateV1Store_ok.mp valid
    refine ⟨ledger, held, held.migrateAll, held.only_generations, fun path call durable calm => ?_⟩
    obtain ⟨after, opened, _⟩ := openExisting_calm path calm (List.forall_mem_nil _)
      (durable ▸ ⟨ledger, held.migrateAll⟩ : call.durable.Valid)
    exact ⟨after, opened⟩
  · exact start_ends idle path outcomes
  · exact (reachable_sound store events).finish_ends migrating outcomes
  · have once := seen_at_most_once (fun world : World isabs sha256 π => world.Migrated migration)
      (fun observed => observed.migration = some migration) step_sound
      (fun world event sound => sound.migrated_stays event) (fun world event sound => sound.migrates event)
      (start_sound_any store) events
    exact once.1

end World

end Umbilical.Authority
