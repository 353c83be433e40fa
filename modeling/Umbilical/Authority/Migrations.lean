import Umbilical.Authority.Lifecycle

set_option autoImplicit false

/-!
# What the migrations do

Each migration takes a valid store of its source version to a valid store of its
target version that holds the same ledger.
-/

namespace Umbilical.Authority

open Python

section Bodies

variable {database : Database} {ledger : Ledger}

theorem SchemaRow.not_internal_of_named {row : SchemaRow} {table : Table} (named : row.name = .text table.name.toList) :
    row.internal = false := by
  have same := table.schemaRow_not_internal
  simp only [SchemaRow.internal, named]
  exact same

/-- Only the tables of its version have their names in a valid store. -/
theorem Database.Holds.taken_iff {version : Nat} (held : database.Holds version ledger) {table : Table} :
    database.Taken table ↔ table.since ≤ version := by
  constructor
  · rintro ⟨row, member, named⟩
    have among : row ∈ database.schema.filter fun row => !row.internal :=
      List.mem_filter.mpr ⟨member, by rw [SchemaRow.not_internal_of_named named]; rfl⟩
    obtain ⟨other, since, rfl⟩ := List.mem_map.mp (held.schema.mem_iff.mp among)
    obtain rfl : other = table := Table.name_injective (String.toList_injective (SqlValue.text.inj named))
    exact mem_tables.mp since
  · intro since
    exact ⟨table.schemaRow, held.declared_iff.mpr since, rfl⟩

theorem Database.Holds.contents_later {version : Nat} (held : database.Holds version ledger) {table : Table}
    (late : version < table.since) : database.contents table = none := by
  cases present : database.contents table with
  | none => rfl
  | some contents =>
    have := held.taken_iff.mp (database.declared table (by simp [present]))
    omega

namespace Migration

variable (migration : Migration)

theorem table_since : migration.table.since = migration.target := by cases migration <;> rfl

theorem tables_target : tables migration.target = tables migration.source ++ [migration.table] := by
  cases migration <;> decide

/-- The store after the migration. -/
def migrate (database : Database) : Database := (database.withTable migration.table).withVersion migration.target

theorem migrate_holds (held : database.Holds migration.source ledger) :
    (migration.migrate database).Holds migration.target ledger where
  undamaged := held.undamaged
  versioned := rfl
  schema := by
    have new := migration.table.schemaRow_not_internal
    have kept := held.schema
    simp only [migrate, Database.withVersion, Database.withTable, List.filter_append, List.filter_cons, new,
      tables_target, List.map_append]
    exact kept.append_right _
  contents := fun table since => by
    simp only [migrate, Database.withVersion, Database.withTable]
    by_cases same : table = migration.table
    · subst same
      have empty := held.later migration.table (by rw [migration.table_since]; exact Nat.lt_succ_self _)
      rw [Function.update_self, empty]
    · rw [Function.update_of_ne same]
      refine held.contents table ?_
      have other : table ∈ tables migration.source ++ [migration.table] :=
        migration.tables_target ▸ mem_tables.mpr since
      rcases List.mem_append.mp other with before | new
      · exact mem_tables.mp before
      · exact absurd (List.mem_singleton.mp new) same
  later := fun table late => held.later table (lt_trans (Nat.lt_succ_self _) late)

theorem sourceValidator_ok {reached : Database} {nothing : Unit} :
    migration.sourceValidator.eval database = .ok nothing reached ↔
      (∃ ledger, database.Holds migration.source ledger) ∧ reached = database := by
  cases migration with
  | v1ToV2 => exact validateV1Store_ok
  | v2ToV3 => exact validateV2Store_ok
  | v3ToV4 => exact validateV3Store_ok
  | v4ToV5 => exact validateV4Store_ok

theorem targetValidator_ok {reached : Database} {nothing : Unit} :
    migration.targetValidator.eval database = .ok nothing reached ↔
      (∃ ledger, database.Holds migration.target ledger) ∧ reached = database := by
  cases migration with
  | v1ToV2 => exact validateV2Store_ok
  | v2ToV3 => exact validateV3Store_ok
  | v3ToV4 => exact validateV4Store_ok
  | v4ToV5 => exact validateCurrentStore_ok

/-- The transaction commits exactly on a valid store of the source version. -/
theorem body_ok {reached : Database} {nothing : Unit} :
    migration.body.eval database = .ok nothing reached ↔
      (∃ ledger, database.Holds migration.source ledger) ∧ reached = migration.migrate database := by
  simp only [body, Script.bind_ok, sourceValidator_ok, targetValidator_ok, Statements.createTable,
    Statements.setUserVersion, Statements.execute, Script.execute_ok, Option.some.injEq, Prod.mk.injEq,
    Database.createTable]
  constructor
  · rintro ⟨_, _, ⟨held, rfl⟩, _, _, created, _, _, ⟨_, rfl⟩, _, rfl⟩
    split_ifs at created
    cases created
    exact ⟨held, rfl⟩
  · rintro ⟨⟨ledger, held⟩, rfl⟩
    have free : ¬ database.Taken migration.table := by
      rw [held.taken_iff, migration.table_since]
      exact Nat.not_succ_le_self _
    refine ⟨(), _, ⟨⟨ledger, held⟩, rfl⟩, (), database.withTable migration.table, by rw [if_neg free], (), _,
      ⟨trivial, rfl⟩, ⟨ledger, migration.migrate_holds held⟩, rfl⟩

theorem migrate_contents {table : Table} (other : table ≠ migration.table) :
    (migration.migrate database).contents table = database.contents table := Function.update_of_ne other _ _

theorem migrate_empty : (migration.migrate database).rows migration.table = [] := by
  simp [migrate, Database.rows, Database.withVersion, Database.withTable]

end Migration

theorem empty_not_taken (table : Table) : ¬ Database.empty.Taken table := by
  rintro ⟨row, member, _⟩
  cases member

theorem withTable_taken {table other : Table} : (database.withTable table).Taken other ↔
    database.Taken other ∨ table = other := by
  constructor
  · rintro ⟨row, member, named⟩
    rcases List.mem_append.mp member with before | new
    · exact .inl ⟨row, before, named⟩
    · obtain rfl := List.mem_singleton.mp new
      exact .inr (Table.name_injective (String.toList_injective (SqlValue.text.inj named)))
  · rintro (⟨row, member, named⟩ | rfl)
    · exact ⟨row, List.mem_append_left _ member, named⟩
    · exact ⟨table.schemaRow, by simp [Database.withTable], rfl⟩

theorem createTable_eval {table : Table} (free : ¬ database.Taken table) :
    (Statements.createTable table).eval database = .ok () (database.withTable table) := by
  rw [Statements.createTable, Statements.execute, Script.eval_execute, Database.createTable, if_neg free]

/-- A new store holds nothing. -/
theorem initializationBody_eval : initializationBody.eval .empty = .ok () Ledger.empty.database := by
  let created := ((((Database.empty.withTable .controllerGenerations).withTable .executionKeys).withTable
    .executionCommandBindings).withTable .executionAdmissions).withTable .executionLaunches
  have same : created.withVersion 5 = Ledger.empty.database := by
    have contents : created.contents = Ledger.empty.database.contents := by
      funext table
      cases table <;> rfl
    simp only [Database.withVersion, contents]
    rfl
  have valid : validateStore.eval (created.withVersion 5) = .ok () (created.withVersion 5) :=
    validateStore_ok.mpr ⟨⟨.empty, same ▸ Ledger.database_holds .empty⟩, rfl⟩
  unfold initializationBody
  rw [Script.eval_bind, createTable_eval (empty_not_taken _)]
  simp only
  rw [Script.eval_bind, createTable_eval (by simp [withTable_taken, empty_not_taken])]
  simp only
  rw [Script.eval_bind, createTable_eval (by simp [withTable_taken, empty_not_taken])]
  simp only
  rw [Script.eval_bind, createTable_eval (by simp [withTable_taken, empty_not_taken])]
  simp only
  rw [Script.eval_bind, createTable_eval (by simp [withTable_taken, empty_not_taken])]
  simp only [Script.eval_bind, Statements.setUserVersion, Statements.execute, Script.eval_execute]
  rw [← same]
  exact valid

end Bodies

end Umbilical.Authority
