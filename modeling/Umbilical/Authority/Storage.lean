import Umbilical.Authority.Ledger

set_option autoImplicit false

/-!
# Ledgers as database files

How a ledger lies in the tables, and what statements read and write there.
-/

namespace Umbilical.Authority

open Python

def Generation.row (generation : Generation) : Row := [.text generation.scope, .integer generation.generation]

def keyRow (key : Text) : Row := [.text key]

def CommandBinding.row (binding : CommandBinding) : Row :=
  [.text binding.executionKey, .text binding.commandSpecHash]

def ExecutionAdmission.row (admission : ExecutionAdmission) : Row :=
  [.text admission.executionKey, .text admission.authorityScope, .integer admission.controllerGeneration]

def exitCodeCell : Option Int → SqlValue
  | none => .null
  | some exitCode => .integer exitCode

theorem exitCodeCell_injective : Function.Injective exitCodeCell := by
  intro left right same
  cases left <;> cases right <;> simp_all [exitCodeCell]

def ExecutionLaunch.row (launch : ExecutionLaunch) : Row :=
  [.text launch.executionKey, .text launch.commandSpecHash, .text launch.authorityScope,
    .integer launch.controllerGeneration, .text launch.state.value, exitCodeCell launch.exitCode]

namespace Ledger

def rows (ledger : Ledger) : Table → List Row
  | .controllerGenerations => ledger.generations.map Generation.row
  | .executionKeys => ledger.keys.map keyRow
  | .executionCommandBindings => ledger.bindings.map CommandBinding.row
  | .executionAdmissions => ledger.admissions.map ExecutionAdmission.row
  | .executionLaunches => ledger.launches.map ExecutionLaunch.row

theorem rows_distinct (ledger : Ledger) (table : Table) : Keyed.Distinct Row.key (ledger.rows table) := by
  cases table with
  | controllerGenerations =>
    exact (Keyed.distinct_map Row.key Generation.row SqlValue.text_injective fun _ => rfl).mpr ledger.one_generation
  | executionKeys => exact (Keyed.distinct_map Row.key keyRow SqlValue.text_injective fun _ => rfl).mpr ledger.one_key
  | executionCommandBindings =>
    exact (Keyed.distinct_map Row.key CommandBinding.row SqlValue.text_injective fun _ => rfl).mpr ledger.one_binding
  | executionAdmissions =>
    exact (Keyed.distinct_map Row.key ExecutionAdmission.row SqlValue.text_injective fun _ => rfl).mpr ledger.one_admission
  | executionLaunches =>
    exact (Keyed.distinct_map Row.key ExecutionLaunch.row SqlValue.text_injective fun _ => rfl).mpr ledger.one_launch

theorem settled_admitted {state : ExecutionLaunchState} {exitCode : Option Int}
    (settled : Settled state exitCode) :
    Table.launchStateAndExitCode (.text state.value) (exitCodeCell exitCode) := by
  cases exitCode with
  | none =>
    cases state with
    | intent | unknown => rfl
    | terminal => exact absurd rfl settled
  | some exitCode =>
    obtain ⟨rfl, _⟩ := settled
    rfl

theorem launch_admits {launch : ExecutionLaunch} (key : launch.executionKey ≠ [])
    (hash : launch.commandSpecHash ≠ []) (scope : launch.authorityScope ≠ [])
    (generation : 0 < launch.controllerGeneration) (settled : Settled launch.state launch.exitCode) :
    Table.executionLaunches.admits launch.row := by
  simp [ExecutionLaunch.row, Table.admits, Table.nonEmptyText, Table.positiveInteger, key, hash, scope,
    generation, settled_admitted settled]

theorem admission_scope_named (ledger : Ledger) {admission : ExecutionAdmission}
    (member : admission ∈ ledger.admissions) : admission.authorityScope ≠ [] := by
  obtain ⟨generation, among, same, _⟩ := ledger.admission_fenced admission member
  exact same ▸ ledger.scope_named generation among

theorem binding_key_named (ledger : Ledger) {binding : CommandBinding} (member : binding ∈ ledger.bindings) :
    binding.executionKey ≠ [] := ledger.key_named _ (ledger.binding_registered binding member)

theorem admission_key_named (ledger : Ledger) {admission : ExecutionAdmission}
    (member : admission ∈ ledger.admissions) : admission.executionKey ≠ [] := by
  obtain ⟨binding, among, same⟩ := ledger.admission_bound admission member
  exact same ▸ ledger.binding_key_named among

theorem rows_admitted (ledger : Ledger) (table : Table) : ∀ row ∈ ledger.rows table, table.admits row := by
  intro row member
  cases table with
  | controllerGenerations =>
    obtain ⟨generation, among, rfl⟩ := List.mem_map.mp member
    simp [Generation.row, Table.admits, Table.nonEmptyText, Table.positiveInteger,
      ledger.scope_named generation among, (ledger.generation_inRange generation among).1]
  | executionKeys =>
    obtain ⟨key, among, rfl⟩ := List.mem_map.mp member
    simp [keyRow, Table.admits, Table.nonEmptyText, ledger.key_named key among]
  | executionCommandBindings =>
    obtain ⟨binding, among, rfl⟩ := List.mem_map.mp member
    simp [CommandBinding.row, Table.admits, Table.nonEmptyText, ledger.hash_named binding among,
      ledger.binding_key_named among]
  | executionAdmissions =>
    obtain ⟨admission, among, rfl⟩ := List.mem_map.mp member
    simp [ExecutionAdmission.row, Table.admits, Table.nonEmptyText, Table.positiveInteger,
      ledger.admission_key_named among, ledger.admission_scope_named among,
      (ledger.admission_inRange admission among).1]
  | executionLaunches =>
    obtain ⟨launch, among, rfl⟩ := List.mem_map.mp member
    have admitted := ledger.launch_admitted launch among
    exact launch_admits (ledger.admission_key_named admitted)
      (ledger.hash_named _ (ledger.launch_bound launch among)) (ledger.admission_scope_named admitted)
      (ledger.admission_inRange _ admitted).1 (ledger.launch_settled launch among)

end Ledger

/-- The schema version that introduced a table. -/
def Table.since : Table → Nat
  | .controllerGenerations => 1
  | .executionKeys => 2
  | .executionCommandBindings => 3
  | .executionAdmissions => 4
  | .executionLaunches => 5

def tables (version : Nat) : List Table := Table.all.filter fun table => table.since ≤ version

theorem mem_tables {version : Nat} {table : Table} : table ∈ tables version ↔ table.since ≤ version := by
  simp [tables, Table.mem_all]

theorem Table.schemaRow_injective : Function.Injective Table.schemaRow := by
  intro left right same
  have names := congrArg SchemaRow.name same
  simp only [Table.schemaRow, SqlValue.text.injEq] at names
  exact Table.name_injective (String.toList_injective names)

theorem Table.schemaRow_not_internal (table : Table) : table.schemaRow.internal = false := by
  cases table <;> decide

/-- A valid store of a schema version, whose tables hold the ledger. -/
structure Database.Holds (version : Nat) (database : Database) (ledger : Ledger) : Prop where
  undamaged : database.undamaged = true
  versioned : database.userVersion = version
  schema : (database.schema.filter fun row => !row.internal).Perm ((tables version).map Table.schemaRow)
  contents : ∀ table : Table, table.since ≤ version →
    database.contents table = some ⟨table.columns, ledger.rows table⟩
  later : ∀ table : Table, version < table.since → ledger.rows table = []

/-- The database file that holds a ledger, as `initialize_new` lays one out. -/
def Ledger.database (ledger : Ledger) : Database where
  undamaged := true
  userVersion := 5
  schema := Table.all.map Table.schemaRow
  contents := fun table => some ⟨table.columns, ledger.rows table⟩
  declared := fun table _ => ⟨table.schemaRow, List.mem_map_of_mem table.mem_all, rfl⟩

theorem Ledger.database_holds (ledger : Ledger) : ledger.database.Holds 5 ledger where
  undamaged := rfl
  versioned := rfl
  schema := by
    have kept : (Table.all.map Table.schemaRow).filter (fun row => !row.internal) = Table.all.map Table.schemaRow := by
      refine List.filter_eq_self.mpr fun row member => ?_
      obtain ⟨table, _, rfl⟩ := List.mem_map.mp member
      rw [table.schemaRow_not_internal]
      rfl
    exact kept ▸ List.Perm.refl _
  contents := fun _ _ => rfl
  later := fun table late => absurd late (by cases table <;> decide)

/-- The database with the tables of the ledger in place of its own. -/
def Database.store (database : Database) (ledger : Ledger) : Database := database.replace ledger.rows

namespace Database.Holds

variable {version : Nat} {database : Database} {ledger : Ledger}

theorem rows (held : database.Holds version ledger) {table : Table} (since : table.since ≤ version) :
    database.rows table = ledger.rows table := by simp [Database.rows, held.contents table since]

theorem declared_iff (held : database.Holds version ledger) {table : Table} :
    table.schemaRow ∈ database.schema ↔ table.since ≤ version := by
  have filtered : table.schemaRow ∈ database.schema ↔
      table.schemaRow ∈ database.schema.filter fun row => !row.internal := by
    simp [List.mem_filter, table.schemaRow_not_internal]
  rw [filtered, held.schema.mem_iff, List.mem_map_of_injective Table.schemaRow_injective, mem_tables]

theorem integrityCheck (held : database.Holds version ledger) : database.integrityCheck = true := by
  simp only [Database.integrityCheck, held.undamaged, Bool.true_and, List.all_eq_true, decide_eq_true_eq]
  intro table _ declared
  rw [held.rows (held.declared_iff.mp declared)]
  exact ⟨ledger.rows_admitted table, ledger.rows_distinct table⟩

theorem find (held : database.Holds version ledger) {ρ : Type} (table : Table) (key : ρ → Text)
    (row : ρ → Row) {records : List ρ} (since : table.since ≤ version)
    (rows : ledger.rows table = records.map row) (keeps : ∀ record, (row record).key = .text (key record))
    (k : Text) : database.find table (.text k) = (Keyed.lookup key records k).map row := by
  rw [Database.find, held.rows since, rows, Keyed.lookup_map Row.key row SqlValue.text_injective keeps]

theorem find_generation (held : database.Holds version ledger) (since : 1 ≤ version) (scope : Text) :
    database.find .controllerGenerations (.text scope) = (ledger.generation scope).map Generation.row :=
  held.find .controllerGenerations Generation.scope Generation.row since rfl (fun _ => rfl) scope

theorem find_key (held : database.Holds version ledger) (since : 2 ≤ version) (key : Text) :
    database.find .executionKeys (.text key) = (ledger.registered key).map keyRow :=
  held.find .executionKeys id keyRow since rfl (fun _ => rfl) key

theorem find_binding (held : database.Holds version ledger) (since : 3 ≤ version) (key : Text) :
    database.find .executionCommandBindings (.text key) = (ledger.binding key).map CommandBinding.row :=
  held.find .executionCommandBindings CommandBinding.executionKey CommandBinding.row since rfl (fun _ => rfl) key

theorem find_admission (held : database.Holds version ledger) (since : 4 ≤ version) (key : Text) :
    database.find .executionAdmissions (.text key) = (ledger.admission key).map ExecutionAdmission.row :=
  held.find .executionAdmissions ExecutionAdmission.executionKey ExecutionAdmission.row since rfl (fun _ => rfl) key

theorem find_launch (held : database.Holds version ledger) (since : 5 ≤ version) (key : Text) :
    database.find .executionLaunches (.text key) = (ledger.launch key).map ExecutionLaunch.row :=
  held.find .executionLaunches ExecutionLaunch.executionKey ExecutionLaunch.row since rfl (fun _ => rfl) key

theorem rows_eq (held : database.Holds 5 ledger) : database.rows = ledger.rows :=
  funext fun table => held.rows (by cases table <;> decide)

theorem store (held : database.Holds 5 ledger) (other : Ledger) : (database.store other).Holds 5 other where
  undamaged := held.undamaged
  versioned := held.versioned
  schema := held.schema
  contents := fun table since => by
    simp only [Database.store, Database.replace, held.contents table since, Option.map_some]
  later := fun table late => absurd late (by cases table <;> decide)

theorem store_self (held : database.Holds 5 ledger) : database.store ledger = database := by
  rw [Database.store, ← held.rows_eq, database.replace_rows]

theorem write (held : database.Holds 5 ledger) {other : Ledger} {table : Table} {rows : List Row}
    (written : other.rows = Function.update ledger.rows table rows) :
    database.write table rows = database.store other := by
  rw [Database.write, held.rows_eq, ← written, Database.store]

end Database.Holds

end Umbilical.Authority
