import Umbilical.Authority.Storage
import Mathlib.Data.List.Perm.Subperm
import Mathlib.Tactic.SplitIfs

set_option autoImplicit false

/-!
# What the validators accept

`_validate_exact_store` passes if and only if the file holds a ledger.
-/

namespace Umbilical.Authority

open Python

section Values

theorem validatePersistedScope_ok {cell : SqlValue} {scope : Text} :
    validatePersistedScope cell = .ok scope ↔ cell = .text scope ∧ scope ≠ [] := by
  cases cell <;> simp [validatePersistedScope]
  split_ifs with empty <;> simp [empty]
  rintro rfl
  exact empty

theorem validatePersistedExecutionKey_ok {cell : SqlValue} {key : Text} :
    validatePersistedExecutionKey cell = .ok key ↔ cell = .text key ∧ key ≠ [] := by
  cases cell <;> simp [validatePersistedExecutionKey]
  split_ifs with empty <;> simp [empty]
  rintro rfl
  exact empty

theorem validatePersistedCommandSpecHash_ok {cell : SqlValue} {hash : Text} :
    validatePersistedCommandSpecHash cell = .ok hash ↔ cell = .text hash ∧ hash ≠ [] := by
  cases cell <;> simp [validatePersistedCommandSpecHash]
  split_ifs with empty <;> simp [empty]
  rintro rfl
  exact empty

theorem validatePersistedGeneration_ok {cell : SqlValue} {generation : Int} :
    validatePersistedGeneration cell = .ok generation ↔ cell = .integer generation ∧ InRange generation := by
  cases cell <;> simp [validatePersistedGeneration]
  rename_i value
  split_ifs with low high
  all_goals simp only [false_iff, Except.ok.injEq, not_and, InRange]
  · rintro rfl
    omega
  · rintro rfl
    omega
  · constructor
    · rintro rfl
      exact ⟨rfl, by omega, by omega⟩
    · exact fun both => both.1

theorem validatePersistedLaunchState_ok {cell : SqlValue} {state : ExecutionLaunchState} :
    validatePersistedLaunchState cell = .ok state ↔ cell = .text state.value := by
  cases cell with
  | text text =>
    simp only [validatePersistedLaunchState, SqlValue.text.injEq]
    split_ifs with intent unknown terminal
    · rw [intent, ExecutionLaunchState.value_injective.eq_iff, Except.ok.injEq]
    · rw [unknown, ExecutionLaunchState.value_injective.eq_iff, Except.ok.injEq]
    · rw [terminal, ExecutionLaunchState.value_injective.eq_iff, Except.ok.injEq]
    · simp only [false_iff]
      rintro rfl
      cases state with
      | intent => exact intent rfl
      | unknown => exact unknown rfl
      | terminal => exact terminal rfl
  | null | integer | real | blob => simp [validatePersistedLaunchState]

theorem validatePersistedExitCode_ok {cell : SqlValue} {state : ExecutionLaunchState} {exitCode : Option Int} :
    validatePersistedExitCode cell state = .ok exitCode ↔ cell = exitCodeCell exitCode ∧ Settled state exitCode := by
  cases state with
  | intent | unknown => cases cell <;> cases exitCode <;> simp [validatePersistedExitCode, exitCodeCell, Settled]
  | terminal =>
    cases cell <;> cases exitCode <;> simp [validatePersistedExitCode, exitCodeCell, Settled]
    all_goals split_ifs with outside
    all_goals simp
    · rintro rfl
      omega
    · rintro rfl
      omega

end Values

section Checks

variable {row : Row} {found : List (Option Row)}

variable (found) in
theorem checkControllerGeneration_ok : checkControllerGeneration row found = .ok () ↔
    (∃ scope, row.cell 0 = .text scope ∧ scope ≠ []) ∧
      ∃ generation, row.cell 1 = .integer generation ∧ InRange generation := by
  simp only [checkControllerGeneration, bind_eq_ok, validatePersistedScope_ok, validatePersistedGeneration_ok,
    pure, Except.pure, and_true, exists_and_right]

variable (found) in
theorem checkExecutionKey_ok : checkExecutionKey row found = .ok () ↔
    ∃ key, row.cell 0 = .text key ∧ key ≠ [] := by
  simp only [checkExecutionKey, bind_eq_ok, validatePersistedExecutionKey_ok, pure, Except.pure, and_true]

theorem checkExecutionCommandBinding_ok : checkExecutionCommandBinding row found = .ok () ↔
    (∃ key, row.cell 0 = .text key ∧ key ≠ []) ∧ (∃ hash, row.cell 1 = .text hash ∧ hash ≠ []) ∧
      joined found 0 0 ≠ .null := by
  simp only [checkExecutionCommandBinding, bind_eq_ok, validatePersistedExecutionKey_ok,
    validatePersistedCommandSpecHash_ok, raiseIf_ok, exists_and_right, ne_eq]

theorem checkExecutionAdmission_ok : checkExecutionAdmission row found = .ok () ↔
    (∃ key, row.cell 0 = .text key ∧ key ≠ []) ∧ (∃ scope, row.cell 1 = .text scope ∧ scope ≠ []) ∧
      ∃ generation, (row.cell 2 = .integer generation ∧ InRange generation) ∧
        joined found 0 0 ≠ .null ∧ joined found 1 0 ≠ .null ∧ joined found 2 1 ≠ .null ∧
        ∃ current, (joined found 2 1 = .integer current ∧ InRange current) ∧ generation ≤ current := by
  simp only [checkExecutionAdmission, bind_eq_ok, validatePersistedExecutionKey_ok, validatePersistedScope_ok,
    validatePersistedGeneration_ok, raiseIf_ok, exists_and_right, exists_const, gt_iff_lt, not_lt, ne_eq]

theorem checkExecutionLaunch_ok : checkExecutionLaunch row found = .ok () ↔
    ∃ key, (row.cell 0 = .text key ∧ key ≠ []) ∧ ∃ hash, (row.cell 1 = .text hash ∧ hash ≠ []) ∧
      ∃ scope, (row.cell 2 = .text scope ∧ scope ≠ []) ∧
      ∃ generation, (row.cell 3 = .integer generation ∧ InRange generation) ∧
      ∃ state : ExecutionLaunchState, row.cell 4 = .text state.value ∧
      (∃ exitCode, row.cell 5 = exitCodeCell exitCode ∧ Settled state exitCode) ∧
        joined found 0 0 ≠ .null ∧
        (¬ (joined found 1 1 = .null ∨ joined found 1 1 ≠ .text hash)) ∧
        (¬ (joined found 2 1 = .null ∨ joined found 2 2 = .null)) ∧
        (¬ (joined found 2 1 ≠ .text scope ∨ joined found 2 2 ≠ .integer generation)) ∧
        joined found 3 1 ≠ .null ∧
        ∃ current, (joined found 3 1 = .integer current ∧ InRange current) ∧ generation ≤ current ∧
          joined found 0 0 = .text key := by
  simp only [checkExecutionLaunch, bind_eq_ok, validatePersistedExecutionKey_ok, validatePersistedScope_ok,
    validatePersistedCommandSpecHash_ok, validatePersistedGeneration_ok, validatePersistedLaunchState_ok,
    validatePersistedExitCode_ok, raiseIf_ok, exists_and_right, exists_const, gt_iff_lt, not_lt, ne_eq, not_not]

end Checks

section Tables

/-- The joins of each validator, and its check of a row. -/
def Table.joins : Table → List (Table × Nat)
  | .controllerGenerations | .executionKeys => []
  | .executionCommandBindings => [(.executionKeys, 0)]
  | .executionAdmissions => [(.executionKeys, 0), (.executionCommandBindings, 0), (.controllerGenerations, 1)]
  | .executionLaunches =>
      [(.executionKeys, 0), (.executionCommandBindings, 0), (.executionAdmissions, 0),
        (.controllerGenerations, 2)]

def Table.check : Table → Row → List (Option Row) → Except PyError Unit
  | .controllerGenerations => checkControllerGeneration
  | .executionKeys => checkExecutionKey
  | .executionCommandBindings => checkExecutionCommandBinding
  | .executionAdmissions => checkExecutionAdmission
  | .executionLaunches => checkExecutionLaunch

def Database.joinedTo (database : Database) (row : Row) (joins : List (Table × Nat)) : List (Option Row) :=
  joins.map fun join => if row.cell join.2 = .null then none else database.find join.1 (row.cell join.2)

structure Database.Checked (database : Database) (table : Table) : Prop where
  present : database.contents table = some ⟨table.columns, database.rows table⟩
  joined : ∀ join ∈ table.joins, (database.contents join.1).isSome
  checked : ∀ row ∈ database.rows table, table.check row (database.joinedTo row table.joins) = .ok ()

theorem forM_ok {α : Type} {items : List α} {check : α → Except PyError Unit} {nothing : Unit} :
    forM items check = .ok nothing ↔ ∀ item ∈ items, check item = .ok () := by
  induction items with
  | nil => simp [pure, Except.pure]
  | cons item rest ih => simp [bind_eq_ok, ih, Unique.exists_iff]

theorem Table.columns_ne_nil (table : Table) : table.columns ≠ [] := by cases table <;> simp [Table.columns]

theorem validateTable_ok {table : Table} {message : String} {database reached : Database} {nothing : Unit} :
    (validateTable table message table.joins table.check).eval database = .ok nothing reached ↔
      database.Checked table ∧ reached = database := by
  simp only [validateTable, validateColumns, Statements.tableInfo, Statements.selectAll, Statements.query,
    Script.bind_ok, Script.query_ok, Script.lift_ok, raiseIf_ok, Option.some.injEq]
  constructor
  · rintro ⟨_, _, ⟨_, _, ⟨rfl, rfl⟩, columns, rfl⟩, rows, _, ⟨selected, rfl⟩, checked, rfl⟩
    split_ifs at selected with tables
    obtain ⟨present, joins⟩ := tables
    obtain ⟨contents, found⟩ := Option.isSome_iff_exists.mp present
    cases selected
    refine ⟨⟨?_, joins, ?_⟩, rfl⟩
    · simp only [found, Option.map_some, Option.getD_some, ne_eq, not_not] at columns
      simp [found, Database.rows, ← columns]
    · simpa [forM_ok, Database.joinedTo] using checked
  · rintro ⟨⟨present, joins, checked⟩, rfl⟩
    refine ⟨(), reached, ⟨_, reached, ⟨rfl, rfl⟩, by simp [present], rfl⟩, _, reached,
      ⟨if_pos ⟨by simp [present], joins⟩, rfl⟩, ?_, rfl⟩
    simpa [forM_ok, Database.joinedTo] using checked

end Tables

section Schema

def Table.nameCell (table : Table) : SqlValue := .text table.name.toList

theorem Table.nameCell_injective : Function.Injective Table.nameCell := by
  intro left right same
  exact Table.name_injective (String.toList_injective (SqlValue.text_injective same))

theorem checkSchemaRow_ok {expected : List Table} {seen : List SqlValue} {row : SchemaRow} {nothing : Unit} :
    checkSchemaRow expected seen row = .ok nothing ↔ ∃ table ∈ expected, row = table.schemaRow ∧ row.name ∉ seen := by
  unfold checkSchemaRow
  cases found : expected.find? fun table => row.name = .text table.name.toList with
  | none =>
    simp only [reduceCtorEq, false_iff, not_exists, not_and]
    rintro table member rfl
    exact absurd (decide_eq_true rfl) (List.find?_eq_none.mp found table member)
  | some table =>
    have member := List.mem_of_find?_eq_some found
    have name : row.name = table.nameCell := by simpa [Table.nameCell] using List.find?_some found
    simp only [bind_eq_ok, raiseIf_ok, exists_const, not_or, ne_eq, not_not]
    constructor
    · rintro ⟨⟨type, tblName, _, fresh⟩, sql⟩
      refine ⟨table, member, ?_, fresh⟩
      obtain ⟨_, _, _, _⟩ := row
      cases type
      cases sql
      cases name
      cases tblName
      rfl
    · rintro ⟨other, among, rfl, fresh⟩
      obtain rfl : other = table := Table.nameCell_injective name
      exact ⟨⟨rfl, rfl, by simp [Table.schemaRow, isText], fresh⟩, rfl⟩

theorem checkSchemaRows_ok {expected : List Table} {seen names : List SqlValue} {rows : List SchemaRow} :
    checkSchemaRows expected seen rows = .ok names ↔ ∃ tables : List Table, rows = tables.map Table.schemaRow ∧
      tables.Nodup ∧ (∀ table ∈ tables, table ∈ expected ∧ table.nameCell ∉ seen) ∧
      names = (tables.map Table.nameCell).reverse ++ seen := by
  induction rows generalizing seen with
  | nil =>
    simp only [checkSchemaRows, Except.ok.injEq]
    constructor
    · rintro rfl
      exact ⟨[], rfl, List.nodup_nil, by simp, rfl⟩
    · rintro ⟨tables, none, _, _, rfl⟩
      obtain rfl := List.map_eq_nil_iff.mp none.symm
      rfl
  | cons row rest ih =>
    simp only [checkSchemaRows, bind_eq_ok, checkSchemaRow_ok, ih, exists_const]
    constructor
    · rintro ⟨⟨table, member, rfl, fresh⟩, tables, rfl, distinct, each, rfl⟩
      refine ⟨table :: tables, rfl, List.nodup_cons.mpr ⟨?_, distinct⟩, ?_, by simp [Table.schemaRow, Table.nameCell]⟩
      · exact fun again => (each table again).2 (List.mem_cons_self ..)
      · rintro other (_ | ⟨_, among⟩)
        · exact ⟨member, fresh⟩
        · exact ⟨(each other among).1, fun seenBefore => (each other among).2 (List.mem_cons_of_mem _ seenBefore)⟩
    · rintro ⟨tables, same, distinct, each, rfl⟩
      cases tables with
      | nil => cases same
      | cons table tables =>
        obtain ⟨rfl, rfl⟩ := List.cons.inj same
        obtain ⟨fresh, distinct⟩ := List.nodup_cons.mp distinct
        refine ⟨⟨table, (each table (by simp)).1, rfl, (each table (by simp)).2⟩, tables, rfl, distinct, ?_, ?_⟩
        · intro other among
          refine ⟨(each other (List.mem_cons_of_mem _ among)).1, ?_⟩
          simp only [List.mem_cons, not_or]
          refine ⟨fun same => ?_, (each other (List.mem_cons_of_mem _ among)).2⟩
          exact fresh (Table.nameCell_injective same ▸ among)
        · simp [Table.schemaRow, Table.nameCell]

theorem exists_map_eq {α β : Type} (f : α → β) (P : α → Prop) {items : List β}
    (each : ∀ item ∈ items, ∃ origin, f origin = item ∧ P origin) :
    ∃ origins : List α, origins.map f = items ∧ ∀ origin ∈ origins, P origin := by
  induction items with
  | nil => exact ⟨[], rfl, by simp⟩
  | cons item rest ih =>
    obtain ⟨origin, rfl, holds⟩ := each item (by simp)
    obtain ⟨origins, rfl, others⟩ := ih fun item member => each item (List.mem_cons_of_mem _ member)
    exact ⟨origin :: origins, rfl, by simpa using ⟨holds, others⟩⟩

theorem checkSchema_ok {expected : List Table} (distinct : expected.Nodup) {rows : List SchemaRow} {nothing : Unit} :
    checkSchema expected rows = .ok nothing ↔
      (rows.filter fun row => !row.internal).Perm (expected.map Table.schemaRow) := by
  simp only [checkSchema, bind_eq_ok, raiseIf_ok, checkSchemaRows_ok, exists_const, ne_eq, not_not]
  constructor
  · rintro ⟨length, _, ⟨tables, same, once, each, rfl⟩, _⟩
    rw [same] at length ⊢
    have subset : tables ⊆ expected := fun table member => (each table member).1
    have perm := (List.subperm_of_subset once subset).perm_of_length_le (by simp at length; omega)
    exact perm.map _
  · intro perm
    obtain ⟨tables, same, _⟩ := exists_map_eq Table.schemaRow (· ∈ expected)
      fun row member => by simpa [and_comm] using perm.mem_iff.mp member
    rw [← same] at perm ⊢
    have tablesPerm := (List.map_perm_map_iff Table.schemaRow_injective).mp perm
    refine ⟨by simpa using tablesPerm.length_eq, _, ⟨tables, rfl, tablesPerm.nodup_iff.mpr distinct,
      fun table member => ⟨tablesPerm.mem_iff.mp member, by simp⟩, rfl⟩, ?_⟩
    constructor
    · intro table member
      simpa [Table.nameCell] using ⟨table, tablesPerm.mem_iff.mpr member, rfl⟩
    · intro name member
      simp only [List.append_nil, List.mem_reverse, List.mem_map] at member
      obtain ⟨table, among, rfl⟩ := member
      exact ⟨table, tablesPerm.mem_iff.mp among, rfl⟩

end Schema

/-- What `_validate_exact_store` asks of a file, before anything is made of its rows. -/
structure Database.Exact (version : Nat) (database : Database) : Prop where
  sound : database.integrityCheck = true
  versioned : database.userVersion = version
  schema : (database.schema.filter fun row => !row.internal).Perm ((tables version).map Table.schemaRow)
  checked : ∀ table : Table, table.since ≤ version → database.Checked table

theorem runIf_ok {flag : Bool} {table : Table} {message : String} {script : Statements Unit}
    (shape : script = validateTable table message table.joins table.check) {database reached : Database}
    {nothing : Unit} :
    (runIf flag script).eval database = .ok nothing reached ↔
      (flag = true → database.Checked table) ∧ reached = database := by
  cases flag with
  | true => simp [runIf, shape, validateTable_ok]
  | false => simp [runIf, eq_comm]

theorem tables_nodup (version : Nat) : (tables version).Nodup := List.Nodup.filter _ (by decide)

theorem validateExactStore_ok {version : Nat} {expected : List Table} (objects : expected.Perm (tables version))
    (released : 1 ≤ version) {database reached : Database} {nothing : Unit} :
    (validateExactStore version expected (2 ≤ version) (3 ≤ version) (4 ≤ version) (5 ≤ version)).eval database =
        .ok nothing reached ↔ database.Exact version ∧ reached = database := by
  have ordered : ((database.schema.insertionSort fun left right => left.before right).filter
      fun row => !row.internal).Perm (database.schema.filter fun row => !row.internal) :=
    (List.perm_insertionSort _ _).filter _
  have distinct : expected.Nodup := objects.nodup_iff.mpr (tables_nodup version)
  have generations {before after : Database} {nothing : Unit} :
      validateControllerGenerationsTable.eval before = .ok nothing after ↔
        before.Checked .controllerGenerations ∧ after = before := validateTable_ok
  have keys : validateExecutionKeysTable = validateTable .executionKeys _ _ _ := rfl
  have bindings : validateExecutionCommandBindingsTable = validateTable .executionCommandBindings _ _ _ := rfl
  have admissions : validateExecutionAdmissionsTable = validateTable .executionAdmissions _ _ _ := rfl
  have launches : validateExecutionLaunchesTable = validateTable .executionLaunches _ _ _ := rfl
  simp only [validateExactStore, Script.translate_ok, Script.bind_ok, Statements.integrityCheck, readSchemaVersion,
    Statements.userVersion, Statements.selectSchema, Statements.query, Script.query_ok, Script.lift_ok, raiseIf_ok,
    Option.some.injEq, checkSchema_ok distinct, generations, runIf_ok keys, runIf_ok bindings, runIf_ok admissions,
    runIf_ok launches]
  constructor
  · rintro ⟨_, _, ⟨rfl, rfl⟩, _, _, ⟨sound, rfl⟩, _, _, ⟨rfl, rfl⟩, _, _, ⟨versioned, rfl⟩, _, _, ⟨rfl, rfl⟩, _, _,
      ⟨schema, rfl⟩, _, _, ⟨generation, rfl⟩, _, _, ⟨key, rfl⟩, _, _, ⟨binding, rfl⟩, _, _, ⟨admission, rfl⟩,
      launch, rfl⟩
    refine ⟨⟨by simpa using sound, by simpa using versioned, ?_, ?_⟩, rfl⟩
    · exact (ordered.symm.trans schema).trans (objects.map _)
    · intro table since
      cases table with
      | controllerGenerations => exact generation
      | executionKeys => exact key (decide_eq_true since)
      | executionCommandBindings => exact binding (decide_eq_true since)
      | executionAdmissions => exact admission (decide_eq_true since)
      | executionLaunches => exact launch (decide_eq_true since)
  · rintro ⟨⟨sound, versioned, schema, checked⟩, rfl⟩
    have since (table : Table) (flag : decide (table.since ≤ version) = true) := checked table (of_decide_eq_true flag)
    exact ⟨_, _, ⟨rfl, rfl⟩, (), _, ⟨by simp [sound], rfl⟩, _, _, ⟨rfl, rfl⟩, (), _, ⟨by simp [versioned], rfl⟩, _, _,
      ⟨rfl, rfl⟩, (), _, ⟨(ordered.trans schema).trans (objects.map _).symm, rfl⟩, (), _,
      ⟨checked .controllerGenerations released, rfl⟩, (), _, ⟨since .executionKeys, rfl⟩, (), _,
      ⟨since .executionCommandBindings, rfl⟩, (), _, ⟨since .executionAdmissions, rfl⟩,
      since .executionLaunches, rfl⟩

/-! What a row's joins find. -/

theorem joinedTo_binding (database : Database) (binding : CommandBinding) :
    database.joinedTo binding.row Table.executionCommandBindings.joins =
      [database.find .executionKeys (.text binding.executionKey)] := by
  simp [Database.joinedTo, Table.joins, CommandBinding.row, Row.cell]

theorem joinedTo_admission (database : Database) (admission : ExecutionAdmission) :
    database.joinedTo admission.row Table.executionAdmissions.joins =
      [database.find .executionKeys (.text admission.executionKey),
        database.find .executionCommandBindings (.text admission.executionKey),
        database.find .controllerGenerations (.text admission.authorityScope)] := by
  simp [Database.joinedTo, Table.joins, ExecutionAdmission.row, Row.cell]

theorem joinedTo_launch (database : Database) (launch : ExecutionLaunch) :
    database.joinedTo launch.row Table.executionLaunches.joins =
      [database.find .executionKeys (.text launch.executionKey),
        database.find .executionCommandBindings (.text launch.executionKey),
        database.find .executionAdmissions (.text launch.executionKey),
        database.find .controllerGenerations (.text launch.authorityScope)] := by
  simp [Database.joinedTo, Table.joins, ExecutionLaunch.row, Row.cell]

section FromLedger

variable {version : Nat} {database : Database} {ledger : Ledger}

theorem Ledger.fence_of_admission (ledger : Ledger) {admission : ExecutionAdmission}
    (member : admission ∈ ledger.admissions) : ∃ generation,
      ledger.generation admission.authorityScope = some generation ∧ InRange generation.generation ∧
        admission.controllerGeneration ≤ generation.generation := by
  obtain ⟨generation, among, same, fenced⟩ := ledger.admission_fenced admission member
  exact ⟨generation, ledger.one_generation.lookup_iff.mpr ⟨among, same⟩, ledger.generation_inRange _ among, fenced⟩

theorem Database.Holds.row_checked (held : database.Holds version ledger) {table : Table}
    (since : table.since ≤ version) :
    ∀ row ∈ ledger.rows table, table.check row (database.joinedTo row table.joins) = .ok () := by
  intro row member
  cases table with
  | controllerGenerations =>
    obtain ⟨generation, among, rfl⟩ := List.mem_map.mp member
    refine (checkControllerGeneration_ok []).mpr ⟨⟨_, rfl, ?_⟩, _, rfl, ?_⟩
    · exact ledger.scope_named _ among
    · exact ledger.generation_inRange _ among
  | executionKeys =>
    obtain ⟨key, among, rfl⟩ := List.mem_map.mp member
    exact (checkExecutionKey_ok []).mpr ⟨key, rfl, ledger.key_named _ among⟩
  | executionCommandBindings =>
    obtain ⟨binding, among, rfl⟩ := List.mem_map.mp member
    have registered := ledger.registered_of_binding (ledger.one_binding.lookup_self among)
    rw [joinedTo_binding, held.find_key (le_trans (by decide) since), registered]
    refine checkExecutionCommandBinding_ok.mpr ⟨⟨_, rfl, ?_⟩, ⟨_, rfl, ?_⟩, nofun⟩
    · exact ledger.binding_key_named among
    · exact ledger.hash_named _ among
  | executionAdmissions =>
    obtain ⟨admission, among, rfl⟩ := List.mem_map.mp member
    obtain ⟨binding, bound⟩ := ledger.binding_of_admission (ledger.one_admission.lookup_self among)
    obtain ⟨generation, current, inRange, fenced⟩ := ledger.fence_of_admission among
    rw [joinedTo_admission, held.find_key (le_trans (by decide) since), ledger.registered_of_binding bound,
      held.find_binding (le_trans (by decide) since), bound, held.find_generation (le_trans (by decide) since), current]
    refine checkExecutionAdmission_ok.mpr ⟨⟨_, rfl, ?_⟩, ⟨_, rfl, ?_⟩, _, ⟨rfl, ?_⟩, nofun, nofun, nofun, _,
      ⟨rfl, inRange⟩, fenced⟩
    · exact ledger.admission_key_named among
    · exact ledger.admission_scope_named among
    · exact ledger.admission_inRange _ among
  | executionLaunches =>
    obtain ⟨launch, among, rfl⟩ := List.mem_map.mp member
    have found := ledger.one_launch.lookup_self among
    have bound := ledger.binding_of_launch found
    have admitted := ledger.launch_admitted launch among
    obtain ⟨generation, current, inRange, fenced⟩ := ledger.fence_of_admission admitted
    rw [joinedTo_launch, held.find_key (le_trans (by decide) since), ledger.registered_of_binding bound,
      held.find_binding (le_trans (by decide) since), bound, held.find_admission (le_trans (by decide) since),
      ledger.admission_of_launch found, held.find_generation (le_trans (by decide) since),
      show ledger.generation launch.authorityScope = some generation from current]
    refine checkExecutionLaunch_ok.mpr ⟨_, ⟨rfl, ledger.admission_key_named admitted⟩, _, ⟨rfl, ?_⟩, _,
      ⟨rfl, ledger.admission_scope_named admitted⟩, _, ⟨rfl, ledger.admission_inRange _ admitted⟩, _, rfl,
      ⟨_, rfl, ledger.launch_settled _ among⟩, nofun, ?_, ?_, ?_, nofun, _, ⟨rfl, inRange⟩, fenced, rfl⟩
    · exact ledger.hash_named _ (ledger.launch_bound launch among)
    · rintro (null | different)
      · cases null
      · exact different rfl
    · rintro (null | null) <;> cases null
    · rintro (different | different) <;> exact different rfl

theorem Database.Holds.exact (held : database.Holds version ledger) : database.Exact version where
  sound := held.integrityCheck
  versioned := held.versioned
  schema := held.schema
  checked := fun table since =>
    { present := by rw [held.rows since]; exact held.contents table since
      joined := by
        intro join member
        have earlier : join.1.since ≤ table.since := by
          cases table <;> simp only [Table.joins, List.not_mem_nil, List.mem_cons, or_false] at member
          · subst member
            decide
          · rcases member with rfl | rfl | rfl <;> decide
          · rcases member with rfl | rfl | rfl | rfl <;> decide
        simp [held.contents join.1 (le_trans earlier since)]
      checked := by rw [held.rows since]; exact held.row_checked since }

end FromLedger

section ToLedger

theorem Table.length_of_admits {table : Table} {row : Row} (admitted : table.admits row) :
    row.length = table.columns.length := by
  unfold Table.admits at admitted
  split at admitted <;> first | rfl | cases admitted

/-! A row that a table admits and its validator passes is the row of a record. -/

theorem decode_generation (row : Row) (found : List (Option Row))
    (admitted : Table.controllerGenerations.admits row)
    (checked : checkControllerGeneration row found = .ok ()) : ∃ generation : Generation, generation.row = row := by
  obtain ⟨a, b, rfl⟩ := List.length_eq_two.mp (Table.length_of_admits admitted)
  obtain ⟨⟨scope, first, _⟩, generation, second, _⟩ := (checkControllerGeneration_ok found).mp checked
  exact ⟨⟨scope, generation⟩, by simp only [Generation.row]; rw [← first, ← second]; rfl⟩

theorem decode_key (row : Row) (found : List (Option Row)) (admitted : Table.executionKeys.admits row)
    (checked : checkExecutionKey row found = .ok ()) : ∃ key, keyRow key = row := by
  obtain ⟨a, rfl⟩ := List.length_eq_one_iff.mp (Table.length_of_admits admitted)
  obtain ⟨key, first, _⟩ := (checkExecutionKey_ok found).mp checked
  exact ⟨key, by simp only [keyRow]; rw [← first]; rfl⟩

theorem decode_binding (row : Row) (found : List (Option Row))
    (admitted : Table.executionCommandBindings.admits row)
    (checked : checkExecutionCommandBinding row found = .ok ()) : ∃ binding : CommandBinding, binding.row = row := by
  obtain ⟨a, b, rfl⟩ := List.length_eq_two.mp (Table.length_of_admits admitted)
  obtain ⟨⟨key, first, _⟩, ⟨hash, second, _⟩, _⟩ := checkExecutionCommandBinding_ok.mp checked
  exact ⟨⟨key, hash⟩, by simp only [CommandBinding.row]; rw [← first, ← second]; rfl⟩

theorem decode_admission (row : Row) (found : List (Option Row)) (admitted : Table.executionAdmissions.admits row)
    (checked : checkExecutionAdmission row found = .ok ()) :
    ∃ admission : ExecutionAdmission, admission.row = row := by
  obtain ⟨a, b, c, rfl⟩ := List.length_eq_three.mp (Table.length_of_admits admitted)
  obtain ⟨⟨key, first, _⟩, ⟨scope, second, _⟩, generation, ⟨third, _⟩, _⟩ := checkExecutionAdmission_ok.mp checked
  exact ⟨⟨key, scope, generation⟩, by simp only [ExecutionAdmission.row]; rw [← first, ← second, ← third]; rfl⟩

theorem decode_launch (row : Row) (found : List (Option Row)) (admitted : Table.executionLaunches.admits row)
    (checked : checkExecutionLaunch row found = .ok ()) : ∃ launch : ExecutionLaunch, launch.row = row := by
  have length := Table.length_of_admits admitted
  match row, length with
  | [a, b, c, d, e, f], _ =>
    obtain ⟨key, ⟨first, _⟩, hash, ⟨second, _⟩, scope, ⟨third, _⟩, generation, ⟨fourth, _⟩, state, fifth,
      ⟨exitCode, sixth, _⟩, _⟩ := checkExecutionLaunch_ok.mp checked
    refine ⟨⟨key, hash, scope, generation, state, exitCode⟩, ?_⟩
    simp only [ExecutionLaunch.row]
    rw [← first, ← second, ← third, ← fourth, ← fifth, ← sixth]
    rfl

variable {version : Nat} {database : Database}

/-- The rows of a table, none where the version does not have it. -/
def Database.rowsAt (database : Database) (version : Nat) (table : Table) : List Row :=
  if table.since ≤ version then database.rows table else []

/-- A record whose row the validator of its table passes. -/
def Database.Passes (database : Database) (version : Nat) (table : Table) (row : Row) : Prop :=
  table.since ≤ version ∧ table.check row (database.joinedTo row table.joins) = .ok ()

namespace Database.Exact

theorem sound_table (exact : database.Exact version) {table : Table} (since : table.since ≤ version) :
    (∀ row ∈ database.rows table, table.admits row) ∧ Keyed.Distinct Row.key (database.rows table) := by
  have all := exact.sound
  simp only [Database.integrityCheck, Bool.and_eq_true, List.all_eq_true, decide_eq_true_eq] at all
  refine all.2 table (Table.mem_all table) ?_
  have listed : table.schemaRow ∈ (tables version).map Table.schemaRow :=
    List.mem_map_of_mem (mem_tables.mpr since)
  exact List.mem_of_mem_filter (exact.schema.mem_iff.mpr listed)

theorem records {ρ : Type} (exact : database.Exact version) (table : Table) (record : ρ → Row)
    (decode : ∀ row found, table.admits row → table.check row found = .ok () → ∃ origin, record origin = row) :
    ∃ records : List ρ, records.map record = database.rowsAt version table ∧
      ∀ origin ∈ records, database.Passes version table (record origin) := by
  refine exists_map_eq record _ fun row member => ?_
  unfold Database.rowsAt at member
  split_ifs at member with since
  · have checked := (exact.checked table since).checked row member
    obtain ⟨origin, rfl⟩ := decode row _ ((exact.sound_table since).1 row member) checked
    exact ⟨origin, rfl, since, checked⟩
  · cases member

theorem distinct {ρ : Type} (exact : database.Exact version) {table : Table} {records : List ρ} {key : ρ → Text}
    {record : ρ → Row} (rows : records.map record = database.rowsAt version table)
    (keeps : ∀ origin, (record origin).key = .text (key origin)) : Keyed.Distinct key records := by
  refine (Keyed.distinct_map Row.key record SqlValue.text_injective keeps).mp ?_
  rw [rows, Database.rowsAt]
  split_ifs with since
  · exact (exact.sound_table since).2
  · exact List.nodup_nil

end Database.Exact

/-- A column of a join that is not `NULL` comes from a record. -/
theorem Database.found_record {ρ : Type} (table : Table) (key : ρ → Text) {records : List ρ} {record : ρ → Row}
    (rows : records.map record = database.rowsAt version table) (since : table.since ≤ version)
    (keeps : ∀ origin, (record origin).key = .text (key origin)) {k : Text} {column : Nat} {cell : SqlValue}
    (found : ((database.find table (.text k)).map fun row => row.cell column).getD .null = cell)
    (present : cell ≠ .null) :
    ∃ origin ∈ records, key origin = k ∧ (record origin).cell column = cell := by
  rw [Database.rowsAt, if_pos since] at rows
  rw [Database.find, ← rows, Keyed.lookup_map Row.key record SqlValue.text_injective keeps] at found
  cases looked : Keyed.lookup key records k with
  | none =>
    rw [looked] at found
    exact absurd found.symm present
  | some origin =>
    rw [looked] at found
    obtain ⟨member, same⟩ := Keyed.mem_of_lookup looked
    exact ⟨origin, member, same, found⟩

/-- The records that the rows of a validated file are. -/
structure Decoded (database : Database) (version : Nat) where
  generations : List Generation
  keys : List Text
  bindings : List CommandBinding
  admissions : List ExecutionAdmission
  launches : List ExecutionLaunch
  generation_rows : generations.map Generation.row = database.rowsAt version .controllerGenerations
  key_rows : keys.map keyRow = database.rowsAt version .executionKeys
  binding_rows : bindings.map CommandBinding.row = database.rowsAt version .executionCommandBindings
  admission_rows : admissions.map ExecutionAdmission.row = database.rowsAt version .executionAdmissions
  launch_rows : launches.map ExecutionLaunch.row = database.rowsAt version .executionLaunches
  generation_passes : ∀ generation ∈ generations,
    database.Passes version .controllerGenerations generation.row
  key_passes : ∀ key ∈ keys, database.Passes version .executionKeys (keyRow key)
  binding_passes : ∀ binding ∈ bindings, database.Passes version .executionCommandBindings binding.row
  admission_passes : ∀ admission ∈ admissions, database.Passes version .executionAdmissions admission.row
  launch_passes : ∀ launch ∈ launches, database.Passes version .executionLaunches launch.row

namespace Decoded

theorem exists_of_exact (exact : database.Exact version) : Nonempty (Decoded database version) := by
  obtain ⟨generations, generationRows, generationPasses⟩ :=
    exact.records .controllerGenerations Generation.row decode_generation
  obtain ⟨keys, keyRows, keyPasses⟩ := exact.records .executionKeys keyRow decode_key
  obtain ⟨bindings, bindingRows, bindingPasses⟩ :=
    exact.records .executionCommandBindings CommandBinding.row decode_binding
  obtain ⟨admissions, admissionRows, admissionPasses⟩ :=
    exact.records .executionAdmissions ExecutionAdmission.row decode_admission
  obtain ⟨launches, launchRows, launchPasses⟩ :=
    exact.records .executionLaunches ExecutionLaunch.row decode_launch
  exact ⟨⟨generations, keys, bindings, admissions, launches, generationRows, keyRows, bindingRows, admissionRows,
    launchRows, generationPasses, keyPasses, bindingPasses, admissionPasses, launchPasses⟩⟩

variable (decoded : Decoded database version)

theorem generation_ok {generation : Generation} (member : generation ∈ decoded.generations) :
    generation.scope ≠ [] ∧ InRange generation.generation := by
  obtain ⟨⟨_, ⟨rfl⟩, named⟩, _, ⟨rfl⟩, inRange⟩ :=
    (checkControllerGeneration_ok []).mp (decoded.generation_passes generation member).2
  exact ⟨named, inRange⟩

theorem key_ok {key : Text} (member : key ∈ decoded.keys) : key ≠ [] := by
  obtain ⟨_, ⟨rfl⟩, named⟩ := (checkExecutionKey_ok []).mp (decoded.key_passes key member).2
  exact named

theorem binding_ok {binding : CommandBinding} (member : binding ∈ decoded.bindings) :
    binding.commandSpecHash ≠ [] ∧ binding.executionKey ∈ decoded.keys := by
  obtain ⟨since, checked⟩ := decoded.binding_passes binding member
  rw [joinedTo_binding] at checked
  obtain ⟨_, ⟨_, ⟨rfl⟩, named⟩, present⟩ := checkExecutionCommandBinding_ok.mp checked
  obtain ⟨_, registered, rfl, _⟩ := Database.found_record .executionKeys id decoded.key_rows
    (le_trans (by decide) since) (fun _ => rfl) rfl present
  exact ⟨named, registered⟩

theorem admission_ok {admission : ExecutionAdmission} (member : admission ∈ decoded.admissions) :
    (∃ binding ∈ decoded.bindings, binding.executionKey = admission.executionKey) ∧
      InRange admission.controllerGeneration ∧
      ∃ generation ∈ decoded.generations, generation.scope = admission.authorityScope ∧
        admission.controllerGeneration ≤ generation.generation := by
  obtain ⟨since, checked⟩ := decoded.admission_passes admission member
  rw [joinedTo_admission] at checked
  obtain ⟨_, _, _, ⟨⟨rfl⟩, inRange⟩, _, bound, _, current, ⟨found, _⟩, fenced⟩ :=
    checkExecutionAdmission_ok.mp checked
  obtain ⟨binding, amongBindings, sameKey, _⟩ := Database.found_record .executionCommandBindings
    CommandBinding.executionKey decoded.binding_rows (le_trans (by decide) since) (fun _ => rfl) rfl bound
  obtain ⟨generation, amongGenerations, sameScope, ⟨rfl⟩⟩ := Database.found_record .controllerGenerations
    Generation.scope decoded.generation_rows (le_trans (by decide) since) (fun _ => rfl) found nofun
  exact ⟨⟨binding, amongBindings, sameKey⟩, inRange, generation, amongGenerations, sameScope, fenced⟩

theorem launch_ok (oneAdmission : Keyed.Distinct ExecutionAdmission.executionKey decoded.admissions)
    {launch : ExecutionLaunch} (member : launch ∈ decoded.launches) :
    launch.binding ∈ decoded.bindings ∧ launch.admission ∈ decoded.admissions ∧
      Settled launch.state launch.exitCode := by
  obtain ⟨since, checked⟩ := decoded.launch_passes launch member
  rw [joinedTo_launch] at checked
  obtain ⟨_, ⟨⟨rfl⟩, _⟩, _, ⟨⟨rfl⟩, _⟩, _, ⟨⟨rfl⟩, _⟩, _, ⟨⟨rfl⟩, _⟩, state, named, ⟨exitCode, code, settled⟩, _,
    bound, _, admitted, _⟩ := checkExecutionLaunch_ok.mp checked
  simp only [not_or, ne_eq, not_not] at bound admitted
  obtain ⟨⟨_, _⟩, amongBindings, ⟨rfl⟩, ⟨rfl⟩⟩ := Database.found_record .executionCommandBindings
    CommandBinding.executionKey decoded.binding_rows (le_trans (by decide) since) (fun _ => rfl) bound.2 nofun
  obtain ⟨admission, amongAdmissions, sameKey, sameScope⟩ := Database.found_record .executionAdmissions
    ExecutionAdmission.executionKey decoded.admission_rows (le_trans (by decide) since) (fun _ => rfl)
    admitted.1 nofun
  -- scope and generation are two columns of one join, so they come from one record
  obtain ⟨other, amongToo, keyToo, sameGeneration⟩ := Database.found_record .executionAdmissions
    ExecutionAdmission.executionKey decoded.admission_rows (le_trans (by decide) since) (fun _ => rfl)
    admitted.2 nofun
  obtain rfl := oneAdmission.eq_of_key amongAdmissions amongToo (sameKey.trans keyToo.symm)
  have sameAdmission : admission = launch.admission := by
    cases admission
    cases sameKey
    cases sameScope
    cases sameGeneration
    rfl
  obtain rfl : launch.state = state := ExecutionLaunchState.value_injective (SqlValue.text_injective named)
  obtain rfl : launch.exitCode = exitCode := exitCodeCell_injective code
  exact ⟨amongBindings, sameAdmission ▸ amongAdmissions, settled⟩

/-- The records keep the relations of a ledger. -/
def ledger (exact : database.Exact version) : Ledger where
  generations := decoded.generations
  keys := decoded.keys
  bindings := decoded.bindings
  admissions := decoded.admissions
  launches := decoded.launches
  one_generation := exact.distinct decoded.generation_rows fun _ => rfl
  one_key := exact.distinct decoded.key_rows fun _ => rfl
  one_binding := exact.distinct decoded.binding_rows fun _ => rfl
  one_admission := exact.distinct decoded.admission_rows fun _ => rfl
  one_launch := exact.distinct decoded.launch_rows fun _ => rfl
  scope_named := fun _ member => (decoded.generation_ok member).1
  generation_inRange := fun _ member => (decoded.generation_ok member).2
  key_named := fun _ => decoded.key_ok
  hash_named := fun _ member => (decoded.binding_ok member).1
  binding_registered := fun _ member => (decoded.binding_ok member).2
  admission_bound := fun _ member => (decoded.admission_ok member).1
  admission_inRange := fun _ member => (decoded.admission_ok member).2.1
  admission_fenced := fun _ member => (decoded.admission_ok member).2.2
  launch_bound := fun _ member =>
    (decoded.launch_ok (exact.distinct decoded.admission_rows fun _ => rfl) member).1
  launch_admitted := fun _ member =>
    (decoded.launch_ok (exact.distinct decoded.admission_rows fun _ => rfl) member).2.1
  launch_settled := fun _ member =>
    (decoded.launch_ok (exact.distinct decoded.admission_rows fun _ => rfl) member).2.2

theorem ledger_rows (exact : database.Exact version) (table : Table) :
    (decoded.ledger exact).rows table = database.rowsAt version table := by
  cases table
  · exact decoded.generation_rows
  · exact decoded.key_rows
  · exact decoded.binding_rows
  · exact decoded.admission_rows
  · exact decoded.launch_rows

theorem ledger_holds (exact : database.Exact version) : database.Holds version (decoded.ledger exact) where
  undamaged := by
    have sound := exact.sound
    simp only [Database.integrityCheck, Bool.and_eq_true] at sound
    exact sound.1
  versioned := exact.versioned
  schema := exact.schema
  contents := fun table since => by
    rw [decoded.ledger_rows, Database.rowsAt, if_pos since]
    exact (exact.checked table since).present
  later := fun table late => by rw [decoded.ledger_rows, Database.rowsAt, if_neg (by omega)]

end Decoded

theorem Database.exact_iff : database.Exact version ↔ ∃ ledger, database.Holds version ledger := by
  constructor
  · intro exact
    obtain ⟨decoded⟩ := Decoded.exists_of_exact exact
    exact ⟨_, decoded.ledger_holds exact⟩
  · rintro ⟨_, held⟩
    exact held.exact

end ToLedger

/-! The five validators. -/

section Validators

variable {database reached : Database} {nothing : Unit}

theorem validateV1Store_ok : validateV1Store.eval database = .ok nothing reached ↔
    (∃ ledger, database.Holds 1 ledger) ∧ reached = database := by
  rw [← Database.exact_iff]
  exact validateExactStore_ok (by decide) (by decide)

theorem validateV2Store_ok : validateV2Store.eval database = .ok nothing reached ↔
    (∃ ledger, database.Holds 2 ledger) ∧ reached = database := by
  rw [← Database.exact_iff]
  exact validateExactStore_ok (by decide) (by decide)

theorem validateV3Store_ok : validateV3Store.eval database = .ok nothing reached ↔
    (∃ ledger, database.Holds 3 ledger) ∧ reached = database := by
  rw [← Database.exact_iff]
  exact validateExactStore_ok (by decide) (by decide)

theorem validateV4Store_ok : validateV4Store.eval database = .ok nothing reached ↔
    (∃ ledger, database.Holds 4 ledger) ∧ reached = database := by
  rw [← Database.exact_iff]
  exact validateExactStore_ok (by decide) (by decide)

theorem validateCurrentStore_ok : validateCurrentStore.eval database = .ok nothing reached ↔
    (∃ ledger, database.Holds 5 ledger) ∧ reached = database := by
  rw [← Database.exact_iff]
  exact validateExactStore_ok (by decide) (by decide)

theorem validateStore_ok : validateStore.eval database = .ok nothing reached ↔
    (∃ ledger, database.Holds 5 ledger) ∧ reached = database := by
  simp only [validateStore, readSchemaVersion, Statements.userVersion, Statements.query, Script.bind_ok,
    Script.translate_ok, Script.query_ok, Option.some.injEq]
  constructor
  · rintro ⟨_, _, ⟨rfl, rfl⟩, accepted⟩
    split_ifs at accepted
    case neg => exact validateCurrentStore_ok.mp accepted
    all_goals
      obtain ⟨_, _, _, refused⟩ := Script.bind_ok.mp accepted
      cases refused
  · rintro ⟨⟨ledger, held⟩, rfl⟩
    refine ⟨5, reached, ⟨held.versioned, rfl⟩, ?_⟩
    exact validateCurrentStore_ok.mpr ⟨⟨ledger, held⟩, rfl⟩

end Validators

end Umbilical.Authority
