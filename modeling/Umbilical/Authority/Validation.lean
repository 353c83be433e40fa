import Umbilical.Authority.Database

set_option autoImplicit false

namespace Umbilical.Authority

open Python

/-- Durable physical-launch evidence; no state restores launch authority. -/
inductive ExecutionLaunchState where
  | intent
  | unknown
  | terminal
  deriving DecidableEq

def ExecutionLaunchState.value : ExecutionLaunchState → Text
  | .intent => "intent".toList
  | .unknown => "unknown".toList
  | .terminal => "terminal".toList

theorem ExecutionLaunchState.value_injective : Function.Injective ExecutionLaunchState.value := by
  intro left right same
  cases left <;> cases right <;> first | rfl | exact absurd same (by decide)

/-- Immutable durable admission observation; not a launch token. -/
structure ExecutionAdmission where
  executionKey : Text
  authorityScope : Text
  controllerGeneration : Int
  deriving DecidableEq

/-- Immutable launch observation; existence means launch authority is consumed. -/
structure ExecutionLaunch where
  executionKey : Text
  commandSpecHash : Text
  authorityScope : Text
  controllerGeneration : Int
  state : ExecutionLaunchState
  exitCode : Option Int
  deriving DecidableEq

def malformed (message : String) : PyError := .store .authorityStoreMalformedError message

/-- `except sqlite3.DatabaseError as exc: raise replacement from exc`. -/
def databaseErrorAs (replacement : PyError) : PyError → PyError
  | .databaseError => replacement
  | error => error

/-! Each check of a persisted value gets the value with its `typeof`, which a `SqlValue` carries. -/

def validatePersistedScope : SqlValue → Except PyError Text
  | .text scope =>
      if scope = [] then .error (malformed "persisted authority scope is malformed") else .ok scope
  | _ => .error (malformed "persisted authority scope is malformed")

def validatePersistedExecutionKey : SqlValue → Except PyError Text
  | .text executionKey =>
      if executionKey = [] then .error (malformed "persisted ExecutionKey must be a non-empty TEXT value")
      else .ok executionKey
  | _ => .error (malformed "persisted ExecutionKey must be a non-empty TEXT value")

def validatePersistedCommandSpecHash : SqlValue → Except PyError Text
  | .text commandSpecHash =>
      if commandSpecHash = [] then
        .error (malformed "persisted CommandSpecHash must be a non-empty TEXT value")
      else match (Str.ofText commandSpecHash).encode with
        | .error _ => .error (malformed "persisted CommandSpecHash must be strictly UTF-8 encodable")
        | .ok _ => .ok commandSpecHash
  | _ => .error (malformed "persisted CommandSpecHash must be a non-empty TEXT value")

def validatePersistedGeneration : SqlValue → Except PyError Int
  | .integer generation =>
      if generation ≤ 0 then .error (malformed "persisted ControllerGeneration must be a positive INTEGER")
      else if generation > maxGeneration then
        .error (malformed "persisted ControllerGeneration exceeds SQLite INTEGER range")
      else .ok generation
  | _ => .error (malformed "persisted ControllerGeneration must be a positive INTEGER")

def validatePersistedLaunchState : SqlValue → Except PyError ExecutionLaunchState
  | .text launchState =>
      if launchState = ExecutionLaunchState.intent.value then .ok .intent
      else if launchState = ExecutionLaunchState.unknown.value then .ok .unknown
      else if launchState = ExecutionLaunchState.terminal.value then .ok .terminal
      else .error (malformed "persisted launch state is unsupported")
  | _ => .error (malformed "persisted launch state must be an exact TEXT value")

def validatePersistedExitCode (exitCode : SqlValue) : ExecutionLaunchState → Except PyError (Option Int)
  | .intent | .unknown =>
      match exitCode with
      | .null => .ok none
      | _ => .error (malformed "non-terminal launch state must not carry an exit code")
  | .terminal =>
      match exitCode with
      | .integer exitCode =>
          if exitCode < minSqliteInteger ∨ exitCode > maxSqliteInteger then
            .error (malformed "persisted exit code exceeds SQLite INTEGER range")
          else .ok (some exitCode)
      | _ => .error (malformed "terminal launch state requires an INTEGER exit code")

namespace Statements

/-- `SELECT … FROM table` of every row, with for each of `joins` the row a `LEFT JOIN` on the primary
key finds. After the integrity check a primary key is in one row at most. -/
def selectAll (table : Table) (joins : List (Table × Nat)) : Statements (List (Row × List (Option Row))) :=
  query fun database =>
    if (database.contents table).isSome ∧ ∀ join ∈ joins, (database.contents join.1).isSome then
      some ((database.rows table).map fun row => (row, joins.map fun join =>
        if row.cell join.2 = .null then none else database.find join.1 (row.cell join.2)))
    else none

end Statements

/-- A column of the row that a `LEFT JOIN` found, `NULL` where it found none. -/
def joined (found : List (Option Row)) (join column : Nat) : SqlValue :=
  ((found.getD join none).map fun row => row.cell column).getD .null

def validateColumns (table : Table) (message : String) : Statements Unit := do
  let columns ← Statements.tableInfo table
  Script.lift (raiseIf (columns ≠ table.columns) (malformed message))

def checkControllerGeneration (row : Row) (_ : List (Option Row)) : Except PyError Unit := do
  let _ ← validatePersistedScope (row.cell 0)
  let _ ← validatePersistedGeneration (row.cell 1)
  return ()

def checkExecutionKey (row : Row) (_ : List (Option Row)) : Except PyError Unit := do
  let _ ← validatePersistedExecutionKey (row.cell 0)
  return ()

def checkExecutionCommandBinding (row : Row) (found : List (Option Row)) : Except PyError Unit := do
  let _ ← validatePersistedExecutionKey (row.cell 0)
  let _ ← validatePersistedCommandSpecHash (row.cell 1)
  raiseIf (joined found 0 0 = .null)
    (malformed "persisted command binding references an unregistered ExecutionKey")

def checkExecutionAdmission (row : Row) (found : List (Option Row)) : Except PyError Unit := do
  let _ ← validatePersistedExecutionKey (row.cell 0)
  let _ ← validatePersistedScope (row.cell 1)
  let admitted ← validatePersistedGeneration (row.cell 2)
  raiseIf (joined found 0 0 = .null)
    (malformed "persisted execution admission references an unregistered ExecutionKey")
  raiseIf (joined found 1 0 = .null)
    (malformed "persisted execution admission references an unbound ExecutionKey")
  raiseIf (joined found 2 1 = .null)
    (malformed "persisted execution admission references a missing authority scope")
  let current ← validatePersistedGeneration (joined found 2 1)
  raiseIf (admitted > current)
    (malformed "persisted execution admission generation exceeds current generation")

def checkExecutionLaunch (row : Row) (found : List (Option Row)) : Except PyError Unit := do
  let key ← validatePersistedExecutionKey (row.cell 0)
  let commandHash ← validatePersistedCommandSpecHash (row.cell 1)
  let scope ← validatePersistedScope (row.cell 2)
  let generation ← validatePersistedGeneration (row.cell 3)
  let state ← validatePersistedLaunchState (row.cell 4)
  let _ ← validatePersistedExitCode (row.cell 5) state
  raiseIf (joined found 0 0 = .null) (malformed "persisted launch references an unregistered ExecutionKey")
  raiseIf (joined found 1 1 = .null ∨ joined found 1 1 ≠ .text commandHash)
    (malformed "persisted launch does not match immutable CommandSpecHash binding")
  raiseIf (joined found 2 1 = .null ∨ joined found 2 2 = .null)
    (malformed "persisted launch references a missing execution admission")
  raiseIf (joined found 2 1 ≠ .text scope ∨ joined found 2 2 ≠ .integer generation)
    (malformed "persisted launch does not exactly match execution admission")
  raiseIf (joined found 3 1 = .null) (malformed "persisted launch references a missing authority scope")
  let current ← validatePersistedGeneration (joined found 3 1)
  raiseIf (generation > current) (malformed "persisted launch generation exceeds current generation")
  raiseIf (joined found 0 0 ≠ .text key) (malformed "persisted launch ExecutionKey relation is not exact")

/-- The shape every `_validate_*_table` has: the columns, then each row with what it is joined to. -/
def validateTable (table : Table) (message : String) (joins : List (Table × Nat))
    (check : Row → List (Option Row) → Except PyError Unit) : Statements Unit := do
  validateColumns table message
  let rows ← Statements.selectAll table joins
  Script.lift (rows.forM fun row => check row.1 row.2)

def validateControllerGenerationsTable : Statements Unit :=
  validateTable .controllerGenerations "controller_generations columns do not match authority schema" []
    checkControllerGeneration

def validateExecutionKeysTable : Statements Unit :=
  validateTable .executionKeys "execution_keys columns do not match U1B schema" [] checkExecutionKey

def validateExecutionCommandBindingsTable : Statements Unit :=
  validateTable .executionCommandBindings "execution_command_bindings columns do not match U1D schema"
    [(.executionKeys, 0)] checkExecutionCommandBinding

def validateExecutionAdmissionsTable : Statements Unit :=
  validateTable .executionAdmissions "execution_admissions columns do not match U1E schema"
    [(.executionKeys, 0), (.executionCommandBindings, 0), (.controllerGenerations, 1)]
    checkExecutionAdmission

def validateExecutionLaunchesTable : Statements Unit :=
  validateTable .executionLaunches "execution_launches columns do not match U1F schema"
    [(.executionKeys, 0), (.executionCommandBindings, 0), (.executionAdmissions, 0),
      (.controllerGenerations, 2)]
    checkExecutionLaunch

def readSchemaVersion : Statements Int :=
  Statements.userVersion.translate (databaseErrorAs (malformed "unable to read authority schema version"))

/-- `isinstance(row[1], str) and row[1].startswith("sqlite_")`. -/
def SchemaRow.internal (row : SchemaRow) : Bool :=
  match row.name with
  | .text name => "sqlite_".toList.isPrefixOf name
  | _ => false

def isText : SqlValue → Bool
  | .text _ => true
  | _ => false

def checkSchemaRow (expectedObjects : List Table) (seenNames : List SqlValue) (row : SchemaRow) :
    Except PyError Unit :=
  match expectedObjects.find? fun table => row.name = .text table.name.toList with
  | none => .error (malformed "authority schema does not match the persisted-object allowlist")
  | some table => do
      raiseIf (row.type ≠ .text "table".toList ∨ row.tblName ≠ row.name ∨ isText row.sql = false ∨
          row.name ∈ seenNames)
        (malformed "authority schema does not match the persisted-object allowlist")
      raiseIf (row.sql ≠ .text (canonicalStoredSql table.createSql.toList))
        (malformed (table.name ++ " definition does not match authority schema"))

/-- The names seen once every row has passed. -/
def checkSchemaRows (expectedObjects : List Table) (seenNames : List SqlValue) :
    List SchemaRow → Except PyError (List SqlValue)
  | [] => .ok seenNames
  | row :: rest => do
      checkSchemaRow expectedObjects seenNames row
      checkSchemaRows expectedObjects (row.name :: seenNames) rest

/-- `if flag: script`. -/
def runIf (flag : Bool) (script : Statements Unit) : Statements Unit :=
  if flag then script else pure ()

def checkSchema (expectedObjects : List Table) (schemaRows : List SchemaRow) : Except PyError Unit := do
  let userSchemaRows := schemaRows.filter fun row => !row.internal
  raiseIf (userSchemaRows.length ≠ expectedObjects.length)
    (malformed "authority schema contains unexpected persisted objects")
  let seenNames ← checkSchemaRows expectedObjects [] userSchemaRows
  raiseIf (¬ ((∀ table ∈ expectedObjects, .text table.name.toList ∈ seenNames) ∧
      ∀ name ∈ seenNames, ∃ table ∈ expectedObjects, name = .text table.name.toList))
    (malformed "authority schema is missing required persisted objects")

def validateExactStore (expectedVersion : Int) (expectedObjects : List Table)
    (validateExecutionKeys validateCommandBindings validateAdmissions validateLaunches : Bool) :
    Statements Unit :=
  Script.translate (databaseErrorAs (malformed "authority store validation failed")) do
    let sound ← Statements.integrityCheck
    Script.lift (raiseIf (sound = false) (malformed "SQLite integrity_check failed"))
    let version ← readSchemaVersion
    Script.lift (raiseIf (version ≠ expectedVersion)
      (.store .authorityStoreVersionError ("unsupported authority schema version: " ++ toString version)))
    let schemaRows ← Statements.selectSchema
    Script.lift (checkSchema expectedObjects schemaRows)
    validateControllerGenerationsTable
    runIf validateExecutionKeys validateExecutionKeysTable
    runIf validateCommandBindings validateExecutionCommandBindingsTable
    runIf validateAdmissions validateExecutionAdmissionsTable
    runIf validateLaunches validateExecutionLaunchesTable

def validateV1Store : Statements Unit :=
  validateExactStore 1 [.controllerGenerations] false false false false

def validateV2Store : Statements Unit :=
  validateExactStore 2 [.controllerGenerations, .executionKeys] true false false false

def validateV3Store : Statements Unit :=
  validateExactStore 3 [.controllerGenerations, .executionCommandBindings, .executionKeys]
    true true false false

def validateV4Store : Statements Unit :=
  validateExactStore 4
    [.controllerGenerations, .executionAdmissions, .executionCommandBindings, .executionKeys]
    true true true false

def validateCurrentStore : Statements Unit :=
  validateExactStore 5
    [.controllerGenerations, .executionAdmissions, .executionCommandBindings, .executionKeys,
      .executionLaunches]
    true true true true

def migrationRequired (message : String) : PyError := .store .authorityStoreMigrationRequiredError message

/-- Historical stores are validated exactly before migration-required is reported. -/
def validateStore : Statements Unit := do
  let version ← readSchemaVersion
  if version = 1 then do
    validateV1Store
    .raise (migrationRequired "authority schema version 1 requires explicit v1-to-v2 migration")
  else if version = 2 then do
    validateV2Store
    .raise (migrationRequired "authority schema version 2 requires explicit v2-to-v3 migration")
  else if version = 3 then do
    validateV3Store
    .raise (migrationRequired "authority schema version 3 requires explicit v3-to-v4 migration")
  else if version = 4 then do
    validateV4Store
    .raise (migrationRequired "authority schema version 4 requires explicit v4-to-v5 migration")
  else validateCurrentStore

end Umbilical.Authority
