import Umbilical.Authority.Arguments
import Umbilical.Shared.Keyed
import Umbilical.Shared.Script
import Mathlib.Data.List.Sort
import Mathlib.Logic.Function.Basic
import Mathlib.Data.List.Lex
import Mathlib.Data.Char

set_option autoImplicit false

/-!
# The SQLite file

What the store's statements read and write of the database, before any check the
store makes: cells may hold anything, and the schema may declare anything.
-/

namespace Umbilical.Authority

open Python

/-- A stored value. `TEXT` is kept as valid UTF-8. -/
inductive SqlValue where
  | null
  | integer (value : Int)
  | real (bits : UInt64)
  | text (value : Text)
  | blob (bytes : List UInt8)
  deriving DecidableEq

theorem SqlValue.text_injective : Function.Injective SqlValue.text := fun _ _ => SqlValue.text.inj

abbrev Row := List SqlValue

def Row.cell (row : Row) (index : Nat) : SqlValue := row.getD index .null

/-- Every table of the store has its primary key in the first column. -/
def Row.key (row : Row) : SqlValue := row.cell 0

/-- A row of `PRAGMA table_info`. -/
structure ColumnInfo where
  cid : Nat
  name : String
  type : String
  notNull : Bool
  default : Option String
  primaryKey : Nat
  deriving DecidableEq

inductive Table where
  | controllerGenerations
  | executionKeys
  | executionCommandBindings
  | executionAdmissions
  | executionLaunches
  deriving DecidableEq

namespace Table

/-- In the order in which `initialize_new` and the migrations create them. -/
def all : List Table :=
  [controllerGenerations, executionKeys, executionCommandBindings, executionAdmissions, executionLaunches]

theorem mem_all (table : Table) : table ∈ all := by cases table <;> decide

def name : Table → String
  | controllerGenerations => "controller_generations"
  | executionKeys => "execution_keys"
  | executionCommandBindings => "execution_command_bindings"
  | executionAdmissions => "execution_admissions"
  | executionLaunches => "execution_launches"

theorem name_injective : Function.Injective name := by
  intro left right same
  cases left <;> cases right <;> first | rfl | (simp only [name] at same; exact absurd same (by decide))

/-- `_CREATE_*_SQL`. -/
def createSql : Table → String
  | controllerGenerations => "
CREATE TABLE controller_generations (
    scope TEXT NOT NULL PRIMARY KEY
        CHECK(typeof(scope) = 'text' AND scope <> ''),
    generation INTEGER NOT NULL
        CHECK(typeof(generation) = 'integer' AND generation > 0)
) WITHOUT ROWID
"
  | executionKeys => "
CREATE TABLE execution_keys (
    execution_key TEXT NOT NULL PRIMARY KEY
        CHECK(typeof(execution_key) = 'text' AND execution_key <> '')
) WITHOUT ROWID
"
  | executionCommandBindings => "
CREATE TABLE execution_command_bindings (
    execution_key TEXT NOT NULL PRIMARY KEY
        CHECK(typeof(execution_key) = 'text' AND execution_key <> ''),
    command_spec_hash TEXT NOT NULL
        CHECK(typeof(command_spec_hash) = 'text' AND command_spec_hash <> '')
) WITHOUT ROWID
"
  | executionAdmissions => "
CREATE TABLE execution_admissions (
    execution_key TEXT NOT NULL PRIMARY KEY
        CHECK(typeof(execution_key) = 'text' AND execution_key <> ''),
    authority_scope TEXT NOT NULL
        CHECK(typeof(authority_scope) = 'text' AND authority_scope <> ''),
    controller_generation INTEGER NOT NULL
        CHECK(
            typeof(controller_generation) = 'integer'
            AND controller_generation > 0
        )
) WITHOUT ROWID
"
  | executionLaunches => "
CREATE TABLE execution_launches (
    execution_key TEXT NOT NULL PRIMARY KEY
        CHECK(typeof(execution_key) = 'text' AND execution_key <> ''),
    command_spec_hash TEXT NOT NULL
        CHECK(typeof(command_spec_hash) = 'text' AND command_spec_hash <> ''),
    authority_scope TEXT NOT NULL
        CHECK(typeof(authority_scope) = 'text' AND authority_scope <> ''),
    controller_generation INTEGER NOT NULL
        CHECK(
            typeof(controller_generation) = 'integer'
            AND controller_generation > 0
        ),
    launch_state TEXT NOT NULL
        CHECK(
            typeof(launch_state) = 'text'
            AND launch_state IN ('intent', 'unknown', 'terminal')
        ),
    exit_code INTEGER
        CHECK(
            (launch_state IN ('intent', 'unknown') AND exit_code IS NULL)
            OR (launch_state = 'terminal' AND typeof(exit_code) = 'integer')
        )
) WITHOUT ROWID
"

/-- What `PRAGMA table_info` answers for a table created by `createSql`. -/
def columns : Table → List ColumnInfo
  | controllerGenerations => [⟨0, "scope", "TEXT", true, none, 1⟩, ⟨1, "generation", "INTEGER", true, none, 0⟩]
  | executionKeys => [⟨0, "execution_key", "TEXT", true, none, 1⟩]
  | executionCommandBindings =>
      [⟨0, "execution_key", "TEXT", true, none, 1⟩, ⟨1, "command_spec_hash", "TEXT", true, none, 0⟩]
  | executionAdmissions =>
      [⟨0, "execution_key", "TEXT", true, none, 1⟩, ⟨1, "authority_scope", "TEXT", true, none, 0⟩,
        ⟨2, "controller_generation", "INTEGER", true, none, 0⟩]
  | executionLaunches =>
      [⟨0, "execution_key", "TEXT", true, none, 1⟩, ⟨1, "command_spec_hash", "TEXT", true, none, 0⟩,
        ⟨2, "authority_scope", "TEXT", true, none, 0⟩, ⟨3, "controller_generation", "INTEGER", true, none, 0⟩,
        ⟨4, "launch_state", "TEXT", true, none, 0⟩, ⟨5, "exit_code", "INTEGER", false, none, 0⟩]

def nonEmptyText : SqlValue → Bool
  | .text value => value ≠ []
  | _ => false

def positiveInteger : SqlValue → Bool
  | .integer value => 0 < value
  | _ => false

def launchStateAndExitCode : SqlValue → SqlValue → Bool
  | .text state, .null => state = "intent".toList ∨ state = "unknown".toList
  | .text state, .integer _ => state = "terminal".toList
  | _, _ => false

/-- The `NOT NULL` and `CHECK` constraints of `createSql`. -/
def admits : Table → Row → Bool
  | controllerGenerations, [scope, generation] => nonEmptyText scope && positiveInteger generation
  | executionKeys, [executionKey] => nonEmptyText executionKey
  | executionCommandBindings, [executionKey, commandSpecHash] =>
      nonEmptyText executionKey && nonEmptyText commandSpecHash
  | executionAdmissions, [executionKey, authorityScope, controllerGeneration] =>
      nonEmptyText executionKey && nonEmptyText authorityScope && positiveInteger controllerGeneration
  | executionLaunches,
      [executionKey, commandSpecHash, authorityScope, controllerGeneration, launchState, exitCode] =>
      nonEmptyText executionKey && nonEmptyText commandSpecHash && nonEmptyText authorityScope &&
        positiveInteger controllerGeneration && launchStateAndExitCode launchState exitCode
  | _, _ => false

end Table

/-- A row of `sqlite_schema`. -/
structure SchemaRow where
  type : SqlValue
  name : SqlValue
  tblName : SqlValue
  sql : SqlValue
  deriving DecidableEq

/-- SQLite's order of values, as far as names need it. -/
def SqlValue.before : SqlValue → SqlValue → Bool
  | .text left, .text right => left ≤ right
  | .text _, .blob _ => true
  | .text _, _ | .blob _, .text _ => false
  | _, _ => true

/-- `ORDER BY type, name`. -/
def SchemaRow.before (left right : SchemaRow) : Bool :=
  if left.type = right.type then left.name.before right.name else left.type.before right.type

/-- `_canonical_stored_sql`: SQLite stores a statement from its first token on. -/
def canonicalStoredSql (sql : List Char) : List Char :=
  match sql with
  | '\n' :: rest => rest
  | _ => sql

/-- The schema row `CREATE TABLE` leaves behind. -/
def Table.schemaRow (table : Table) : SchemaRow where
  type := .text "table".toList
  name := .text table.name.toList
  tblName := .text table.name.toList
  sql := .text (canonicalStoredSql table.createSql.toList)

structure TableContents where
  columns : List ColumnInfo
  rows : List Row
  deriving DecidableEq

/-- The durable state, or a transaction's view of it. Row order is not observable. `undamaged` is what
`integrity_check` says of the file beyond the constraints of the store's own tables. -/
structure Database where
  undamaged : Bool
  userVersion : Int
  schema : List SchemaRow
  contents : Table → Option TableContents
  declared : ∀ table, (contents table).isSome → ∃ row ∈ schema, row.name = .text table.name.toList

namespace Database

/-- A file that SQLite created and nothing was written to. -/
def empty : Database where
  undamaged := true
  userVersion := 0
  schema := []
  contents := fun _ => none
  declared := nofun

def rows (database : Database) (table : Table) : List Row :=
  ((database.contents table).map TableContents.rows).getD []

def find (database : Database) (table : Table) (key : SqlValue) : Option Row :=
  Keyed.lookup Row.key (database.rows table) key

/-- Rows of a table of this definition satisfy its constraints and have distinct primary keys. -/
def sound (database : Database) (table : Table) : Prop :=
  table.schemaRow ∈ database.schema →
    (∀ row ∈ database.rows table, table.admits row) ∧ Keyed.Distinct Row.key (database.rows table)

instance (database : Database) (table : Table) : Decidable (database.sound table) :=
  inferInstanceAs (Decidable (_ → _ ∧ _))

/-- `PRAGMA integrity_check` answers `ok`. -/
def integrityCheck (database : Database) : Bool :=
  database.undamaged && Table.all.all fun table => database.sound table

/-- The rows of every table replaced. -/
def replace (database : Database) (rows : Table → List Row) : Database :=
  { database with
    contents := fun table => (database.contents table).map fun contents => { contents with rows := rows table }
    declared := fun table present => database.declared table (by simpa using present) }

theorem replace_rows (database : Database) : database.replace database.rows = database := by
  have same : (fun table => (database.contents table).map fun contents =>
      { contents with rows := database.rows table }) = database.contents := by
    funext table
    rw [rows]
    cases database.contents table <;> rfl
  simp only [replace, same]

def write (database : Database) (table : Table) (rows : List Row) : Database :=
  database.replace (Function.update database.rows table rows)

/-- `INSERT`, unless a constraint forbids it. -/
def insert (database : Database) (table : Table) (row : Row) : Option (Unit × Database) :=
  if (database.contents table).isSome ∧ table.admits row ∧ database.find table row.key = none then
    some ((), database.write table (database.rows table ++ [row]))
  else none

/-- `UPDATE`, unless a constraint forbids it, with the number of rows that met the condition. -/
def update (database : Database) (table : Table) (condition : Row → Bool) (change : Row → Row) :
    Option (Nat × Database) :=
  let rows := (database.rows table).map fun row => if condition row then change row else row
  if (database.contents table).isSome ∧ ∀ row ∈ rows, table.admits row then
    some ((database.rows table).countP condition, database.write table rows)
  else none

/-- A persisted object has the name of the table. -/
def Taken (database : Database) (table : Table) : Prop :=
  ∃ row ∈ database.schema, row.name = .text table.name.toList

instance (database : Database) (table : Table) : Decidable (database.Taken table) :=
  inferInstanceAs (Decidable (∃ _ ∈ _, _))

/-- The database with another table, empty. -/
def withTable (database : Database) (table : Table) : Database where
  undamaged := database.undamaged
  userVersion := database.userVersion
  schema := database.schema ++ [table.schemaRow]
  contents := Function.update database.contents table (some { columns := table.columns, rows := [] })
  declared := by
    intro other present
    by_cases same : other = table
    · exact ⟨table.schemaRow, by simp, by rw [same]; rfl⟩
    · rw [Function.update_of_ne same] at present
      obtain ⟨row, member, named⟩ := database.declared other present
      exact ⟨row, List.mem_append_left _ member, named⟩

/-- `CREATE TABLE`, unless the name is taken. -/
def createTable (database : Database) (table : Table) : Option (Unit × Database) :=
  if database.Taken table then none else some ((), database.withTable table)

def withVersion (database : Database) (version : Int) : Database := { database with userVersion := version }

end Database

/-- Code that talks to SQLite one statement at a time. A statement SQLite does not complete raises
`sqlite3.DatabaseError`. -/
abbrev Statements := Script PyError Database

namespace Statements

def query {α : Type} (answer : Database → Option α) : Statements α := Script.query .databaseError answer

def execute {α : Type} (effect : Database → Option (α × Database)) : Statements α :=
  Script.execute .databaseError effect

/-- `PRAGMA integrity_check`, whose only answer for a sound file is the row `ok`. -/
def integrityCheck : Statements Bool := query fun database => some database.integrityCheck

/-- `PRAGMA user_version`, which always answers one row with one integer. -/
def userVersion : Statements Int := query fun database => some database.userVersion

def setUserVersion (version : Int) : Statements Unit :=
  execute fun database => some ((), database.withVersion version)

/-- `SELECT type, name, tbl_name, sql FROM sqlite_schema ORDER BY type, name`. -/
def selectSchema : Statements (List SchemaRow) :=
  query fun database => some (database.schema.insertionSort fun left right => left.before right)

/-- `PRAGMA table_info`, which answers no row for a table that does not exist. -/
def tableInfo (table : Table) : Statements (List ColumnInfo) :=
  query fun database => some (((database.contents table).map TableContents.columns).getD [])

def createTable (table : Table) : Statements Unit := execute fun database => database.createTable table

end Statements

/-- A string as a statement parameter. -/
def bindText (str : Str) : Except PyError Text :=
  match Str.text? str with
  | none => .error .unicodeEncodeError
  | some text => .ok text

/-- An `int` as a statement parameter. -/
def bindInteger (value : Int) : Except PyError Int :=
  if value < minSqliteInteger ∨ maxSqliteInteger < value then .error .overflowError else .ok value

namespace Statements

/-- `SELECT … FROM table WHERE primary key = ?`, `.fetchone()`. -/
def select (table : Table) (key : Str) : Statements (Option Row) := do
  let key ← Script.lift (bindText key)
  query fun database => (database.contents table).map fun _ => database.find table (.text key)

def insert (table : Table) (row : Except PyError Row) : Statements Unit := do
  let row ← Script.lift row
  execute fun database => database.insert table row

end Statements

@[simp] theorem bindText_ofText (text : Text) : bindText (Str.ofText text) = .ok text := by simp [bindText]

theorem bindText_eq_ok {str : Str} {text : Text} : bindText str = .ok text ↔ str = Str.ofText text := by
  unfold bindText
  cases decoded : Str.text? str with
  | none =>
    simp only [reduceCtorEq, false_iff]
    rintro rfl
    simp at decoded
  | some other =>
    rw [Except.ok.injEq, Str.ofText_of_text? decoded]
    exact Str.ofText_injective.eq_iff.symm

theorem bindText_eq_error {str : Str} {error : PyError} :
    bindText str = .error error ↔ ¬ str.Encodable ∧ error = .unicodeEncodeError := by
  unfold bindText Str.Encodable
  cases Str.text? str <;> simp [eq_comm]

theorem bindInteger_of_le {value : Int} (low : minSqliteInteger ≤ value) (high : value ≤ maxSqliteInteger) :
    bindInteger value = .ok value := by
  unfold bindInteger
  split_ifs with outside
  · omega
  · rfl

end Umbilical.Authority
