import Umbilical.Authority.Connection
import Umbilical.Authority.Validation

set_option autoImplicit false

/-!
# The public operations

For each operation of `AuthorityStore`, what it does between `BEGIN` and
`COMMIT`, and the operation itself: its argument checks around that.
-/

namespace Umbilical.Authority

open Python

inductive ExecutionKeyRegistration where
  | new
  | duplicate
  deriving DecidableEq

inductive CommandSpecBindingResult where
  | bound
  | alreadyBound
  deriving DecidableEq

inductive ExecutionAdmissionResult where
  | admitted
  | alreadyAdmitted
  deriving DecidableEq

/-- `UPDATE table SET … WHERE …`, with `cursor.rowcount`. The parameters are bound first. -/
def Statements.update {π : Type} (table : Table) (parameters : Except PyError π) (condition : π → Row → Bool)
    (change : π → Row → Row) : Statements Nat := do
  let parameters ← Script.lift parameters
  Statements.execute fun database => database.update table (condition parameters) (change parameters)

section Generations

def acquireGenerationBody (scope : Str) : Statements Int := do
  validateStore
  match ← Statements.select .controllerGenerations scope with
  | none => do
      Statements.insert .controllerGenerations do
        let scope ← bindText scope
        let generation ← bindInteger 1
        return [.text scope, .integer generation]
      return 1
  | some row => do
      let current ← Script.lift (validatePersistedGeneration (row.cell 1))
      Script.lift (raiseIf (current = maxGeneration)
        (.store .generationOverflowError "ControllerGeneration exhausted SQLite INTEGER range"))
      let rowcount ← Statements.update .controllerGenerations
        (do
          let generation ← bindInteger (current + 1)
          let scope ← bindText scope
          let current ← bindInteger current
          return (generation, scope, current))
        (fun (_, scope, current) row => row.cell 0 = .text scope ∧ row.cell 1 = .integer current)
        (fun (generation, _, _) row => row.set 1 (.integer generation))
      Script.lift (raiseIf (rowcount ≠ 1)
        (malformed "generation update did not affect exactly one authority row"))
      return current + 1

def readGenerationBody (scope : Str) : Statements (Option Int) := do
  validateStore
  match ← Statements.select .controllerGenerations scope with
  | none => return none
  | some row => some <$> Script.lift (validatePersistedGeneration (row.cell 1))

end Generations

section Keys

/-- The row of a registered key is the key itself. -/
def checkPersistedKey (executionKey : Str) (row : Row) : Statements Unit := Script.lift do
  let persisted ← validatePersistedExecutionKey (row.cell 0)
  raiseIf (Str.ofText persisted ≠ executionKey)
    (malformed "ExecutionKey lookup violated exact identity semantics")

def registerExecutionKeyBody (executionKey : Str) : Statements ExecutionKeyRegistration := do
  validateStore
  match ← Statements.select .executionKeys executionKey with
  | none => do
      Statements.insert .executionKeys do
        let executionKey ← bindText executionKey
        return [.text executionKey]
      return .new
  | some row => do
      checkPersistedKey executionKey row
      return .duplicate

def executionKeyExistsBody (executionKey : Str) : Statements Bool := do
  validateStore
  match ← Statements.select .executionKeys executionKey with
  | none => return false
  | some row => do
      checkPersistedKey executionKey row
      return true

/-- The check five operations begin with, each with its own message. -/
def requireRegistered (executionKey : Str) (message : String) : Statements Unit := do
  match ← Statements.select .executionKeys executionKey with
  | none => .raise (.store .executionKeyNotRegisteredError message)
  | some row => checkPersistedKey executionKey row

end Keys

section Bindings

def bindCommandSpecHashBody (executionKey commandSpecHash : Str) : Statements CommandSpecBindingResult := do
  validateStore
  requireRegistered executionKey "CommandSpecHash binding requires a registered ExecutionKey"
  match ← Statements.select .executionCommandBindings executionKey with
  | none => do
      Statements.insert .executionCommandBindings do
        let executionKey ← bindText executionKey
        let commandSpecHash ← bindText commandSpecHash
        return [.text executionKey, .text commandSpecHash]
      return .bound
  | some row => do
      let persistedHash ← Script.lift (validatePersistedCommandSpecHash (row.cell 1))
      Script.lift (raiseIf (Str.ofText persistedHash ≠ commandSpecHash)
        (.store .commandSpecConflictError "ExecutionKey is already bound to a different CommandSpecHash"))
      return .alreadyBound

def readCommandSpecHashBody (executionKey : Str) : Statements (Option Text) := do
  validateStore
  requireRegistered executionKey "CommandSpecHash read requires a registered ExecutionKey"
  match ← Statements.select .executionCommandBindings executionKey with
  | none => return none
  | some row => some <$> Script.lift (validatePersistedCommandSpecHash (row.cell 1))

def requireBinding (executionKey : Str) (message : String) : Statements Text := do
  match ← Statements.select .executionCommandBindings executionKey with
  | none => .raise (.store .executionKeyNotCommandBoundError message)
  | some row => Script.lift (validatePersistedCommandSpecHash (row.cell 1))

end Bindings

section Admissions

def executionAdmissionFromRow (row : Row) : Except PyError ExecutionAdmission := do
  let admittedKey ← validatePersistedExecutionKey (row.cell 0)
  let admittedScope ← validatePersistedScope (row.cell 1)
  let admittedGeneration ← validatePersistedGeneration (row.cell 2)
  return { executionKey := admittedKey, authorityScope := admittedScope, controllerGeneration := admittedGeneration }

/-- The fence: the generation of the scope must be the expected one. -/
def requireCurrentGeneration (authorityScope : Str) (generation : Int) (message : String) : Statements Unit := do
  match ← Statements.select .controllerGenerations authorityScope with
  | none => .raise (.store .controllerGenerationNotCurrentError message)
  | some row => Script.lift do
      let currentGeneration ← validatePersistedGeneration (row.cell 1)
      raiseIf (currentGeneration ≠ generation) (.store .controllerGenerationNotCurrentError message)

def admitExecutionBody (executionKey authorityScope : Str) (generation : Int) :
    Statements ExecutionAdmissionResult := do
  validateStore
  requireRegistered executionKey "execution admission requires a registered ExecutionKey"
  let _ ← requireBinding executionKey "execution admission requires an immutable CommandSpecHash binding"
  requireCurrentGeneration authorityScope generation "expected ControllerGeneration is not current"
  match ← Statements.select .executionAdmissions executionKey with
  | none => do
      Statements.insert .executionAdmissions do
        let executionKey ← bindText executionKey
        let authorityScope ← bindText authorityScope
        let generation ← bindInteger generation
        return [.text executionKey, .text authorityScope, .integer generation]
      return .admitted
  | some row => do
      let admission ← Script.lift (executionAdmissionFromRow row)
      Script.lift (raiseIf (Str.ofText admission.executionKey ≠ executionKey ∨
          Str.ofText admission.authorityScope ≠ authorityScope ∨ admission.controllerGeneration ≠ generation)
        (.store .executionAdmissionConflictError
          "ExecutionKey already has a different durable execution admission"))
      return .alreadyAdmitted

def readExecutionAdmissionBody (executionKey : Str) : Statements (Option ExecutionAdmission) := do
  validateStore
  requireRegistered executionKey "execution admission read requires a registered ExecutionKey"
  match ← Statements.select .executionAdmissions executionKey with
  | none => return none
  | some row => some <$> Script.lift (executionAdmissionFromRow row)

end Admissions

section Launches

/-- `_execution_launch_from_row`. -/
def executionLaunchFromRow (row : Row) : Except PyError ExecutionLaunch := do
  let executionKey ← validatePersistedExecutionKey (row.cell 0)
  let commandSpecHash ← validatePersistedCommandSpecHash (row.cell 1)
  let authorityScope ← validatePersistedScope (row.cell 2)
  let controllerGeneration ← validatePersistedGeneration (row.cell 3)
  let state ← validatePersistedLaunchState (row.cell 4)
  let exitCode ← validatePersistedExitCode (row.cell 5) state
  return { executionKey, commandSpecHash, authorityScope, controllerGeneration, state, exitCode }

/-- The claim's `SELECT` of the admission, which reads its scope and generation only. -/
def requireAdmission (executionKey authorityScope : Str) (generation : Int) : Statements Unit := do
  match ← Statements.select .executionAdmissions executionKey with
  | none => .raise (.store .executionAdmissionMissingError "launch claim requires a durable ExecutionAdmission")
  | some row => Script.lift do
      let admittedScope ← validatePersistedScope (row.cell 1)
      let admittedGeneration ← validatePersistedGeneration (row.cell 2)
      raiseIf (Str.ofText admittedScope ≠ authorityScope ∨ admittedGeneration ≠ generation)
        (.store .executionAdmissionMismatchError "launch claim must exactly match durable ExecutionAdmission")

/-- The claimed launch, from the parameters of the `INSERT`. -/
def launchIntent (executionKey authorityScope : Str) (generation : Int) (commandSpecHash : Str) :
    Except PyError ExecutionLaunch := do
  let executionKey ← bindText executionKey
  let commandSpecHash ← bindText commandSpecHash
  let authorityScope ← bindText authorityScope
  let generation ← bindInteger generation
  return {
    executionKey, commandSpecHash, authorityScope, controllerGeneration := generation
    state := .intent, exitCode := none }

def claimExecutionLaunchBody (executionKey authorityScope : Str) (generation : Int) (commandSpecHash : Str) :
    Statements ExecutionLaunch := do
  validateStore
  requireRegistered executionKey "launch claim requires a registered ExecutionKey"
  let boundHash ← requireBinding executionKey "launch claim requires an immutable CommandSpecHash binding"
  Script.lift (raiseIf (Str.ofText boundHash ≠ commandSpecHash)
    (.store .commandSpecHashMismatchError "concrete command does not match immutable CommandSpecHash binding"))
  requireAdmission executionKey authorityScope generation
  requireCurrentGeneration authorityScope generation "admitted ControllerGeneration is no longer current"
  let prior ← Statements.select .executionLaunches executionKey
  Script.lift (raiseIf (prior ≠ none)
    (.store .executionLaunchAlreadyClaimedError "ExecutionKey physical launch authority is already consumed"))
  let launch ← Script.lift (launchIntent executionKey authorityScope generation commandSpecHash)
  Statements.insert .executionLaunches (.ok [.text launch.executionKey, .text launch.commandSpecHash,
    .text launch.authorityScope, .integer launch.controllerGeneration, .text "intent".toList, .null])
  return launch

/-- The launch that a state transition starts from. -/
def requireLaunch (executionKey commandSpecHash : Str) (required : ExecutionLaunchState)
    (missing mismatch illegal : String) : Statements ExecutionLaunch := do
  match ← Statements.select .executionLaunches executionKey with
  | none => .raise (.store .executionLaunchStateError missing)
  | some row => Script.lift do
      let launch ← executionLaunchFromRow row
      raiseIf (Str.ofText launch.commandSpecHash ≠ commandSpecHash) (.store .commandSpecHashMismatchError mismatch)
      raiseIf (launch.state ≠ required) (.store .executionLaunchStateError illegal)
      return launch

def launchKeyParameters (executionKey commandSpecHash : Str) : Except PyError (Text × Text) := do
  let executionKey ← bindText executionKey
  let commandSpecHash ← bindText commandSpecHash
  return (executionKey, commandSpecHash)

/-- `WHERE execution_key = ? AND command_spec_hash = ? AND launch_state = '…' AND exit_code IS NULL`. -/
def launchCondition (state : ExecutionLaunchState) (key : Text × Text) (row : Row) : Bool :=
  row.cell 0 = .text key.1 ∧ row.cell 1 = .text key.2 ∧ row.cell 4 = .text state.value ∧ row.cell 5 = .null

def markExecutionLaunchUnknownBody (executionKey commandSpecHash : Str) : Statements ExecutionLaunch := do
  validateStore
  let launch ← requireLaunch executionKey commandSpecHash .intent "launch intent does not exist"
    "launch state does not match concrete CommandSpecHash"
    "only a fresh durable launch intent can transition to UNKNOWN"
  let rowcount ← Statements.update .executionLaunches (launchKeyParameters executionKey commandSpecHash)
    (launchCondition .intent)
    (fun _ row => row.set 4 (.text "unknown".toList))
  Script.lift (raiseIf (rowcount ≠ 1)
    (malformed "UNKNOWN transition did not affect exactly one launch row"))
  return { launch with state := .unknown, exitCode := none }

def recordExecutionTerminalResultBody (executionKey commandSpecHash : Str) (terminalExitCode : Int) :
    Statements ExecutionLaunch := do
  validateStore
  let launch ← requireLaunch executionKey commandSpecHash .unknown "launch claim does not exist"
    "terminal result does not match launch CommandSpecHash"
    "terminal result requires a durable UNKNOWN launch state"
  let rowcount ← Statements.update .executionLaunches
    (do
      let exitCode ← bindInteger terminalExitCode
      let key ← launchKeyParameters executionKey commandSpecHash
      return (exitCode, key))
    (fun (_, key) => launchCondition .unknown key)
    (fun (exitCode, _) row => (row.set 4 (.text "terminal".toList)).set 5 (.integer exitCode))
  Script.lift (raiseIf (rowcount ≠ 1)
    (malformed "terminal transition did not affect exactly one launch row"))
  return { launch with state := .terminal, exitCode := some terminalExitCode }

def readExecutionLaunchBody (executionKey : Str) : Statements (Option ExecutionLaunch) := do
  validateStore
  requireRegistered executionKey "execution launch read requires a registered ExecutionKey"
  match ← Statements.select .executionLaunches executionKey with
  | none => return none
  | some row => some <$> Script.lift (executionLaunchFromRow row)

end Launches

/-- Every operation checks that the handle is usable, then its arguments, then opens a transaction. -/
def operation {β α : Type} (arguments : Except PyError β) (transaction : β → Operation α) : Operation α := do
  requireUsableConnection
  match arguments with
  | .error error => throw error
  | .ok accepted => transaction accepted

def acquireGeneration (scope : PyValue) : Operation Int :=
  operation (validateScope scope) fun scope =>
    ordinary true "generation acquisition failed" (acquireGenerationBody scope)

def readGeneration (scope : PyValue) : Operation (Option Int) :=
  operation (validateScope scope) fun scope => ordinary false "generation read failed" (readGenerationBody scope)

/-- `type(generation) is not int or generation <= 0 or generation > _MAX_GENERATION`, negated. -/
def exactGeneration : PyValue → Option Int
  | .int generation => if generation ≤ 0 ∨ generation > maxGeneration then none else some generation
  | _ => none

def isCurrentGeneration (scope generation : PyValue) : Operation Bool :=
  operation (validateScope scope) fun _ =>
    match exactGeneration generation with
    | none => return false
    | some generation => do
        let current ← readGeneration scope
        return current = some generation

def registerExecutionKey (executionKey : PyValue) : Operation ExecutionKeyRegistration :=
  operation (validateExecutionKey executionKey) fun executionKey =>
    ordinary true "ExecutionKey registration failed" (registerExecutionKeyBody executionKey)

def executionKeyExists (executionKey : PyValue) : Operation Bool :=
  operation (validateExecutionKey executionKey) fun executionKey =>
    ordinary false "ExecutionKey existence read failed" (executionKeyExistsBody executionKey)

/-- The checks of a key and a command hash. -/
def validateKeyAndHash (executionKey commandSpecHash : PyValue) : Except PyError (Str × Str) := do
  let executionKey ← validateExecutionKey executionKey
  let commandSpecHash ← validateCommandSpecHash commandSpecHash
  return (executionKey, commandSpecHash)

def bindCommandSpecHash (executionKey commandSpecHash : PyValue) : Operation CommandSpecBindingResult :=
  operation (validateKeyAndHash executionKey commandSpecHash) fun (executionKey, commandSpecHash) =>
    ordinary true "CommandSpecHash binding failed" (bindCommandSpecHashBody executionKey commandSpecHash)

def readCommandSpecHash (executionKey : PyValue) : Operation (Option Text) :=
  operation (validateExecutionKey executionKey) fun executionKey =>
    ordinary false "CommandSpecHash read failed" (readCommandSpecHashBody executionKey)

def validateAdmission (executionKey authorityScope expectedGeneration : PyValue) :
    Except PyError (Str × Str × Int) := do
  let executionKey ← validateExecutionKey executionKey
  let authorityScope ← validateScope authorityScope
  let generation ← validateControllerGeneration expectedGeneration
  return (executionKey, authorityScope, generation)

def admitExecution (executionKey authorityScope expectedGeneration : PyValue) : Operation ExecutionAdmissionResult :=
  operation (validateAdmission executionKey authorityScope expectedGeneration)
    fun (executionKey, authorityScope, generation) =>
      ordinary true "execution admission failed" (admitExecutionBody executionKey authorityScope generation)

def readExecutionAdmission (executionKey : PyValue) : Operation (Option ExecutionAdmission) :=
  operation (validateExecutionKey executionKey) fun executionKey =>
    ordinary false "execution admission read failed" (readExecutionAdmissionBody executionKey)

def validateClaim (executionKey authorityScope expectedGeneration commandSpecHash : PyValue) :
    Except PyError ((Str × Str × Int) × Str) := do
  let admission ← validateAdmission executionKey authorityScope expectedGeneration
  let commandSpecHash ← validateCommandSpecHash commandSpecHash
  return (admission, commandSpecHash)

def claimExecutionLaunch (executionKey authorityScope expectedGeneration commandSpecHash : PyValue) :
    Operation ExecutionLaunch :=
  operation (validateClaim executionKey authorityScope expectedGeneration commandSpecHash)
    fun ((executionKey, authorityScope, generation), commandSpecHash) =>
      consequential "execution launch claim"
        (claimExecutionLaunchBody executionKey authorityScope generation commandSpecHash)

def markExecutionLaunchUnknown (executionKey commandSpecHash : PyValue) : Operation ExecutionLaunch :=
  operation (validateKeyAndHash executionKey commandSpecHash) fun (executionKey, commandSpecHash) =>
    consequential "execution launch UNKNOWN transition"
      (markExecutionLaunchUnknownBody executionKey commandSpecHash)

def validateTerminalResult (executionKey commandSpecHash exitCode : PyValue) :
    Except PyError ((Str × Str) × Int) := do
  let key ← validateKeyAndHash executionKey commandSpecHash
  let terminalExitCode ← validateProcessExitCode exitCode
  return (key, terminalExitCode)

def recordExecutionTerminalResult (executionKey commandSpecHash exitCode : PyValue) : Operation ExecutionLaunch :=
  operation (validateTerminalResult executionKey commandSpecHash exitCode)
    fun ((executionKey, commandSpecHash), terminalExitCode) =>
      consequential "execution terminal-result transition"
        (recordExecutionTerminalResultBody executionKey commandSpecHash terminalExitCode)

def readExecutionLaunch (executionKey : PyValue) : Operation (Option ExecutionLaunch) :=
  operation (validateExecutionKey executionKey) fun executionKey =>
    ordinary false "execution launch read failed" (readExecutionLaunchBody executionKey)

end Umbilical.Authority
