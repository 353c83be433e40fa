import Umbilical.WorkGraph.Checkout

set_option autoImplicit false

/-!
# The WorkGraph client

One run of the client: it authenticates its target, then observes the execution
authority of the target's key or uses it up, and publishes what is terminal.
-/

namespace Umbilical.WorkGraph

open Python Authority Execution

structure WorkGraphRequest where
  revision : Text
  source : Path
  timeoutSeconds : Int

/-- `__post_init__`. -/
def WorkGraphRequest.validate (pathlib : Pathlib) (request : WorkGraphRequest) : Except PyError Unit := do
  raiseIf (¬ IsRevision request.revision) (.workGraphClientError "revision must be an exact lowercase 40-hex SHA")
  raiseIf (request.timeoutSeconds ≤ 0) (.workGraphClientError "timeout_seconds must be positive")
  raiseIf (pathlib.isAbsolute request.source = false) (.workGraphClientError "source must be an absolute path")

structure WorkGraphClientResult where
  executionKey : Str
  commandSpecHash : Option Str
  exitCode : Option Int
  launchState : Option ExecutionLaunchState
  publicationAttempted : Bool

/-- The commit status for an exit code. -/
def statusPayload (exitCode : Int) : StatusPayload where
  state := if exitCode = 0 then "success".toList else "failure".toList
  context := statusContext
  description :=
    if exitCode = 0 then "WorkGraph repository validation passed".toList
    else "WorkGraph repository validation did not pass".toList

def statusUrl (target : VerifiedWorkGraphTarget) : Text :=
  "https://api.github.com/repos/".toList ++ target.repositoryFullName ++ "/statuses/".toList ++ target.revision

section Steps

variable {isabs : Str → Bool}

def requireWindows : Client isabs Unit := do
  let name : Text ← ask .osName
  if name ≠ "nt".toList then refuse "the WorkGraph first client is supported only on Windows"

def requireToken : Client isabs Text := do
  match ← environ "GH_TOKEN" with
  | none | some [] => refuse "GH_TOKEN is required for authenticated WorkGraph operations"
  | some token => return token

def publishTerminalStatus (target : VerifiedWorkGraphTarget) (exitCode : Int) (token : Text) : Client isabs Unit := do
  let current ← verifyWorkgraphTarget target.revision token
  if current ≠ target then throw (.raised (.publicationError "GitHub target changed before status publication"))
  else
    let status : Int ← try ask (.post (statusUrl target) token (statusPayload exitCode)) catch
      | .fault .osError => throw (.raised (.publicationError "GitHub status publication outcome is unknown"))
      | error => throw error
    if status ≠ 201 then
      throw (.raised (.publicationError "GitHub status publication returned an unexpected response"))

def executionKeyExists (executionKey : PyValue) : Client isabs Bool := do
  match ← request (.executionKeyExists executionKey) with
  | .present value => return value
  | _ => return false

def readExecutionLaunch (executionKey : PyValue) : Client isabs (Option ExecutionLaunch) := do
  match ← request (.readExecutionLaunch executionKey) with
  | .launch value => return value
  | _ => return none

def readGeneration (scope : PyValue) : Client isabs (Option Int) := do
  match ← request (.readGeneration scope) with
  | .generation value => return value
  | _ => return none

def readExecutionAdmission (executionKey : PyValue) : Client isabs (Option ExecutionAdmission) := do
  match ← request (.readExecutionAdmission executionKey) with
  | .admitted value => return value
  | _ => return none

def executeLocalCommand (executionKey authorityScope controllerGeneration : PyValue) (commandSpec : LocalCommandSpec isabs) :
    Client isabs LocalExecutionResult := do
  Program.lift (← Program.act (Action.execute executionKey authorityScope controllerGeneration commandSpec))

end Steps

variable (pathlib : Pathlib) (db : CharacterDatabase) (sha256 : List UInt8 → Text) {isabs : Str → Bool}

/-- `with _open_store() as store`. -/
def withStore {α : Type} (openStore : Path → Client isabs Unit) (block : Client isabs α) : Client isabs α := do
  let path ← authorityStorePath pathlib
  assertAuthorityStoreOutsideCheckouts pathlib path
  openStore path
  Program.ensure block (Program.act (Action.close))

def openStore (path : Path) : Client isabs Unit := do
  inside (← Program.act (Action.openExisting path))

def createStore (path : Path) : Client isabs Unit := do
  mkdir (pathlib.parent path)
  inside (← Program.act (Action.initializeNew path))

/-- The launch of a key that somebody has claimed before is observed, and published where it is terminal. -/
def observe (target : VerifiedWorkGraphTarget) (key : Str) (token : Text) (prior : ExecutionLaunch) :
    Client isabs WorkGraphClientResult := do
  let hash := some (Str.ofText prior.commandSpecHash)
  if prior.state ≠ .terminal then return ⟨key, hash, none, some prior.state, false⟩
  else
    match prior.exitCode with
    | none => refuse "terminal launch is missing its exit code"
    | some exitCode => do
        publishTerminalStatus target exitCode token
        return ⟨key, hash, some exitCode, some prior.state, true⟩

/-- The admission of a key is the one of the current generation. -/
def ensureAdmission (key : PyValue) (generation : Int) : Client isabs Unit := do
  match ← readExecutionAdmission key with
  | none => do
      let _ ← request (.admitExecution key (textValue authorityScope) (.int generation))
  | some admission =>
      if admission.controllerGeneration ≠ generation then
        refuse "existing WorkGraph admission is not in the current generation"

/-- The checkout and the command are made and checked before the store hears of them. -/
def prepareCommand (request : WorkGraphRequest) (target : VerifiedWorkGraphTarget) (contract : Text) (key : Str) :
    Client isabs (LocalCommandSpec isabs × Str) := do
  let checkout ← prepareExactCheckout pathlib db sha256 target request.source key
  let commandSpec ← buildCommandSpec pathlib request.timeoutSeconds target checkout contract false
  let preflightSpec ← buildCommandSpec pathlib request.timeoutSeconds target checkout contract true
  runIntegrityPreflight preflightSpec
  if (← contractTree pathlib db) ≠ contract then refuse "Umbilical validation contract changed after preflight"
  else
    verifyCleanCheckout db checkout target
    return (commandSpec, ← inside (commandSpecHash sha256 commandSpec.fields))

def register (key : PyValue) (exists_ : Bool) : Client isabs Unit := do
  if exists_ = false then
    let _ ← request (.registerExecutionKey key)

/-- Authority is used up for a command, and its result published. -/
def launch (target : VerifiedWorkGraphTarget) (key : Str) (token : Text) (exists_ : Bool)
    (command : LocalCommandSpec isabs × Str) : Client isabs WorkGraphClientResult := do
  register (.str key) exists_
  let _ ← request (.bindCommandSpecHash (.str key) (.str command.2))
  match ← readGeneration (textValue authorityScope) with
  | none => refuse "fixed authority store has no initialized controller generation"
  | some generation =>
      ensureAdmission (.str key) generation
      let execution ← executeLocalCommand (.str key) (textValue authorityScope) (.int generation) command.1
      publishTerminalStatus target execution.exitCode token
      return ⟨key, some execution.commandSpecHash, some execution.exitCode, some .terminal, true⟩

/-- The launch of a key, if the key is registered. -/
def readPrior (key : PyValue) (exists_ : Bool) : Client isabs (Option ExecutionLaunch) :=
  if exists_ then readExecutionLaunch key else return none

/-- What a run does with the open store. -/
def useStore (request : WorkGraphRequest) (target : VerifiedWorkGraphTarget) (contract token : Text) (key : Str) :
    Client isabs WorkGraphClientResult := do
  let exists_ ← executionKeyExists (.str key)
  match ← readPrior (.str key) exists_ with
  | some prior => observe target key token prior
  | none => do
      let command ← prepareCommand pathlib db sha256 request target contract key
      launch target key token exists_ command

def runWorkgraphClient (request : WorkGraphRequest) : Client isabs WorkGraphClientResult := do
  inside (request.validate pathlib)
  requireWindows
  let token ← requireToken
  let target ← verifyWorkgraphTarget request.revision token
  let contract ← contractTree pathlib db
  let key ← inside (executionKey target contract)
  withStore pathlib openStore (useStore pathlib db sha256 request target contract token key)

def acquireGeneration : Client isabs Int := do
  match ← request (.acquireGeneration (textValue authorityScope)) with
  | .acquired generation => return generation
  | _ => return 0

def initializeWorkgraphClient : Client isabs Int := do
  requireWindows
  withStore pathlib (createStore pathlib) acquireGeneration

/-- The status `main` exits with after a run. An error that it does not catch ends the interpreter with 1. -/
def exitStatus : Except ClientError WorkGraphClientResult → Nat
  | .ok result =>
      match result.exitCode with
      | none => 2
      | some exitCode => if exitCode = 0 then 0 else 1
  | .error (.raised (.store _ _)) | .error (.raised (.workGraphClientError _)) | .error (.raised (.publicationError _)) => 2
  | .error _ => 1

end Umbilical.WorkGraph
