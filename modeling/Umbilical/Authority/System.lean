import Umbilical.Authority.Migrations
import Umbilical.Authority.Refinement
import Umbilical.Execution.CommandSpec
import Umbilical.Shared.Interleaving

set_option autoImplicit false

/-!
# Processes on one store

Any number of processes, each with a handle of its own. Each transaction is one
step, and so is whatever else a process does between two of them.
-/

namespace Umbilical.Authority

open Python Execution

/-- What is durable at a path: no file, a reserved one, a valid store that holds a ledger, or a file that is
no store and so holds nothing for the callers. -/
inductive Durable : Option Database → Ledger → Prop
  | missing : Durable none .empty
  | reserved : Durable (some .empty) .empty
  | held {database : Database} {version : Nat} {ledger : Ledger} (since : 1 ≤ version) (known : version ≤ 5)
      (held : database.Holds version ledger) : Durable (some database) ledger
  | foreign {database : Database} (filled : database ≠ .empty)
      (invalid : ∀ version ledger, 1 ≤ version → version ≤ 5 → ¬ database.Holds version ledger) :
      Durable (some database) .empty

theorem Durable.total (store : Option Database) : ∃ ledger, Durable store ledger := by
  cases store with
  | none => exact ⟨_, .missing⟩
  | some database =>
    by_cases filled : database = .empty
    · subst filled
      exact ⟨_, .reserved⟩
    · by_cases valid : ∃ version ledger, 1 ≤ version ∧ version ≤ 5 ∧ database.Holds version ledger
      · obtain ⟨version, ledger, since, known, held⟩ := valid
        exact ⟨ledger, .held since known held⟩
      · exact ⟨_, .foreign filled fun version ledger since known held => valid ⟨version, ledger, since, known, held⟩⟩

theorem Ledger.rows_injective : Function.Injective Ledger.rows := by
  intro left right same
  have generations : left.generations = right.generations := by
    refine List.map_injective_iff.mpr (fun first second equal => ?_) (congrFun same .controllerGenerations)
    cases first
    cases second
    simpa [Generation.row] using equal
  have keys : left.keys = right.keys :=
    List.map_injective_iff.mpr (fun first second equal => by simpa [keyRow] using equal) (congrFun same .executionKeys)
  have bindings : left.bindings = right.bindings := by
    refine List.map_injective_iff.mpr (fun first second equal => ?_) (congrFun same .executionCommandBindings)
    cases first
    cases second
    simpa [CommandBinding.row] using equal
  have admissions : left.admissions = right.admissions := by
    refine List.map_injective_iff.mpr (fun first second equal => ?_) (congrFun same .executionAdmissions)
    cases first
    cases second
    simpa [ExecutionAdmission.row] using equal
  have launches : left.launches = right.launches := by
    refine List.map_injective_iff.mpr (fun first second equal => ?_) (congrFun same .executionLaunches)
    cases first
    cases second
    simpa [ExecutionLaunch.row, ExecutionLaunchState.value_injective.eq_iff, exitCodeCell_injective.eq_iff] using equal
  cases left
  cases right
  simp only at generations keys bindings admissions launches
  subst generations keys bindings admissions launches
  rfl

theorem Database.Holds.unique {database : Database} {version version' : Nat} {ledger ledger' : Ledger}
    (held : database.Holds version ledger) (held' : database.Holds version' ledger') : version = version' ∧ ledger = ledger' := by
  obtain rfl : version = version' := by exact_mod_cast held.versioned.symm.trans held'.versioned
  refine ⟨rfl, Ledger.rows_injective (funext fun table => ?_)⟩
  by_cases since : table.since ≤ version
  · exact (held.rows since).symm.trans (held'.rows since)
  · rw [held.later table (by omega), held'.later table (by omega)]

theorem Database.empty_not_holds {version : Nat} {ledger : Ledger} (since : 1 ≤ version) :
    ¬ Database.empty.Holds version ledger := by
  intro held
  have versioned : (0 : Int) = version := held.versioned
  omega

theorem Durable.unique {store : Option Database} {ledger ledger' : Ledger} (durable : Durable store ledger)
    (durable' : Durable store ledger') : ledger = ledger' := by
  cases durable with
  | missing => cases durable'; rfl
  | reserved =>
    cases durable' with
    | reserved | foreign => rfl
    | held since _ held => exact absurd held (Database.empty_not_holds since)
  | held since known held =>
    cases durable' with
    | reserved => exact absurd held (Database.empty_not_holds since)
    | held _ _ held' => exact (held.unique held').2
    | foreign _ invalid => exact absurd held (invalid _ _ since known)
  | foreign _ invalid =>
    cases durable' with
    | reserved | foreign => rfl
    | held since known held => exact absurd held (invalid _ _ since known)

/-- A valid store holds what is durable. -/
theorem Durable.ledger_eq {database : Database} {ledger ledger' : Ledger} (durable : Durable (some database) ledger)
    (held : database.Holds 5 ledger') : ledger = ledger' :=
  durable.unique (.held (by decide) le_rfl held)

def Handle.closed : Handle where
  poisoned := false
  connection := none

section Processes

variable (isabs : Str → Bool) (sha256 : List UInt8 → Text)

/-- The arguments of `execute_local_command`, with the hash of the command. -/
structure LocalExecution where
  executionKey : PyValue
  authorityScope : PyValue
  controllerGeneration : PyValue
  commandSpec : LocalCommandSpec isabs
  frozenHash : Str
  hashed : commandSpecHash sha256 commandSpec.fields = .ok frozenHash

/-- What a process is about to do next. -/
inductive Stage where
  | idle
  | opening (path : String) (views : List Database)
  | initializing (path : String)
  | migrating (migration : Migration)
  | claiming (execution : LocalExecution isabs sha256)
  | marking (execution : LocalExecution isabs sha256)
  | launching (execution : LocalExecution isabs sha256)
  | launched (execution : LocalExecution isabs sha256)
  | recording (execution : LocalExecution isabs sha256) (exitCode : Int)

structure Process where
  handle : Handle
  stage : Stage isabs sha256

inductive Event where
  | call (request : Request) (outcomes : List Outcome)
  | execute (executionKey authorityScope controllerGeneration : PyValue) (commandSpec : LocalCommandSpec isabs)
  | openExisting (path : String)
  | reserve (path : String) (windows reserved : Bool)
  | migrate (path : String) (migration : Migration) (outcomes : List Outcome)
  /-- A statement of `open_existing` looks at the store. -/
  | look
  | proceed (outcomes : List Outcome)
  /-- The launcher returns an exact integer, or something else, or raises. -/
  | exit (exitCode : Option Int)
  | close
  | crash

inductive Task where
  | request (request : Request)
  | openExisting
  | initializeNew
  | migrate (migration : Migration)

inductive Observation (π : Type) where
  | returned (process : π) (request : Request) (response : Response)
  | opened (process : π)
  | initialized (process : π)
  | migrated (process : π) (migration : Migration)
  | raised (process : π) (task : Task) (error : PyError) (commitStarted : Bool)
  /-- The launcher is entered. -/
  | entered (process : π) (execution : LocalExecution isabs sha256)

/-- `writer` has left a transaction open that began as an immediate one. -/
structure World (π : Type) where
  store : Option Database
  writer : Option π
  processes : π → Process isabs sha256

end Processes

variable {isabs : Str → Bool} {sha256 : List UInt8 → Text}

namespace LocalExecution

variable (execution : LocalExecution isabs sha256)

def claim : Request :=
  .claimExecutionLaunch execution.executionKey execution.authorityScope execution.controllerGeneration
    (.str execution.frozenHash)

def mark : Request := .markExecutionLaunchUnknown execution.executionKey (.str execution.frozenHash)

def record (exitCode : Int) : Request :=
  .recordExecutionTerminalResult execution.executionKey (.str execution.frozenHash) (.int exitCode)

end LocalExecution

def Process.new : Process isabs sha256 where
  handle := .closed
  stage := .idle

namespace World

variable {π : Type} [DecidableEq π] (world : World isabs sha256 π) (process : π)

def start (store : Option Database) : World isabs sha256 π where
  store := store
  writer := none
  processes := fun _ => .new

/-- A call on the handle of a process. -/
def callOn (durable : Database) (outcomes : List Outcome) : Call where
  durable := durable
  locked := world.writer.any (· ≠ process)
  handle := (world.processes process).handle
  outcomes := outcomes
  commitStarted := false

def become (next : Process isabs sha256) : World isabs sha256 π :=
  { world with
    writer := if (next.handle.connection.bind Connection.transaction).any Transaction.immediate then some process
      else world.writer.filter (· ≠ process)
    processes := Function.update world.processes process next }

def turnTo (stage : Stage isabs sha256) : World isabs sha256 π :=
  world.become process ⟨(world.processes process).handle, stage⟩

/-- The end of a call. A process that died has nobody to tell. -/
def conclude {α : Type} (task : Task) (next : α → Stage isabs sha256) (seen : α → List (Observation isabs sha256 π)) :
    EStateM.Result PyError Call α → World isabs sha256 π × List (Observation isabs sha256 π)
  | .ok value after => ({ world.become process ⟨after.handle, next value⟩ with store := some after.durable }, seen value)
  | .error error after =>
      if error = .processDied then ({ world.become process .new with store := some after.durable }, [])
      else ({ world.become process ⟨after.handle, .idle⟩ with store := some after.durable },
        [.raised process task error after.commitStarted])

def serve (request : Request) (next : Stage isabs sha256) (outcomes : List Outcome) (durable : Database) :
    World isabs sha256 π × List (Observation isabs sha256 π) :=
  world.conclude process (.request request) (fun _ => next) (fun response => [.returned process request response])
    (request.run (world.callOn process durable outcomes))

/-- The next step of what the process is in the middle of. -/
def proceed (outcomes : List Outcome) (durable : Database) : World isabs sha256 π × List (Observation isabs sha256 π) :=
  match (world.processes process).stage with
  | .idle | .launched _ => (world, [])
  | .opening path views =>
      world.conclude process .openExisting (fun _ => .idle) (fun _ => [.opened process])
        (openExisting path views (world.callOn process durable outcomes))
  | .initializing path =>
      world.conclude process .initializeNew (fun _ => .idle) (fun _ => [.initialized process])
        (initializeReserved path (world.callOn process durable outcomes))
  | .migrating migration =>
      world.conclude process (.migrate migration) (fun _ => .idle) (fun _ => [.migrated process migration])
        (migration.finish (world.callOn process durable outcomes))
  | .claiming execution => world.serve process execution.claim (.marking execution) outcomes durable
  | .marking execution => world.serve process execution.mark (.launching execution) outcomes durable
  | .launching execution => (world.turnTo process (.launched execution), [.entered process execution])
  | .recording execution exitCode => world.serve process (execution.record exitCode) .idle outcomes durable

/-- What a process begins when it is not in the middle of something. -/
def begin : Event isabs → World isabs sha256 π × List (Observation isabs sha256 π)
  | .call request outcomes =>
      match world.store with
      | none => (world, [])
      | some durable => world.serve process request .idle outcomes durable
  | .execute executionKey authorityScope controllerGeneration commandSpec =>
      match hashed : commandSpecHash sha256 commandSpec.fields with
      | .error _ => (world, [])
      | .ok frozenHash =>
          (world.turnTo process (.claiming
            ⟨executionKey, authorityScope, controllerGeneration, commandSpec, frozenHash, hashed⟩), [])
  | .openExisting path =>
      match world.store with
      | none => (world, [.raised process .openExisting (missing path) false])
      | some _ => (world.become process ⟨.closed, .opening path []⟩, [])
  | .reserve path windows reserved =>
      match reserve path windows reserved world.store with
      | .error error => (world, [.raised process .initializeNew error false])
      | .ok durable => ({ world.become process ⟨.closed, .initializing path⟩ with store := some durable }, [])
  | .migrate path migration outcomes =>
      match world.store with
      | none => (world, [.raised process (.migrate migration) (missing path) false])
      | some durable =>
          (world.become process ⟨.closed, .idle⟩).conclude process (.migrate migration) (fun _ => .migrating migration)
            (fun _ => []) (migration.start path ((world.become process ⟨.closed, .idle⟩).callOn process durable outcomes))
  | .close => (world.become process ⟨.closed, .idle⟩, [])
  | .look | .proceed _ | .exit _ | .crash => (world, [])

/-- A step of one process. -/
def step : π × Event isabs → World isabs sha256 π × List (Observation isabs sha256 π)
  | (process, .crash) => (world.become process .new, [])
  | (process, .look) =>
      match world.store, (world.processes process).stage with
      | some durable, .opening path views => (world.turnTo process (.opening path (views ++ [durable])), [])
      | _, _ => (world, [])
  | (process, .exit exitCode) =>
      match (world.processes process).stage, exitCode with
      | .launched execution, some exitCode => (world.turnTo process (.recording execution exitCode), [])
      | .launched _, none => (world.turnTo process .idle, [])
      | _, _ => (world, [])
  | (process, .proceed outcomes) =>
      match world.store with
      | none => (world, [])
      | some durable => world.proceed process outcomes durable
  | (process, event) =>
      match (world.processes process).stage with
      | .idle => world.begin process event
      | _ => (world, [])

end World

end Umbilical.Authority
