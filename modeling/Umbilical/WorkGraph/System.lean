import Umbilical.Authority.System
import Umbilical.WorkGraph.Client

set_option autoImplicit false

/-!
# Clients on one store

Any number of processes run the client, again and again, and others use the same
store as they like. A client goes on by one question or by one step of its process
on the store.
-/

namespace Umbilical.WorkGraph

open Python Authority Execution

section Types

variable (isabs : Str → Bool) (sha256 : List UInt8 → Text)

/-- What the surroundings do when a client goes on. -/
structure Turn where
  answers : (question : Question isabs) → Except Fault (question.Answer isabs)
  outcomes : List Outcome
  /-- Whether a new store can be reserved. -/
  windows : Bool
  reserved : Bool
  /-- What the launcher returns, `none` for anything but an exact integer. -/
  exit : Except Fault (Option Int)

inductive Finished where
  | ran (result : WorkGraphClientResult)
  | initialized (generation : Int)

abbrev Thread := Client isabs Finished

inductive Event where
  | run (request : WorkGraphRequest)
  | create
  | go (turn : Turn isabs)
  | look
  | crash
  /-- A process that does not run the client uses the store. -/
  | other (event : Authority.Event isabs)

inductive Observation (π : Type) where
  | store (observed : Authority.Observation isabs sha256 π)
  | posted (process : π) (url : Text) (payload : StatusPayload)
  | returned (process : π) (finished : Finished)
  | raised (process : π) (error : ClientError)

structure World (π : Type) where
  authority : Authority.World isabs sha256 π
  threads : π → Option (Thread isabs)

end Types

variable {isabs : Str → Bool} {sha256 : List UInt8 → Text} {π : Type}

/-- How a call on the store has ended, if it has. -/
def conclusion : List (Authority.Observation isabs sha256 π) → Option (Except PyError (Option Response))
  | [.returned _ _ response] => some (.ok (some response))
  | [.opened _] | [.initialized _] => some (.ok none)
  | [.raised _ _ error _] => some (.error error)
  | _ => none

/-! Where a client goes, by how its process has ended a call. A transaction that tells nothing is the end of the process. -/

section Conclusions

def whenAnswered (next : Except PyError Response → Thread isabs) : Option (Except PyError (Option Response)) → Option (Thread isabs)
  | some (.ok (some response)) => some (next (.ok response))
  | some (.error error) => some (next (.error error))
  | _ => none

def whenOpened (waits : Option (Thread isabs)) (next : Except PyError Unit → Thread isabs) :
    Option (Except PyError (Option Response)) → Option (Thread isabs)
  | some (.ok _) => some (next (.ok ()))
  | some (.error error) => some (next (.error error))
  | none => waits

def whenLaunching (thread : Thread isabs) (next : Except ClientError LocalExecutionResult → Thread isabs) :
    Option (Except PyError (Option Response)) → Option (Thread isabs)
  | some (.ok _) => some thread
  | some (.error error) => some (next (.error (.raised error)))
  | none => none

def whenRecorded (result : LocalExecutionResult) (next : Except ClientError LocalExecutionResult → Thread isabs) :
    Option (Except PyError (Option Response)) → Option (Thread isabs)
  | some (.ok _) => some (next (.ok result))
  | some (.error error) => some (next (.error (.raised error)))
  | none => none

end Conclusions

/-- What a question shows outside. -/
def Question.shown (process : π) : Question isabs → List (Observation isabs sha256 π)
  | .post url _ payload => [.posted process url payload]
  | _ => []

namespace World

variable [DecidableEq π] (pathlib : Pathlib) (db : CharacterDatabase) (world : World isabs sha256 π) (process : π)

def become (thread : Option (Thread isabs)) : World isabs sha256 π :=
  { world with threads := Function.update world.threads process thread }

/-- A step of the process on the store, and where its client goes after it. -/
def advance (event : Authority.Event isabs)
    (next : Option (Except PyError (Option Response)) → Option (Thread isabs)) :
    World isabs sha256 π × List (Observation isabs sha256 π) :=
  let (authority, seen) := world.authority.step (process, event)
  ({ authority := authority, threads := Function.update world.threads process (next (conclusion seen)) }, seen.map .store)

/-- The next step of `execute_local_command`. -/
def goOnExecuting (turn : Turn isabs) (thread : Thread isabs) (next : Except ClientError LocalExecutionResult → Thread isabs)
    (executionKey authorityScope controllerGeneration : PyValue) (commandSpec : LocalCommandSpec isabs) :
    World isabs sha256 π × List (Observation isabs sha256 π) :=
  match (world.authority.processes process).stage with
  | .claiming _ | .marking _ => world.advance process (.proceed turn.outcomes) (whenLaunching thread next)
  | .launching _ => world.advance process (.proceed turn.outcomes) fun _ => some thread
  | .launched _ =>
      match turn.exit with
      | .ok (some exitCode) => world.advance process (.exit (some exitCode)) fun _ => some thread
      | .ok none =>
          world.advance process (.exit none) fun _ =>
            some (next (.error (.raised (.typeError "local process launcher must return an exact integer exit code"))))
      | .error fault => world.advance process (.exit none) fun _ => some (next (.error (.fault fault)))
  | .recording execution exitCode =>
      world.advance process (.proceed turn.outcomes)
        (whenRecorded ⟨execution.executionKey, execution.frozenHash, exitCode⟩ next)
  | _ =>
      match commandSpecHash sha256 commandSpec.fields with
      | .error error => (world.become process (some (next (.error (.raised error)))), [])
      | .ok _ =>
          world.advance process (.execute executionKey authorityScope controllerGeneration commandSpec) fun _ => some thread

/-- A client goes on. -/
def goOn (turn : Turn isabs) : Thread isabs → World isabs sha256 π × List (Observation isabs sha256 π)
  | .done finished => (world.become process none, [.returned process finished])
  | .raise error => (world.become process none, [.raised process error])
  | .perform (.ask question) next =>
      (world.become process (some (next (turn.answers question))), question.shown process)
  | .perform .close next => world.advance process .close fun _ => some (next ())
  | .perform (.request request) next => world.advance process (.call request turn.outcomes) (whenAnswered next)
  | .perform (.openExisting path) next =>
      match (world.authority.processes process).stage with
      | .opening _ _ => world.advance process (.proceed turn.outcomes) (whenOpened none next)
      | _ =>
          world.advance process (.openExisting (String.ofList path))
            (whenOpened (some (.perform (.openExisting path) next)) next)
  | .perform (.initializeNew path) next =>
      match (world.authority.processes process).stage with
      | .initializing _ => world.advance process (.proceed turn.outcomes) (whenOpened none next)
      | _ =>
          world.advance process (.reserve (String.ofList path) turn.windows turn.reserved)
            (whenOpened (some (.perform (.initializeNew path) next)) next)
  | .perform (.execute executionKey authorityScope controllerGeneration commandSpec) next =>
      world.goOnExecuting process turn
        (.perform (.execute executionKey authorityScope controllerGeneration commandSpec) next) next
        executionKey authorityScope controllerGeneration commandSpec

/-- A process that is in the middle of nothing begins to run a program. -/
def begin (thread : Thread isabs) : World isabs sha256 π × List (Observation isabs sha256 π) :=
  match (world.authority.processes process).stage with
  | .idle => (world.become process (some thread), [])
  | _ => (world, [])

def step : π × Event isabs → World isabs sha256 π × List (Observation isabs sha256 π)
  | (process, .crash) => world.advance process .crash fun _ => none
  | (process, event) =>
      match world.threads process, event with
      | none, .run request => world.begin process (Finished.ran <$> runWorkgraphClient pathlib db sha256 request)
      | none, .create => world.begin process (Finished.initialized <$> initializeWorkgraphClient pathlib)
      | none, .other event => world.advance process event fun _ => none
      | some thread, .go turn => world.goOn process turn thread
      | some thread, .look => world.advance process .look fun _ => some thread
      | _, _ => (world, [])

def start (store : Option Database) : World isabs sha256 π where
  authority := .start store
  threads := fun _ => none

end World

end Umbilical.WorkGraph
