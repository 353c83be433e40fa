import Umbilical.Shared.Interleaving

set_option autoImplicit false

/-!
# Latent workers

`AbstractLatentWorker` with its state, its `_start_stop_lock` and its
`_substantiation_notifier`. An event is what happens between two points at which the code
waits or calls back: a lock that is released is handed over at once, and its new holder
goes on with an event of its own.
-/

namespace Umbilical.Worker

/-- `States`. -/
inductive States where
  | notSubstantiated
  | substantiating
  | substantiatingStarting
  | substantiated
  | insubstantiating
  | insubstantiatingSubstantiating
  | shutDown
  deriving DecidableEq

/-- Who acquires `_start_stop_lock`, with what it knows by then. -/
inductive Task where
  | substantiate (build : Option Nat) (start_success dont_wait_to_attach : Bool)
  | insubstantiate (fast : Bool) (force_substantiation_build : Option Nat)
  | check_instance
  | stopService
  deriving DecidableEq

/-- What is done with `_start_stop_lock`. It is `granted` until its holder goes on. -/
inductive Lock where
  | free
  | granted (task : Task)
  -- within start_instance
  | starting (dont_wait_to_attach : Bool)
  -- within insubstantiate, and within stop_instance if there is something to stop
  | insubstantiating (stopping : Bool)
  -- within check_instance, and within what follows a bad result
  | checking
  | reporting
  deriving DecidableEq

/-- The fields by which the operations meet. Waiters are the deferreds of `_substantiation_notifier`. -/
structure Core where
  state : States
  lock : Lock
  waiting : List Task
  waiters : Nat
  deriving DecidableEq

/-- A call of `_substantiate` that neither has nor awaits the lock. -/
inductive Run where
  | machine (build : Option Nat) (dont_wait_to_attach : Bool)
  | released (start_success dont_wait_to_attach : Bool)
  deriving DecidableEq

/-- Where `stopService` is. -/
inductive Service where
  | running
  | locking
  | locked
  | disconnecting
  | stopped
  deriving DecidableEq

/-- `machine` says that there is an `ILatentMachine`. -/
structure Settings where
  machine : Bool
  build_wait_timeout : Int

/-- A worker without a machine, which is disconnected when it has had nothing to do for a while. -/
def Settings.cloud : Settings where
  machine := false
  build_wait_timeout := 600

structure Latent where
  core : Core
  conn : Bool
  -- calls of attached that are not done
  attaching : Nat
  substantiation_build : Option Nat
  runs : List Run
  service : Service
  deriving DecidableEq

/-- What the operations do that can be seen. `requested` is a call of `substantiate` that has to wait, `cancelled`
a `LatentWorkerSubstantiatiationCancelled` for those that wait. -/
inductive Call where
  | requested
  | cancelled
  | start_instance (build : Option Nat)
  | started
  | stop_instance (fast : Bool)
  | stopped
  | moved (before after : States)
  | assertionFails
  deriving DecidableEq

inductive Event where
  | substantiate (build : Option Nat)
  | insubstantiate (fast : Bool)
  | soft_disconnect (fast : Bool)
  -- the lock has been handed over
  | resume
  | machineReturns (run : Nat) (start_success : Option Bool)
  | startInstanceReturns (start_success : Bool)
  | runGoesOn (run : Nat)
  -- stop_instance returns, or there was nothing to wait for
  | insubstantiated
  | attached
  | attachedReturns (succeeds : Bool)
  | detached
  | missingTimerFires
  | checkTimerFires
  | checkInstanceReturns (is_good : Bool)
  | reported
  | stopService
  | stopServiceGoesOn
  | stopServiceWaited
  deriving DecidableEq

namespace Core

variable (core : Core)

/-- `acquire` of the lock, by a task that goes on at once if it is free. -/
def join (task : Task) : Core :=
  match core.lock with
  | .free => { core with lock := .granted task }
  | _ => { core with waiting := core.waiting ++ [task] }

def release : Core :=
  match core.waiting with
  | [] => { core with lock := .free }
  | task :: waiting => { core with lock := .granted task, waiting := waiting }

variable {core} {task : Task}

@[simp] theorem release_state : core.release.state = core.state := by
  unfold release
  split <;> rfl

@[simp] theorem release_waiters : core.release.waiters = core.waiters := by
  unfold release
  split <;> rfl

@[simp] theorem join_state : (core.join task).state = core.state := by
  unfold join
  split <;> rfl

@[simp] theorem join_waiters : (core.join task).waiters = core.waiters := by
  unfold join
  split <;> rfl

variable (core)

def moveTo (state : States) : Core := { core with state := state }

/-- Those that wait are told that it is cancelled, if there are any. -/
def cancels : List Call := if core.waiters = 0 then [] else [.cancelled]

end Core

/-- The end of a call of `stop_instance`, if there was one. -/
def ended (stopping : Bool) : List Call := if stopping then [.stopped] else []

/-- One thing after the other. -/
def andThen {σ ο : Type} (first : σ × List ο) (next : σ → σ × List ο) : σ × List ο :=
  ((next first.1).1, first.2 ++ (next first.1).2)

namespace Latent

def new : Latent where
  core := ⟨.notSubstantiated, .free, [], 0⟩
  conn := false
  attaching := 0
  substantiation_build := none
  runs := []
  service := .running

variable (settings : Settings) (worker : Latent)

/-- What the new holder of the lock does until it waits or releases it. -/
def go : Latent × List Call :=
  match worker.core.lock with
  | .granted (.substantiate build true dont_wait_to_attach) =>
      ({ worker with core := { worker.core with state := .substantiatingStarting, lock := .starting dont_wait_to_attach } },
        [.moved worker.core.state .substantiatingStarting, .start_instance build])
  | .granted (.substantiate _ false dont_wait_to_attach) =>
      ({ worker with core := worker.core.release, runs := worker.runs ++ [.released false dont_wait_to_attach] }, [])
  | .granted (.insubstantiate fast force_substantiation_build) =>
      match worker.core.state with
      | .insubstantiating | .insubstantiatingSubstantiating =>
          ({ worker with core := worker.core.release }, [.assertionFails])
      | .notSubstantiated | .shutDown => ({ worker with core := worker.core.release }, [])
      | prev_state =>
          let state := if force_substantiation_build.isSome then .insubstantiatingSubstantiating else .insubstantiating
          let cancels := prev_state = .substantiating ∨ prev_state = .substantiatingStarting
          let stops := decide (prev_state = .substantiatingStarting ∨ prev_state = .substantiated)
          ({ worker with
              core := { worker.core with
                state := state
                lock := .insubstantiating stops
                waiters := if cancels then 0 else worker.core.waiters }
              substantiation_build := force_substantiation_build.or worker.substantiation_build },
            .moved prev_state state :: (if cancels then worker.core.cancels else []) ++
              if stops then [.stop_instance fast] else [])
  | .granted .check_instance => ({ worker with core := { worker.core with lock := .checking } }, [])
  | .granted .stopService => ({ worker with core := worker.core.release, service := .locked }, [])
  | _ => (worker, [])

def acquire (task : Task) : Latent × List Call :=
  let joined := { worker with core := worker.core.join task }
  if worker.core.lock = .free then joined.go else (joined, [])

def _substantiate (build : Option Nat) : Latent × List Call :=
  let dont_wait_to_attach := decide (settings.build_wait_timeout < 0) && worker.conn
  if settings.machine then ({ worker with runs := worker.runs ++ [.machine build dont_wait_to_attach] }, [])
  else worker.acquire (.substantiate build true dont_wait_to_attach)

def insubstantiate (fast : Bool) (force_substantiation_build : Option Nat) : Latent × List Call :=
  match worker.core.state with
  | .insubstantiatingSubstantiating =>
      -- there is another insubstantiation, which has the lock
      andThen ({ worker with
          core := { worker.core with state := .insubstantiating, waiters := 0 }
          substantiation_build := none },
        .moved .insubstantiatingSubstantiating .insubstantiating :: worker.core.cancels)
        (acquire · (.insubstantiate fast force_substantiation_build))
  | _ => worker.acquire (.insubstantiate fast force_substantiation_build)

def _substantiation_failed : Latent × List Call :=
  if worker.core.state = .substantiating ∨ worker.core.state = .substantiatingStarting then
    insubstantiate { worker with core := { worker.core with waiters := 0 } } false none
  else worker.insubstantiate false none

def substantiate (build : Option Nat) : Latent × List Call :=
  let waits := { worker with core := { worker.core with waiters := worker.core.waiters + 1 } }
  match worker.core.state with
  | .shutDown => (worker, [])
  | .substantiating | .substantiatingStarting | .insubstantiatingSubstantiating => (waits, [.requested])
  | .substantiated =>
      if worker.conn then (worker, [])
      -- the connection dropped: clean up, and then substantiate normally
      else andThen (waits, [.requested]) (insubstantiate · false build)
  | .notSubstantiated =>
      andThen ({ waits with core := waits.core.moveTo .substantiating },
        [.requested, .moved .notSubstantiated .substantiating]) (_substantiate settings · build)
  | .insubstantiating =>
      ({ waits with core := waits.core.moveTo .insubstantiatingSubstantiating, substantiation_build := build },
        [.requested, .moved .insubstantiating .insubstantiatingSubstantiating])

/-- The rest of `insubstantiate`, which still has the lock. -/
def insubstantiated : Latent × List Call :=
  match worker.core.lock with
  | .insubstantiating stopping =>
      match worker.core.state with
      | .insubstantiatingSubstantiating =>
          let again := { worker with core := worker.core.moveTo .substantiating, substantiation_build := none }
          andThen (again, ended stopping ++ [.moved .insubstantiatingSubstantiating .substantiating]) fun worker' =>
            andThen (worker'._substantiate settings worker.substantiation_build) fun worker' =>
              ({ worker' with core := worker'.core.release }, [])
      | .insubstantiating =>
          ({ worker with core := (worker.core.moveTo .notSubstantiated).release },
            ended stopping ++ [.moved .insubstantiating .notSubstantiated])
      | _ => ({ worker with core := worker.core.release }, ended stopping ++ [.assertionFails])
  | _ => (worker, [])

/-- A call of `_substantiate` that has released the lock. -/
def goOn (start_success dont_wait_to_attach : Bool) : Latent × List Call :=
  if start_success = false then worker._substantiation_failed
  else if dont_wait_to_attach ∧ worker.core.state = .substantiatingStarting ∧ worker.conn then
    ({ worker with core := { worker.core with state := .substantiated, waiters := 0 } },
      [.moved .substantiatingStarting .substantiated])
  -- otherwise the instance is checked from time to time
  else (worker, [])

def attached : Latent × List Call :=
  if worker.core.state ≠ .substantiatingStarting ∧ 0 ≤ settings.build_wait_timeout then (worker, [])
  -- `AbstractWorker.attached` refuses a second connection
  else if worker.conn then worker._substantiation_failed
  else ({ worker with conn := true, attaching := worker.attaching + 1 }, [])

def attachedReturns (succeeds : Bool) : Latent × List Call :=
  if succeeds = false then worker._substantiation_failed
  else if worker.core.state = .substantiating ∨ worker.core.state = .substantiatingStarting then
    ({ worker with core := { worker.core with state := .substantiated, waiters := 0 } },
      [.moved worker.core.state .substantiated])
  else ({ worker with core := { worker.core with waiters := 0 } }, [])

/-- The loop of `stopService`, from its condition on. -/
def turn : Latent × List Call :=
  match worker.core.state with
  | .notSubstantiated =>
      ({ worker with core := worker.core.moveTo .shutDown, service := .stopped }, [.moved .notSubstantiated .shutDown])
  | .shutDown => ({ worker with service := .stopped }, [])
  | .substantiated => ({ worker with service := .locked }, [])
  | _ => acquire { worker with service := .locking } .stopService

def step : Event → Latent × List Call
  | .substantiate build => worker.substantiate settings build
  | .insubstantiate fast => worker.insubstantiate fast none
  -- a negative timeout means that the worker is only disconnected
  | .soft_disconnect fast => if settings.build_wait_timeout < 0 then (worker, []) else worker.insubstantiate fast none
  | .resume => worker.go
  | .machineReturns run start_success =>
      match worker.runs[run]? with
      | some (.machine build dont_wait_to_attach) =>
          let worker := { worker with runs := worker.runs.eraseIdx run }
          match start_success with
          | none => worker._substantiation_failed
          | some start_success => worker.acquire (.substantiate build start_success dont_wait_to_attach)
      | _ => (worker, [])
  | .startInstanceReturns start_success =>
      match worker.core.lock with
      | .starting dont_wait_to_attach =>
          ({ worker with
            core := worker.core.release
            runs := worker.runs ++ [.released start_success dont_wait_to_attach] }, [.started])
      | _ => (worker, [])
  | .runGoesOn run =>
      match worker.runs[run]? with
      | some (.released start_success dont_wait_to_attach) =>
          goOn { worker with runs := worker.runs.eraseIdx run } start_success dont_wait_to_attach
      | _ => (worker, [])
  | .insubstantiated => worker.insubstantiated settings
  | .attached => worker.attached settings
  | .attachedReturns succeeds =>
      if worker.attaching = 0 then (worker, [])
      else attachedReturns { worker with attaching := worker.attaching - 1 } succeeds
  | .detached => ({ worker with conn := false }, [])
  | .missingTimerFires => worker._substantiation_failed
  | .checkTimerFires =>
      if worker.core.state = .substantiatingStarting ∧ worker.core.lock = .free then worker.acquire .check_instance
      else (worker, [])
  | .checkInstanceReturns is_good =>
      match worker.core.lock with
      | .checking =>
          if is_good then ({ worker with core := worker.core.release }, [])
          -- the lock is kept until the failure has been reported
          else _substantiation_failed { worker with core := { worker.core with lock := .reporting } }
      | _ => (worker, [])
  | .reported =>
      match worker.core.lock with
      | .reporting => ({ worker with core := worker.core.release }, [])
      | _ => (worker, [])
  | .stopService =>
      match worker.service with
      | .running => worker.turn
      | _ => (worker, [])
  | .stopServiceGoesOn =>
      match worker.service with
      | .locked =>
          let worker := { worker with service := .disconnecting }
          if worker.conn ∨ worker.core.state = .substantiated ∨ worker.core.state = .substantiatingStarting then
            worker.insubstantiate false none
          else (worker, [])
      | _ => (worker, [])
  | .stopServiceWaited =>
      match worker.service with
      | .disconnecting => worker.turn
      | _ => (worker, [])

end Latent

end Umbilical.Worker
