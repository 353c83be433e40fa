import Umbilical.Worker.Latent

set_option autoImplicit false

/-!
# What the operations of a latent worker come down to

Every event is a path of moves of the core. A policy says which moves are to be expected;
events that meet it only make those.
-/

namespace Umbilical.Worker

/-- Which moves are allowed. `takes` is about a task that goes on with the lock, in a state and with others waiting. -/
structure Policy where
  requests : Prop
  asks : Option Nat → Prop
  takes : States → List Task → Task → Prop
  attaches : Prop

/-- What direct calls do goes without a condition of its own. -/
structure Policy.Lawful (policy : Policy) : Prop where
  plain : ∀ state fast, policy.takes state [] (.insubstantiate fast none)
  forced : ∀ fast build, policy.asks build → policy.takes .substantiated [] (.insubstantiate fast build)
  check : ∀ state, policy.takes state [] .check_instance
  stop : ∀ state, policy.takes state [] .stopService
  starting : ∀ waiting build start_success dont_wait_to_attach,
    policy.takes .substantiating waiting (.substantiate build start_success dont_wait_to_attach)

namespace Core

/-- In these states those that wait for the worker may go on waiting. -/
def Attending (core : Core) : Prop :=
  core.state = .substantiating ∨ core.state = .substantiatingStarting ∨ core.state = .insubstantiatingSubstantiating

inductive Move (policy : Policy) (core : Core) : List Call → Core → Prop where
  | notifies : Move policy core [] { core with waiters := 0 }
  | waits (requests : policy.requests) (attending : core.Attending) :
      Move policy core [.requested] { core with waiters := core.waiters + 1 }
  | begins (requests : policy.requests) (state : core.state = .notSubstantiated) :
      Move policy core [.requested, .moved .notSubstantiated .substantiating]
        { core with state := .substantiating, waiters := core.waiters + 1 }
  | reverses (requests : policy.requests) (state : core.state = .insubstantiating) :
      Move policy core [.requested, .moved .insubstantiating .insubstantiatingSubstantiating]
        { core with state := .insubstantiatingSubstantiating, waiters := core.waiters + 1 }
  | asks (build : Option Nat) (requests : policy.requests) (asks : policy.asks build) (state : core.state = .substantiated) :
      Move policy core [.requested] ({ core with waiters := core.waiters + 1 }.join (.insubstantiate false build))
  | joins (task : Task) (plain : ∀ fast build, task ≠ .insubstantiate fast (some build)) :
      Move policy core [] (core.join task)
  | passes (task : Task) (granted : core.lock = .granted task)
      (idle : ∀ fast build, task = .insubstantiate fast build → core.state = .notSubstantiated ∨ core.state = .shutDown) :
      Move policy core [] core.release
  | contradicts (fast : Bool) (build : Option Nat) (granted : core.lock = .granted (.insubstantiate fast build))
      (state : core.state = .insubstantiating ∨ core.state = .insubstantiatingSubstantiating) :
      Move policy core [.assertionFails] core.release
  | checks (granted : core.lock = .granted .check_instance) : Move policy core [] { core with lock := .checking }
  | reports (checking : core.lock = .checking) : Move policy core [] { core with lock := .reporting }
  | checked (checking : core.lock = .checking ∨ core.lock = .reporting) : Move policy core [] core.release
  | starts (build : Option Nat) (dont_wait_to_attach : Bool)
      (granted : core.lock = .granted (.substantiate build true dont_wait_to_attach))
      (takes : policy.takes core.state core.waiting (.substantiate build true dont_wait_to_attach)) :
      Move policy core [.moved core.state .substantiatingStarting, .start_instance build]
        { core with state := .substantiatingStarting, lock := .starting dont_wait_to_attach }
  | started (dont_wait_to_attach : Bool) (starting : core.lock = .starting dont_wait_to_attach) :
      Move policy core [.started] core.release
  | cleansUp (fast : Bool) (build : Option Nat) (granted : core.lock = .granted (.insubstantiate fast build))
      (takes : policy.takes core.state core.waiting (.insubstantiate fast build)) (state : core.state = .substantiated) :
      Move policy core [.moved .substantiated (if build.isSome then .insubstantiatingSubstantiating else .insubstantiating),
          .stop_instance fast]
        { core with
          state := if build.isSome then .insubstantiatingSubstantiating else .insubstantiating
          lock := .insubstantiating true }
  | aborts (fast : Bool) (build : Option Nat) (granted : core.lock = .granted (.insubstantiate fast build))
      (takes : policy.takes core.state core.waiting (.insubstantiate fast build))
      (state : core.state = .substantiating ∨ core.state = .substantiatingStarting) :
      Move policy core
        (.moved core.state (if build.isSome then .insubstantiatingSubstantiating else .insubstantiating) :: core.cancels ++
          if core.state = .substantiatingStarting then [.stop_instance fast] else [])
        { core with
          state := if build.isSome then .insubstantiatingSubstantiating else .insubstantiating
          lock := .insubstantiating (core.state = .substantiatingStarting)
          waiters := 0 }
  | ends (stopping : Bool) (lock : core.lock = .insubstantiating stopping) (state : core.state = .insubstantiating) :
      Move policy core (ended stopping ++ [.moved .insubstantiating .notSubstantiated])
        (core.moveTo .notSubstantiated).release
  | endsAgain (stopping : Bool) (tasks : List Task) (lock : core.lock = .insubstantiating stopping)
      (state : core.state = .insubstantiatingSubstantiating) :
      Move policy core (ended stopping ++ [.moved .insubstantiatingSubstantiating .substantiating])
        { core with state := .substantiating, waiting := core.waiting ++ tasks }.release
  | misses (stopping : Bool) (lock : core.lock = .insubstantiating stopping) (state : core.state ≠ .insubstantiating)
      (other : core.state ≠ .insubstantiatingSubstantiating) :
      Move policy core (ended stopping ++ [.assertionFails]) core.release
  | attaches (state : core.state = .substantiating ∧ policy.attaches ∨ core.state = .substantiatingStarting) :
      Move policy core [.moved core.state .substantiated] { core with state := .substantiated, waiters := 0 }
  | shutsDown (state : core.state = .notSubstantiated) :
      Move policy core [.moved .notSubstantiated .shutDown] (core.moveTo .shutDown)
  | cancels (state : core.state = .insubstantiatingSubstantiating) :
      Move policy core (.moved .insubstantiatingSubstantiating .insubstantiating :: core.cancels)
        { core with state := .insubstantiating, waiters := 0 }

inductive Path (policy : Policy) : Core → List Call → Core → Prop where
  | done (core : Core) : Path policy core [] core
  | move {core middle last : Core} {calls later : List Call} (first : core.Move policy calls middle)
      (rest : Path policy middle later last) : Path policy core (calls ++ later) last

variable {policy : Policy} {core middle last : Core} {calls later : List Call}

theorem Move.path (move : core.Move policy calls last) : core.Path policy calls last := by
  have path := Path.move move (.done last)
  rwa [List.append_nil] at path

theorem Path.append (first : core.Path policy calls middle) (rest : middle.Path policy later last) :
    core.Path policy (calls ++ later) last := by
  induction first with
  | done => exact rest
  | move move _ ih =>
    rw [List.append_assoc]
    exact .move move (ih rest)

/-- Nobody waits for a lock that is free. -/
def Tidy (core : Core) : Prop := core.lock = .free → core.waiting = []

theorem tidy_release : core.release.Tidy := by
  unfold release Tidy
  split
  · rename_i nobody
    exact fun _ => nobody
  · exact nofun

theorem tidy_join (task : Task) : (core.join task).Tidy := by
  unfold Core.join
  split
  · exact nofun
  · rename_i held
    exact fun free => absurd free held

theorem Move.tidy (move : core.Move policy calls last) (tidy : core.Tidy) : last.Tidy := by
  cases move with
  | asks build => exact tidy_join _
  | joins task => exact tidy_join task
  | passes | contradicts | checked | started | ends | endsAgain | misses => exact tidy_release
  | checks | reports | starts | cleansUp | aborts => exact nofun
  | notifies | waits | begins | reverses | attaches | shutsDown | cancels => exact tidy

theorem Path.tidy (path : core.Path policy calls last) (tidy : core.Tidy) : last.Tidy := by
  induction path with
  | done => exact tidy
  | move move _ ih => exact ih (move.tidy tidy)

/-- What every move keeps. -/
theorem Path.preserves {invariant : Core → Prop}
    (preserved : ∀ {core last : Core} {calls : List Call}, core.Move policy calls last → invariant core → invariant last)
    (path : core.Path policy calls last) (initially : invariant core) : invariant last := by
  induction path with
  | done => exact initially
  | move move _ ih => exact ih (preserved move initially)

/-- An observer that keeps up with every move. -/
theorem Path.observed {τ : Type} {advance : τ → Call → Option τ} {related : Core → τ → Prop}
    (followed : ∀ {core last : Core} {calls : List Call} {phase : τ}, core.Move policy calls last → related core phase →
      ∃ next, calls.foldlM advance phase = some next ∧ related last next)
    (path : core.Path policy calls last) {phase : τ} (initially : related core phase) :
    ∃ next, calls.foldlM advance phase = some next ∧ related last next := by
  induction path generalizing phase with
  | done => exact ⟨phase, rfl, initially⟩
  | move move _ ih =>
    obtain ⟨middle, accepted, relates⟩ := followed move initially
    obtain ⟨next, later, ends⟩ := ih relates
    refine ⟨next, ?_, ends⟩
    rw [List.foldlM_append, accepted]
    exact later

end Core

namespace Latent

open Umbilical.Worker.Core

variable {policy : Policy} {settings : Settings} {worker : Latent}

/-- The events that only make moves which the policy allows. -/
def Undisturbed (policy : Policy) (worker : Latent) : Event → Prop
  | .substantiate build => policy.requests ∧
      (worker.core.state = .substantiated → worker.conn = false → policy.asks build)
  | .resume => ∀ task, worker.core.lock = .granted task → policy.takes worker.core.state worker.core.waiting task
  | .machineReturns run (some start_success) => ∀ build dont_wait_to_attach,
      worker.runs[run]? = some (.machine build dont_wait_to_attach) → worker.core.lock = .free →
        policy.takes worker.core.state [] (.substantiate build start_success dont_wait_to_attach)
  | .attachedReturns _ => worker.core.state = .substantiating → policy.attaches
  | _ => True

theorem go_path (takes : ∀ task, worker.core.lock = .granted task → policy.takes worker.core.state worker.core.waiting task) :
    worker.core.Path policy worker.go.2 worker.go.1.core := by
  unfold Latent.go
  split
  · rename_i build dont_wait_to_attach granted
    exact (Move.starts build dont_wait_to_attach granted (takes _ granted)).path
  · rename_i granted
    exact (Move.passes _ granted nofun).path
  · rename_i fast force granted
    split
    · rename_i state
      exact (Move.contradicts fast force granted (.inl state)).path
    · rename_i state
      exact (Move.contradicts fast force granted (.inr state)).path
    · rename_i state
      exact (Move.passes _ granted fun _ _ _ => .inl state).path
    · rename_i state
      exact (Move.passes _ granted fun _ _ _ => .inr state).path
    · rename_i waits again nowhere shut
      -- one of the three states in which there is something to insubstantiate
      cases state : worker.core.state with
      | insubstantiating => exact absurd state waits
      | insubstantiatingSubstantiating => exact absurd state again
      | notSubstantiated => exact absurd state nowhere
      | shutDown => exact absurd state shut
      | substantiated =>
        have move := Move.cleansUp fast force granted (takes _ granted) state
        simpa [state] using move.path
      | substantiating =>
        have move := Move.aborts fast force granted (takes _ granted) (.inl state)
        simpa [state] using move.path
      | substantiatingStarting =>
        have move := Move.aborts fast force granted (takes _ granted) (.inr state)
        simpa [state] using move.path
  · rename_i granted
    exact (Move.checks granted).path
  · rename_i granted
    exact (Move.passes _ granted nofun).path
  · exact .done _

/-- A task that has asked for the lock goes on at once if it is free. -/
theorem acquire_path (tidy : worker.core.Tidy) {before : Core} {calls : List Call} {task : Task}
    (first : before.Path policy calls (worker.core.join task))
    (takes : worker.core.lock = .free → policy.takes worker.core.state [] task) :
    before.Path policy (calls ++ (worker.acquire task).2) (worker.acquire task).1.core := by
  unfold Latent.acquire
  split
  · rename_i free
    let joined : Latent := { worker with core := worker.core.join task }
    have goes : joined.core.Path policy joined.go.2 joined.go.1.core := go_path fun other granted => by
      have same : other = task := by simpa [joined, Core.join, free, eq_comm] using granted
      simpa [joined, Core.join, free, tidy free, same] using takes free
    exact first.append goes
  · rw [List.append_nil]
    exact first

theorem insubstantiate_path (worker : Latent) (lawful : policy.Lawful) (tidy : worker.core.Tidy) (fast : Bool) :
    worker.core.Path policy (worker.insubstantiate fast none).2 (worker.insubstantiate fast none).1.core := by
  unfold Latent.insubstantiate
  split
  · rename_i state
    let cancelled : Latent := { worker with
      core := { worker.core with state := .insubstantiating, waiters := 0 }
      substantiation_build := none }
    have cancels : worker.core.Path policy _ cancelled.core := (Move.cancels state).path
    have joins : cancelled.core.Path policy [] (cancelled.core.join (.insubstantiate fast none)) :=
      (Move.joins _ (by simp)).path
    have tidy' : cancelled.core.Tidy := tidy
    exact cancels.append (acquire_path tidy' joins fun _ => lawful.plain _ fast)
  · exact acquire_path tidy (Move.joins _ (by simp)).path fun _ => lawful.plain _ fast

theorem failed_path (lawful : policy.Lawful) (tidy : worker.core.Tidy) :
    worker.core.Path policy worker._substantiation_failed.2 worker._substantiation_failed.1.core := by
  unfold Latent._substantiation_failed
  split
  · let notified : Latent := { worker with core := { worker.core with waiters := 0 } }
    have tidy' : notified.core.Tidy := tidy
    have notifies : worker.core.Path policy [] notified.core := Move.notifies.path
    exact notifies.append (insubstantiate_path _ lawful tidy' false)
  · exact insubstantiate_path _ lawful tidy false

theorem substantiate_path (lawful : policy.Lawful) (tidy : worker.core.Tidy) {build : Option Nat}
    (undisturbed : worker.Undisturbed policy (.substantiate build)) :
    worker.core.Path policy (worker.substantiate settings build).2 (worker.substantiate settings build).1.core := by
  obtain ⟨requests, asks⟩ := undisturbed
  unfold Latent.substantiate
  split
  · exact .done _
  · rename_i state
    exact (Move.waits requests (.inl state)).path
  · rename_i state
    exact (Move.waits requests (.inr (.inl state))).path
  · rename_i state
    exact (Move.waits requests (.inr (.inr state))).path
  · rename_i state
    split
    · exact .done _
    · rename_i dropped
      let waits : Latent := { worker with core := { worker.core with waiters := worker.core.waiters + 1 } }
      have allowed := asks state (by simpa using dropped)
      have plain : waits.insubstantiate false build = waits.acquire (.insubstantiate false build) := by
        simp [Latent.insubstantiate, waits, state]
      have tidy' : waits.core.Tidy := tidy
      have path := acquire_path tidy' (Move.asks build requests allowed state).path
        fun _ => state ▸ lawful.forced false build allowed
      simp only [andThen]
      rw [plain]
      exact path
  · rename_i state
    have begins : worker.core.Path policy _ _ := (Move.begins requests state).path
    simp only [andThen]
    apply begins.append
    unfold Latent._substantiate
    split
    · exact .done _
    · let begun : Latent := { worker with
        core := { worker.core with state := .substantiating, waiters := worker.core.waiters + 1 } }
      have tidy' : begun.core.Tidy := tidy
      exact acquire_path tidy' (Move.joins _ (by simp)).path fun _ => lawful.starting _ _ _ _
  · rename_i state
    exact (Move.reverses requests state).path

/-- While the lock is held, `_substantiate` only asks for it. -/
theorem substantiate_held (settings : Settings) (worker : Latent) (held : worker.core.lock ≠ .free) (build : Option Nat) :
    ∃ tasks, (worker._substantiate settings build).1.core = { worker.core with waiting := worker.core.waiting ++ tasks } ∧
      (worker._substantiate settings build).2 = [] := by
  unfold Latent._substantiate
  split
  · exact ⟨[], by simp, rfl⟩
  · refine ⟨[.substantiate build true (decide (settings.build_wait_timeout < 0) && worker.conn)], ?_⟩
    unfold Latent.acquire
    rw [if_neg held]
    refine ⟨?_, rfl⟩
    unfold Core.join
    split
    · rename_i free
      exact absurd free held
    · rfl

theorem insubstantiated_path :
    worker.core.Path policy (worker.insubstantiated settings).2 (worker.insubstantiated settings).1.core := by
  unfold Latent.insubstantiated
  split
  · rename_i stopping lock
    split
    · rename_i state
      have held : (worker.core.moveTo .substantiating).lock ≠ .free := fun free => by
        have other : worker.core.lock = .free := free
        simp [lock] at other
      obtain ⟨tasks, core, silent⟩ := substantiate_held settings
        { worker with core := worker.core.moveTo .substantiating, substantiation_build := none } held
        worker.substantiation_build
      have move : worker.core.Path policy _ _ := (Move.endsAgain stopping tasks lock state).path
      simp only [andThen, List.append_nil]
      rw [core, silent, List.append_nil]
      exact move
    · rename_i state
      exact (Move.ends stopping lock state).path
    · rename_i other state
      exact (Move.misses stopping lock state other).path
  · exact .done _

theorem goOn_path (worker : Latent) (lawful : policy.Lawful) (tidy : worker.core.Tidy) (start_success dont_wait_to_attach : Bool) :
    worker.core.Path policy (worker.goOn start_success dont_wait_to_attach).2
      (worker.goOn start_success dont_wait_to_attach).1.core := by
  unfold Latent.goOn
  split
  · exact failed_path lawful tidy
  · split
    · rename_i attached
      have move : worker.core.Move policy _ _ := Move.attaches (.inr attached.2.1)
      rw [attached.2.1] at move
      exact move.path
    · exact .done _

theorem attachedReturns_path (worker : Latent) (lawful : policy.Lawful) (tidy : worker.core.Tidy) (succeeds : Bool)
    (undisturbed : worker.core.state = .substantiating → policy.attaches) :
    worker.core.Path policy (worker.attachedReturns succeeds).2 (worker.attachedReturns succeeds).1.core := by
  unfold Latent.attachedReturns
  split
  · exact failed_path lawful tidy
  · split
    · rename_i state
      exact (Move.attaches (state.imp (fun now => ⟨now, undisturbed now⟩) id)).path
    · exact Move.notifies.path

theorem turn_path (lawful : policy.Lawful) (tidy : worker.core.Tidy) :
    worker.core.Path policy worker.turn.2 worker.turn.1.core := by
  unfold Latent.turn
  split
  · rename_i state
    exact (Move.shutsDown state).path
  · exact .done _
  · exact .done _
  · let locking : Latent := { worker with service := .locking }
    have tidy' : locking.core.Tidy := tidy
    exact acquire_path tidy' (Move.joins _ (by simp)).path fun _ => lawful.stop _

/-- All that an event does. -/
theorem step_path (settings : Settings) (lawful : policy.Lawful) (tidy : worker.core.Tidy) {event : Event}
    (undisturbed : worker.Undisturbed policy event) :
    worker.core.Path policy (worker.step settings event).2 (worker.step settings event).1.core := by
  cases event with
  | substantiate build => exact substantiate_path lawful tidy undisturbed
  | insubstantiate fast => exact insubstantiate_path _ lawful tidy fast
  | soft_disconnect fast =>
    simp only [Latent.step]
    split
    · exact .done _
    · exact insubstantiate_path _ lawful tidy fast
  | resume => exact go_path undisturbed
  | machineReturns run start_success =>
    simp only [Latent.step]
    split
    · rename_i build dont_wait_to_attach here
      let rest : Latent := { worker with runs := worker.runs.eraseIdx run }
      have tidy' : rest.core.Tidy := tidy
      cases start_success with
      | none => exact failed_path lawful tidy'
      | some start_success =>
        exact acquire_path tidy' (Move.joins _ (by simp)).path (undisturbed build dont_wait_to_attach here)
    · exact .done _
  | startInstanceReturns start_success =>
    simp only [Latent.step]
    split
    · rename_i dont_wait_to_attach starting
      exact (Move.started dont_wait_to_attach starting).path
    · exact .done _
  | runGoesOn run =>
    simp only [Latent.step]
    split
    · let rest : Latent := { worker with runs := worker.runs.eraseIdx run }
      have tidy' : rest.core.Tidy := tidy
      exact goOn_path rest lawful tidy' _ _
    · exact .done _
  | insubstantiated => exact insubstantiated_path
  | attached =>
    simp only [Latent.step, Latent.attached]
    split
    · exact .done _
    · split
      · exact failed_path lawful tidy
      · exact .done _
  | attachedReturns succeeds =>
    simp only [Latent.step]
    split
    · exact .done _
    · let rest : Latent := { worker with attaching := worker.attaching - 1 }
      have tidy' : rest.core.Tidy := tidy
      exact attachedReturns_path rest lawful tidy' succeeds undisturbed
  | detached => exact .done _
  | missingTimerFires => exact failed_path lawful tidy
  | checkTimerFires =>
    simp only [Latent.step]
    split
    · exact acquire_path tidy (Move.joins _ (by simp)).path fun _ => lawful.check _
    · exact .done _
  | checkInstanceReturns is_good =>
    simp only [Latent.step]
    split
    · rename_i checking
      split
      · exact (Move.checked (.inl checking)).path
      · let reporting : Latent := { worker with core := { worker.core with lock := .reporting } }
        have tidy' : reporting.core.Tidy := nofun
        exact (Move.reports checking).path.append (failed_path lawful tidy')
    · exact .done _
  | reported =>
    simp only [Latent.step]
    split
    · rename_i reporting
      exact (Move.checked (.inr reporting)).path
    · exact .done _
  | stopService =>
    simp only [Latent.step]
    split
    · exact turn_path lawful tidy
    · exact .done _
  | stopServiceGoesOn =>
    simp only [Latent.step]
    split
    · split
      · let disconnecting : Latent := { worker with service := .disconnecting }
        have tidy' : disconnecting.core.Tidy := tidy
        exact insubstantiate_path disconnecting lawful tidy' false
      · exact .done _
    · exact .done _
  | stopServiceWaited =>
    simp only [Latent.step]
    split
    · exact turn_path lawful tidy
    · exact .done _

end Latent

end Umbilical.Worker
