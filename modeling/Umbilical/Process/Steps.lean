import Umbilical.Process.Claims
import Umbilical.Process.Abandonment

set_option autoImplicit false

/-!
# The steps of a build

A build goes from its locks to its steps, and from each step to the next one,
while stops, disconnections and the doings of all other owners of the locks come
in between.
-/

namespace Umbilical.Process

open Locks

inductive Results where
  | success
  | warnings
  | failure
  | skipped
  | exception
  | retry
  | cancelled
  deriving DecidableEq

/-- The flags of a step that decide whether it runs and how it counts. -/
structure Step where
  alwaysRun : Bool
  haltOnFailure : Bool
  deriving DecidableEq

/-- Whether `computeResultAndTermination` ends the build. -/
def terminates (step : Step) : Results → Bool
  | .failure => step.haltOnFailure
  | .exception | .retry | .cancelled => true
  | .success | .warnings | .skipped => false

/-- The fields of a `Build` that have to do with its steps. `begun` says that `startBuild` has come to them,
`returned` is the step whose results are being merged. -/
structure BuildRun where
  steps : List Step
  executedSteps : List Step
  currentStep : Option (Step × Option Results)
  returned : Option (Step × Results)
  conn : Bool
  terminate : Bool
  finished : Bool
  begun : Bool

namespace BuildRun

/-- Before `startBuild` comes to the steps, on a worker that is connected. -/
def new (steps : List Step) : BuildRun where
  steps := steps
  executedSteps := []
  currentStep := none
  returned := none
  conn := true
  terminate := false
  finished := false
  begun := false

def getNextStep (conn terminate stopped : Bool) : List Step → Option Step × List Step
  | [] => (none, [])
  | step :: steps =>
      if conn = false then (none, step :: steps)
      else if (terminate || stopped) = false ∨ step.alwaysRun = true then (some step, steps)
      else getNextStep conn terminate stopped steps

def buildFinished (run : BuildRun) : BuildRun := { run with finished := true, conn := false }

def startNextStep (run : BuildRun) (stopped : Bool) : BuildRun :=
  match getNextStep run.conn run.terminate stopped run.steps with
  | (none, steps) => { run with steps := steps }.buildFinished
  | (some step, steps) => { run with
      steps := steps
      executedSteps := run.executedSteps ++ [step]
      currentStep := some (step, none) }

def startStepReturns (run : BuildRun) (results : Results) : BuildRun :=
  match run.currentStep with
  | some (step, some _) =>
      if run.finished then { run with currentStep := none }
      else { run with currentStep := none, returned := some (step, results) }
  | _ => run

def stepDone (run : BuildRun) (stopped : Bool) : BuildRun :=
  match run.returned with
  | none => run
  | some (step, results) =>
      let terminate := terminates step results || run.conn = false
      { run with returned := none, terminate := run.terminate || terminate }.startNextStep stopped

/-- An exception out of a step, or out of what merges its results. -/
def raises (run : BuildRun) : BuildRun :=
  if run.currentStep.isSome || run.returned.isSome then { run with returned := none }.buildFinished else run

end BuildRun

/-- A build with its steps, among all who use its locks. -/
structure Session (κ ρ : Type) where
  world : World κ ρ
  run : BuildRun

inductive Happening (κ ρ : Type) where
  | acquireLocks
  | wakeup
  | startNextStep
  | stepResults (results : Results)
  | startStepReturns (results : Results)
  | stepDone
  | raises
  | stopBuild
  | lostRemote
  | releaseLocks
  | other (lock : κ) (use : Use ρ)

namespace Session

variable {κ ρ : Type} [DecidableEq κ] [DecidableEq ρ]

def new (self : ρ) (maxCount : κ → Int) (locksToAcquire : List (κ × LockAccess)) (steps : List Step) : Session κ ρ where
  world := .new maxCount fun requester => if requester = self then some (.build, locksToAcquire) else none
  run := .new steps

variable (self : ρ) (session : Session κ ρ)

def on (event : Event κ ρ) : Session κ ρ × List Step := ({ session with world := (session.world.step event).1 }, [])

/-- The steps go on, which shows in the steps that have been started. -/
def goOn (run : BuildRun) : Session κ ρ × List Step :=
  ({ session with run := run }, run.executedSteps.drop session.run.executedSteps.length)

def step : Happening κ ρ → Session κ ρ × List Step
  | .acquireLocks => session.on (.acquire self)
  | .wakeup => session.on (.wakeup self)
  | .startNextStep =>
      match session.world.parties self with
      | none => (session, [])
      | some party =>
          -- `acquireLocks` has come back, whether it has claimed the locks or not
          if session.run.begun = false ∧ (party.phase = .claimed ∨ party.phase = .skipped) then
            session.goOn ({ session.run with begun := true }.startNextStep party.stopped)
          else (session, [])
  | .stepResults results =>
      match session.run.currentStep with
      | some (step, none) => session.goOn { session.run with currentStep := some (step, some results) }
      | _ => (session, [])
  | .startStepReturns results => session.goOn (session.run.startStepReturns results)
  | .stepDone =>
      match session.world.parties self with
      | none => (session, [])
      | some party => session.goOn (session.run.stepDone party.stopped)
  | .raises => session.goOn session.run.raises
  | .stopBuild => if session.run.finished then (session, []) else session.on (.stop self)
  | .lostRemote =>
      if session.run.conn = false then (session, [])
      else
        let lost := { session with run := { session.run with conn := false } }
        match session.run.currentStep with
        -- the step is interrupted, and the build waits for it
        | some (_, none) => (lost, [])
        | _ => lost.on (.stop self)
  | .releaseLocks => if session.run.finished then session.on (.release self) else (session, [])
  | .other lock use => session.on (.other lock use)

/-- Once a step has been started and until the build is finished, every unit of its list is owned. An access of no
units has nothing to be owned: `claim` does not record it. -/
def HoldsLocks : Prop :=
  session.run.executedSteps ≠ [] → session.run.finished = false → ∀ party ∈ session.world.parties self,
    ∀ wanted ∈ party.locksToAcquire, wanted.2.count ≠ 0 →
      (self, wanted.2) ∈ (session.world.locks wanted.1).owners

/-- A build that has been stopped before it had its locks has no connection, or no step that always runs. -/
def BeginsWithLocks : Happening κ ρ → Prop
  | .startNextStep => session.run.begun = false → ∀ party ∈ session.world.parties self, party.phase = .skipped →
      session.run.conn = false ∨ ∀ step ∈ session.run.steps, step.alwaysRun = false
  | _ => True

instance (happening : Happening κ ρ) : Decidable (session.BeginsWithLocks self happening) := by
  cases happening <;> unfold BeginsWithLocks <;> infer_instance

end Session

section Owners

variable {κ ρ : Type} [DecidableEq κ] [DecidableEq ρ] {self : ρ} {locks locks' : κ → BaseLock ρ} {d : Deferred}

theorem stopWaitingUntilAvailable_owners {lock after : BaseLock ρ} {access : LockAccess} {woken : Option (List Deferred)}
    (left : lock.stopWaitingUntilAvailable self access d = .ok (after, woken)) : after.owners = lock.owners := by
  unfold BaseLock.stopWaitingUntilAvailable at left
  cases found : lock.findWaiting self with
  | none =>
    rw [found] at left
    cases left
  | some index =>
    rw [found] at left
    simp only at left
    split at left
    · split_ifs at left
      cases left
      rfl
    · cases left
      rfl

/-- Nobody else releases what a requester owns. -/
theorem useLock_owners {lock after : BaseLock ρ} {use : Use ρ} {woken : List Deferred} {access : LockAccess}
    (other : self ∉ requester use) (used : useLock lock d use = (after, woken))
    (owned : (self, access) ∈ lock.owners) : (self, access) ∈ after.owners := by
  cases use with
  | claim owner access' =>
    cases claimed : lock.claim owner access' with
    | error =>
      simp only [useLock, claimed] at used
      cases used
      exact owned
    | ok =>
      simp only [useLock, claimed] at used
      cases used
      exact (claim_grown claimed).1.owners _ owned
  | release owner access' =>
    have different : (self, access) ≠ (owner, access') := fun same => other (congrArg (some ∘ Prod.fst) same).symm
    simp only [useLock, BaseLock.release, BaseLock.removeOwner] at used
    split_ifs at used <;> cases used
    · exact owned
    · simpa using (List.mem_erase_of_ne different).mpr owned
    · exact owned
  | setMaxCount count =>
    simp only [useLock, BaseLock.setMaxCount] at used
    split_ifs at used <;> cases used <;> exact owned
  | stopWaitingUntilAvailable owner access' waited =>
    cases left : lock.stopWaitingUntilAvailable owner access' waited with
    | error =>
      simp only [useLock, left] at used
      cases used
      exact owned
    | ok =>
      simp only [useLock, left] at used
      cases used
      exact stopWaitingUntilAvailable_owners left ▸ owned
  | waitUntilMaybeAvailable owner access' _ =>
    cases waited : lock.waitUntilMaybeAvailable owner access' d with
    | error =>
      simp only [useLock, waited] at used
      cases used
      exact owned
    | ok =>
      simp only [useLock, waited] at used
      cases used
      exact BaseLock.waitUntilMaybeAvailable_owners waited ▸ owned

/-- What a build has to do with its locks in every state. -/
structure Build.Settled (caller : ρ) (locks : κ → BaseLock ρ) (build : Build κ) : Prop where
  claimed : build.phase = .claimed → ∀ wanted ∈ build.locksToAcquire, wanted.2.count ≠ 0 →
    (caller, wanted.2) ∈ (locks wanted.1).owners
  skipped : build.phase = .skipped → build.stopped = true
  acquiring : build.acquiringLock ≠ none → ∃ d, build.phase = .waiting d

omit [DecidableEq κ] [DecidableEq ρ] in
theorem Build.Settled.of_owners {build : Build κ} (settled : build.Settled self locks)
    (owners : ∀ lock access, (self, access) ∈ (locks lock).owners → (self, access) ∈ (locks' lock).owners) :
    build.Settled self locks' where
  claimed phase wanted member units := owners _ _ (settled.claimed phase wanted member units)
  skipped := settled.skipped
  acquiring := settled.acquiring

theorem Build.acquireLocks_settled {build build' : Build κ} {failures : List Failure}
    (acquired : build.acquireLocks self locks d = (locks', build', failures)) :
    build'.Settled self locks' ∧ build'.phase ≠ .released := by
  unfold Build.acquireLocks at acquired
  simp only at acquired
  split_ifs at acquired with nothing stopped
  · cases acquired
    refine ⟨⟨fun _ wanted member => ?_, nofun, nofun⟩, nofun⟩
    simp only [nothing] at member
    cases member
  · cases acquired
    exact ⟨⟨nofun, fun _ => stopped, nofun⟩, nofun⟩
  · unfold takeLocks at acquired
    cases first : firstUnavailable self locks build.locksToAcquire with
    | some pair =>
      rw [first] at acquired
      simp only at acquired
      cases waited : (locks pair.1).waitUntilMaybeAvailable self pair.2 d with
      | error =>
        rw [waited] at acquired
        cases acquired
        exact ⟨⟨nofun, nofun, nofun⟩, nofun⟩
      | ok =>
        rw [waited] at acquired
        cases acquired
        exact ⟨⟨nofun, nofun, fun _ => ⟨d, rfl⟩⟩, nofun⟩
    | none =>
      rw [first] at acquired
      cases claims : claimAll self locks build.locksToAcquire with
      | mk locks'' failure =>
        rw [claims] at acquired
        cases failure with
        | none =>
          cases acquired
          exact ⟨⟨fun _ wanted member units => claimAll_owned claims member units, nofun, nofun⟩, nofun⟩
        | some failure =>
          cases acquired
          exact ⟨⟨nofun, nofun, nofun⟩, nofun⟩

theorem Build.stop_settled {build build' : Build κ} {woken : List Deferred} {failures : List Failure}
    (settled : build.Settled self locks) (stopped : build.stop self locks = (locks', build', woken, failures)) :
    build'.Settled self locks' ∧
      (build'.phase = build.phase ∨ (∃ d, build.phase = .waiting d) ∧ build'.phase ≠ .released) := by
  unfold Build.stop at stopped
  obtain ⟨wanted, acquiringLock, already, phase⟩ := build
  cases acquiringLock with
  | none =>
    cases stopped
    exact ⟨⟨settled.claimed, fun _ => rfl, settled.acquiring⟩, .inl rfl⟩
  | some wait =>
    obtain ⟨lock, access, d⟩ := wait
    obtain ⟨d', waits⟩ := settled.acquiring nofun
    have waits : phase = .waiting d' := waits
    subst waits
    simp only at stopped
    cases left : (locks lock).stopWaitingUntilAvailable self access d with
    | error failure =>
      rw [left] at stopped
      cases stopped
      exact ⟨⟨nofun, nofun, fun _ => ⟨d', rfl⟩⟩, .inl rfl⟩
    | ok result =>
      obtain ⟨after, woken'⟩ := result
      rw [left] at stopped
      cases woken' with
      | some woken' =>
        cases stopped
        exact ⟨⟨nofun, nofun, fun _ => ⟨d', rfl⟩⟩, .inl rfl⟩
      | none =>
        rcases called : Build.acquireLocks self (Function.update locks lock after)
          ⟨wanted, some (lock, access, d), true, .waiting d'⟩ d with ⟨locks'', build'', failures''⟩
        simp only [called] at stopped
        cases stopped
        obtain ⟨settled', unreleased⟩ := Build.acquireLocks_settled called
        exact ⟨settled', .inr ⟨⟨d', rfl⟩, unreleased⟩⟩

end Owners

variable {κ ρ : Type} [DecidableEq κ] [DecidableEq ρ] {self : ρ} {world : World κ ρ} {build : Build κ}

/-- A requester is a build that has settled its locks. -/
def World.Settled (world : World κ ρ) (self : ρ) (phase : Phase) : Prop :=
  ∃ build, world.parties self = some (.ofBuild build) ∧ build.Settled self world.locks ∧ build.phase = phase

theorem World.acquireLocks_settled (self : ρ) (world : World κ ρ) (build : Build κ) (scheduled : List Deferred) :
    ∃ phase, phase ≠ .released ∧
      (World.acquireLocks { world with scheduled := scheduled } self (.ofBuild build)).1.Settled self phase := by
  rcases acquired : build.acquireLocks self world.locks world.next with ⟨locks', build', failures⟩
  obtain ⟨settled, unreleased⟩ := Build.acquireLocks_settled acquired
  refine ⟨build'.phase, unreleased, build', ?_, ?_, rfl⟩
  · simp [World.acquireLocks, Party.acquireLocks, acquired]
  · simpa [World.acquireLocks, Party.acquireLocks, acquired] using settled

/-- What its own events do to a build, short of the release. A build that is neither fresh nor waiting stays as it is. -/
theorem World.Settled.step {phase : Phase} {event : Event κ ρ} (settled : world.Settled self phase)
    (own : event = .acquire self ∨ event = .wakeup self ∨ event = .stop self ∨ ∃ lock use, event = .other lock use) :
    ∃ phase', (world.step event).1.Settled self phase' ∧
      (phase' = phase ∨ (phase = .idle ∨ ∃ d, phase = .waiting d) ∧ phase' ≠ .released) := by
  obtain ⟨build, known, settled, rfl⟩ := settled
  have steps := world.step_steps event
  generalize world.step event = result at steps
  cases steps with
  | still => exact ⟨_, ⟨build, known, settled, rfl⟩, .inl rfl⟩
  | @acquired other _ known' idle =>
    obtain rfl : other = self := by simpa using own
    cases known.symm.trans known'
    obtain ⟨phase', unreleased, settled'⟩ := World.acquireLocks_settled other world build world.scheduled
    exact ⟨phase', settled', .inr ⟨.inl idle, unreleased⟩⟩
  | @woken other _ d known' waiting called =>
    obtain rfl : other = self := by simpa using own
    cases known.symm.trans known'
    obtain ⟨phase', unreleased, settled'⟩ := World.acquireLocks_settled other world build (world.scheduled.erase d)
    exact ⟨phase', settled', .inr ⟨.inr ⟨d, waiting⟩, unreleased⟩⟩
  | @stopped other _ known' =>
    obtain rfl : other = self := by simpa using own
    cases known.symm.trans known'
    rcases stopped : build.stop other world.locks with ⟨locks', build', woken, failures⟩
    obtain ⟨settled', change⟩ := Build.stop_settled settled stopped
    refine ⟨build'.phase, ⟨build', ?_, ?_, rfl⟩, change.imp id fun change => ⟨.inr change.1, change.2⟩⟩
    · simp [World.stop, Party.stop, stopped]
    · simpa [World.stop, Party.stop, stopped] using settled'
  | released => simp at own
  | @used lock use after woken others used =>
    have mine : self ∉ requester use := fun caller => nomatch (others self caller).symm.trans known
    refine ⟨build.phase, ⟨build, known, settled.of_owners fun other access owned => ?_, rfl⟩, .inl rfl⟩
    by_cases same : other = lock
    · subst same
      simpa using useLock_owners mine used owned
    · simpa [same] using owned

/-- The release leaves nothing to be owned. -/
theorem World.Settled.release {phase : Phase} (settled : world.Settled self phase) :
    ∃ phase', (world.step (.release self)).1.Settled self phase' ∧ (phase' = phase ∨ phase' = .released) := by
  obtain ⟨build, known, settled, rfl⟩ := settled
  have steps := world.step_steps (.release self)
  generalize world.step (.release self) = result at steps
  cases steps with
  | still => exact ⟨_, ⟨build, known, settled, rfl⟩, .inl rfl⟩
  | released known' releases =>
    cases known.symm.trans known'
    have phase (d : Deferred) : build.phase ≠ .waiting d := by
      intro waiting
      simp [Party.Releases, Party.phase, waiting] at releases
    refine ⟨.released, ⟨{ build with phase := .released }, ?_, ⟨?_, ?_, fun waits => ?_⟩, rfl⟩, .inr rfl⟩
    · simp [World.releaseLocks, Party.releaseLocks, Build.releaseLocks]
    · simp
    · simp
    · obtain ⟨d, waiting⟩ := settled.acquiring waits
      exact absurd waiting (phase d)

namespace BuildRun

variable {run : BuildRun} {stopped : Bool}

/-- Where no step is left that a stopped build runs, none is found. -/
theorem getNextStep_stopped {conn terminate : Bool} {steps : List Step}
    (none : conn = false ∨ ∀ step ∈ steps, step.alwaysRun = false) :
    (getNextStep conn terminate true steps).1 = Option.none := by
  induction steps with
  | nil => rfl
  | cons step steps ih =>
    unfold getNextStep
    rcases none with lost | none
    · rw [if_pos lost]
    · split_ifs with lost runs
      · rfl
      · simp [none step List.mem_cons_self] at runs
      · exact ih (.inr fun other member => none other (List.mem_cons_of_mem _ member))

/-- The next step is started, or the build finished. -/
theorem startNextStep_cases (run : BuildRun) (stopped : Bool) :
    (∃ steps, run.startNextStep stopped = { run with steps := steps, finished := true, conn := false }) ∨
    ∃ step steps, (getNextStep run.conn run.terminate stopped run.steps).1 = some step ∧
      run.startNextStep stopped = { run with
        steps := steps
        executedSteps := run.executedSteps ++ [step]
        currentStep := some (step, none) } := by
  unfold startNextStep
  rcases getNextStep run.conn run.terminate stopped run.steps with ⟨_ | step, steps⟩
  · exact .inl ⟨steps, rfl⟩
  · exact .inr ⟨step, steps, rfl, rfl⟩

end BuildRun

namespace Session

variable {session : Session κ ρ}

/-- Where a build is with its steps, beside where it is with its locks. -/
structure Sound (caller : ρ) (session : Session κ ρ) (phase : Phase) : Prop where
  settled : session.world.Settled caller phase
  begun : session.run.begun = true → phase = .claimed ∨ phase = .skipped ∨ phase = .released
  released : phase = .released → session.run.finished = true
  skipped : session.run.begun = true → phase = .skipped → session.run.finished = true
  fresh : session.run.begun = false → session.run.executedSteps = [] ∧ session.run.finished = false
  started : (session.run.currentStep ≠ none ∨ session.run.returned ≠ none) → session.run.executedSteps ≠ []

omit [DecidableEq κ] [DecidableEq ρ] in
theorem Sound.holdsLocks {phase : Phase} (sound : Sound self session phase) : session.HoldsLocks self := by
  intro executed unfinished party known wanted member units
  obtain ⟨build, known', settled, rfl⟩ := sound.settled
  cases known'.symm.trans known
  have begun : session.run.begun = true := by
    by_contra notBegun
    exact executed (sound.fresh (by simpa using notBegun)).1
  rcases sound.begun begun with claimed | skipped | released
  · exact settled.claimed claimed wanted member units
  · exact absurd ((sound.skipped begun skipped).symm.trans unfinished) nofun
  · exact absurd ((sound.released released).symm.trans unfinished) nofun

/-- Something happens to the locks, and the steps stay as they are. -/
theorem Sound.on {phase : Phase} {event : Event κ ρ} (sound : Sound self session phase)
    (own : event = .acquire self ∨ event = .wakeup self ∨ event = .stop self ∨ ∃ lock use, event = .other lock use) :
    ∃ phase', Sound self (session.on event).1 phase' := by
  obtain ⟨phase', settled, change⟩ := sound.settled.step own
  refine ⟨phase', settled, ?_, ?_, ?_, sound.fresh, sound.started⟩
  · intro begun
    rcases change with rfl | ⟨idle | ⟨d, waiting⟩, _⟩
    · exact sound.begun begun
    · rcases sound.begun begun with done | done | done <;> cases idle.symm.trans done
    · rcases sound.begun begun with done | done | done <;> cases waiting.symm.trans done
  · intro released
    rcases change with rfl | ⟨_, unreleased⟩
    · exact sound.released released
    · exact absurd released unreleased
  · intro begun skipped
    rcases change with rfl | ⟨idle | ⟨d, waiting⟩, _⟩
    · exact sound.skipped begun skipped
    · rcases sound.begun begun with done | done | done <;> cases idle.symm.trans done
    · rcases sound.begun begun with done | done | done <;> cases waiting.symm.trans done

omit [DecidableEq κ] [DecidableEq ρ] in
/-- The steps go on, and the locks stay as they are. -/
theorem Sound.goOn {phase : Phase} {run : BuildRun} (sound : Sound self session phase)
    (begun : run.begun = session.run.begun) (finished : session.run.finished = true → run.finished = true)
    (fresh : run.begun = false → run.executedSteps = [] ∧ run.finished = false)
    (started : (run.currentStep ≠ none ∨ run.returned ≠ none) → run.executedSteps ≠ []) :
    Sound self (session.goOn run).1 phase where
  settled := sound.settled
  begun now := sound.begun (begun ▸ now)
  released now := finished (sound.released now)
  skipped now skipped := finished (sound.skipped (begun ▸ now) skipped)
  fresh := fresh
  started := started

omit [DecidableEq κ] [DecidableEq ρ] in
/-- The build gets to its next step out of one before. -/
theorem Sound.next {phase : Phase} {run : BuildRun} (sound : Sound self session phase) (stopped : Bool)
    (begun : run.begun = session.run.begun) (finished : session.run.finished = true → run.finished = true)
    (executed : run.executedSteps = session.run.executedSteps) (some : session.run.executedSteps ≠ []) :
    Sound self (session.goOn (run.startNextStep stopped)).1 phase := by
  have begun' : session.run.begun = true := by
    by_contra notBegun
    exact some (sound.fresh (by simpa using notBegun)).1
  rcases run.startNextStep_cases stopped with ⟨steps, last⟩ | ⟨step, steps, _, next⟩
  · rw [last]
    refine sound.goOn begun (fun _ => rfl) (fun notBegun => ?_) fun _ => executed ▸ some
    cases (begun.trans begun').symm.trans notBegun
  · rw [next]
    refine sound.goOn begun finished (fun notBegun => ?_) fun _ => by simp
    cases (begun.trans begun').symm.trans notBegun

theorem Sound.step {phase : Phase} (sound : Sound self session phase) (happening : Happening κ ρ)
    (begins : session.BeginsWithLocks self happening) : ∃ phase', Sound self (session.step self happening).1 phase' := by
  cases happening with
  | acquireLocks => exact sound.on (.inl rfl)
  | wakeup => exact sound.on (.inr (.inl rfl))
  | other lock use => exact sound.on (.inr (.inr (.inr ⟨lock, use, rfl⟩)))
  | stopBuild =>
    simp only [Session.step]
    split_ifs
    · exact ⟨phase, sound⟩
    · exact sound.on (.inr (.inr (.inl rfl)))
  | releaseLocks =>
    simp only [Session.step]
    split_ifs with finished
    · obtain ⟨phase', settled, change⟩ := sound.settled.release
      have begun : session.run.begun = true := by
        by_contra notBegun
        exact absurd ((sound.fresh (by simpa using notBegun)).2.symm.trans finished) nofun
      refine ⟨phase', settled, fun _ => ?_, fun _ => finished, fun _ _ => finished, sound.fresh, sound.started⟩
      rcases change with rfl | rfl
      · exact sound.begun begun
      · exact .inr (.inr rfl)
    · exact ⟨phase, sound⟩
  | lostRemote =>
    simp only [Session.step]
    split_ifs with lost
    · exact ⟨phase, sound⟩
    · have lost : Sound self { session with run := { session.run with conn := false } } phase :=
        ⟨sound.settled, sound.begun, sound.released, sound.skipped, sound.fresh, sound.started⟩
      split
      · exact ⟨phase, lost⟩
      · exact lost.on (.inr (.inr (.inl rfl)))
  | startNextStep =>
    simp only [Session.step]
    obtain ⟨build, known, settled, rfl⟩ := sound.settled
    rw [known]
    simp only
    split_ifs with begin
    · obtain ⟨notBegun, phase⟩ := begin
      obtain ⟨none, unfinished⟩ := sound.fresh notBegun
      have idle : session.run.currentStep = .none ∧ session.run.returned = .none := by
        by_contra some
        exact sound.started (by tauto) none
      rcases BuildRun.startNextStep_cases { session.run with begun := true } (Party.ofBuild build).stopped with
        ⟨steps, last⟩ | ⟨step, steps, found, next⟩
      · rw [last]
        refine ⟨build.phase, ⟨build, known, settled, rfl⟩, fun _ => ?_, fun _ => rfl, fun _ _ => rfl, nofun, fun some => ?_⟩
        · exact phase.imp_right .inl
        · exact absurd some (by simp [Session.goOn, idle])
      · rw [next]
        have claimed : build.phase = .claimed := by
          refine phase.resolve_right fun skipped => ?_
          -- a build that has been stopped finds no step that it runs
          have stopped : (Party.ofBuild build).stopped = true := settled.skipped skipped
          rw [stopped, BuildRun.getNextStep_stopped (begins notBegun _ known skipped)] at found
          cases found
        refine ⟨build.phase, ⟨build, known, settled, rfl⟩, fun _ => .inl claimed, fun released => ?_,
          fun _ skipped => ?_, nofun, fun _ => by simp [Session.goOn]⟩
        · cases claimed.symm.trans released
        · cases claimed.symm.trans skipped
    · exact ⟨_, sound⟩
  | stepResults results =>
    simp only [Session.step]
    split
    next step same => exact ⟨phase, sound.goOn rfl id sound.fresh fun _ => sound.started (.inl (by simp [same]))⟩
    next => exact ⟨phase, sound⟩
  | startStepReturns results =>
    simp only [Session.step, BuildRun.startStepReturns]
    split
    next step decided same =>
      have executed := sound.started (.inl (by simp [same]))
      split_ifs
      · exact ⟨phase, sound.goOn rfl id sound.fresh fun _ => executed⟩
      · exact ⟨phase, sound.goOn rfl id sound.fresh fun _ => executed⟩
    next => exact ⟨phase, sound.goOn rfl id sound.fresh sound.started⟩
  | stepDone =>
    simp only [Session.step, BuildRun.stepDone]
    split
    next => exact ⟨phase, sound⟩
    next party known =>
      split
      next => exact ⟨phase, sound.goOn rfl id sound.fresh sound.started⟩
      next step results returned =>
        exact ⟨phase, sound.next party.stopped rfl id rfl (sound.started (.inr (by simp [returned])))⟩
  | raises =>
    simp only [Session.step, BuildRun.raises]
    split_ifs with some
    · have executed : session.run.executedSteps ≠ [] := by
        refine sound.started ?_
        simpa [Option.isSome_iff_ne_none] using some
      refine ⟨phase, sound.goOn rfl (fun _ => rfl) (fun notBegun => ?_) fun _ => executed⟩
      exact absurd (sound.fresh notBegun).1 executed
    · exact ⟨phase, sound.goOn rfl id sound.fresh sound.started⟩

/-- A build that goes to its steps with its locks keeps them until it is finished. -/
theorem run_holdsLocks (self : ρ) (maxCount : κ → Int) (locksToAcquire : List (κ × LockAccess)) (steps : List Step)
    (happenings : List (Happening κ ρ))
    (begins : Interleaving.Always (Session.step self) (BeginsWithLocks self)
      (Session.new self maxCount locksToAcquire steps) happenings) :
    HoldsLocks self (Interleaving.final (Session.step self) (Session.new self maxCount locksToAcquire steps) happenings) := by
  have preserved (session : Session κ ρ) (happening : Happening κ ρ) (sound : ∃ phase, Sound self session phase)
      (begins : session.BeginsWithLocks self happening) :
      (∃ phase, Sound self (session.step self happening).1 phase) ∧
        ∀ started ∈ (session.step self happening).2, True := by
    obtain ⟨phase, sound⟩ := sound
    exact ⟨sound.step happening begins, fun _ _ => trivial⟩
  have initially : Sound self (Session.new self maxCount locksToAcquire steps) .idle := by
    refine ⟨⟨.new locksToAcquire, ?_, ⟨nofun, nofun, nofun⟩, rfl⟩, nofun, nofun, nofun, fun _ => ⟨rfl, rfl⟩, ?_⟩
    · simp [Session.new, World.new, Party.new]
    · rintro (some | some) <;> exact absurd rfl some
  obtain ⟨⟨_, sound⟩, _⟩ := Interleaving.final_of_always preserved ⟨_, initially⟩ begins
  exact sound.holdsLocks

section Instances

/-- A build of one lock with a step that always runs, before it has asked for the lock. -/
def cleansUp : Session Unit Nat := .new 0 (fun _ => 1) [((), ⟨.masterLock "database" 1, .exclusive, 1⟩)] [⟨true, false⟩]

theorem claimed_holdsLocks :
    HoldsLocks 0 (Interleaving.final (Session.step 0) cleansUp [.acquireLocks, .startNextStep, .stopBuild]) :=
  run_holdsLocks 0 (fun _ => 1) _ _ [.acquireLocks, .startNextStep, .stopBuild] ⟨by decide, by decide, by decide, trivial⟩

/-- Somebody else has the lock, the build is stopped while it waits for it, and its step runs all the same. -/
theorem stoppedWaiting_not_holdsLocks :
    ¬ HoldsLocks 0 (Interleaving.final (Session.step 0) cleansUp
      [.other () (.claim 1 ⟨.masterLock "database" 1, .exclusive, 1⟩), .acquireLocks, .stopBuild, .startNextStep]) := by
  intro holds
  have owned := holds (by decide) (by decide) _ rfl _ List.mem_cons_self (by decide)
  revert owned
  decide

end Instances

end Session

end Umbilical.Process
