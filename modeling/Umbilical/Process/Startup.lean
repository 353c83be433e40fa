import Umbilical.Process.Steps

set_option autoImplicit false

/-!
# Starting a build

`startBuild` from the moment the builder has taken the worker to the moment the
steps are started, with all its exits. It is asynchronous: between any two events
below it waits, and stops and disconnections may come in.
-/

namespace Umbilical.Process

open Interleaving

/-- `CANCELLED` is the worst. -/
def worstStatus (a b : Results) : Results :=
  (([.cancelled, .retry, .exception, .failure, .warnings, .success, .skipped] : List Results).find?
    fun s => s = a ∨ s = b).getD a

/-- The worker of a worker for builder. -/
inductive WorkerPresence where
  | connected
  | disconnected
  | gone
  deriving DecidableEq

/-- The states of a worker for builder. -/
inductive WorkerState where
  | detached
  | available
  | building
  deriving DecidableEq

inductive Requests where
  | claimed
  | completed
  | unclaimed
  deriving DecidableEq

/-- How `substantiate_if_needed` ends. -/
inductive Substantiation where
  | ready
  | notReady
  | cannotSubstantiate
  | raises
  deriving DecidableEq

/-- What `buildPreparationFailure` is followed by. -/
inductive Afterwards where
  | finish (results : Results)
  | finishPreparation (cannotSubstantiate : Bool)
  deriving DecidableEq

/-- What `startBuild` comes to next. -/
inductive Stage where
  | doBuildIf
  | checkRequests (doBuild : Bool)
  | skip
  | setupLocks
  | setupBuild
  | prepareWorker
  | substantiating
  | ping
  | ready
  | remoteStartBuild
  | acquireLocks
  | startNextStep
  | preparationFailure (afterwards : Afterwards)
  | buildFinished
  /-- Its deferred has fired without the steps having been started. -/
  | returned
  | running
  deriving DecidableEq

structure Startup where
  stage : Stage
  latent : Bool
  stopped : Bool
  results : Results
  conn : Bool
  worker : WorkerPresence
  state : WorkerState
  building : Bool
  consuming : Bool
  requests : Requests
  entered : Nat
  deriving DecidableEq

inductive StartupEvent where
  | doBuildIf (doBuild : Option Bool)
  | checkRequests (cancelled : Bool)
  | skip
  | setupLocks (succeeds : Bool)
  | setupBuild (succeeds : Bool)
  | prepareWorker (locksAcquired : Bool)
  | substantiated (outcome : Substantiation)
  | ping (succeeds : Bool)
  | ready
  | remoteStartBuild (succeeds : Bool)
  | acquireLocks (succeeds : Bool)
  | startNextStep
  | failureReported
  | finishRecorded
  | stopBuild (results : Results)
  | lostRemote
  | disconnected
  | connected
  | detached
  deriving DecidableEq

namespace Startup

/-- After `_startBuildFor` has appended the build and taken the worker. -/
def new (latent connected : Bool) : Startup where
  stage := .doBuildIf
  latent := latent
  stopped := false
  results := .success
  conn := false
  worker := if connected then .connected else .disconnected
  state := .building
  building := true
  consuming := false
  requests := .claimed
  entered := 0

variable (startup : Startup)

/-- The part of `buildFinished` before it waits for the database. -/
def buildFinished (results : Results) : Startup :=
  { startup with
    stage := .buildFinished
    consuming := false
    conn := false
    results := worstStatus startup.results results
    entered := startup.entered + 1 }

/-- The rest of it. Its `except` clause logs what it catches. -/
def windUp : Startup :=
  if startup.results = .exception ∧ startup.worker = .gone then { startup with stage := .returned }
  else { startup with
    stage := .returned
    state := .available
    building := false
    requests := if startup.results = .retry then .unclaimed else .completed }

/-- `buildPreparationFailure` puts the worker into quarantine, unless the build has been stopped. -/
def preparationFailure (afterwards : Afterwards) : Startup :=
  if startup.stopped = false ∧ startup.worker = .gone then { startup with stage := .returned }
  else { startup with stage := .preparationFailure afterwards }

def afterPreparationFailure : Afterwards → Startup
  | .finish results => startup.buildFinished results
  | .finishPreparation cannotSubstantiate =>
      if startup.stopped then startup.buildFinished startup.results
      else if cannotSubstantiate then startup.buildFinished .exception
      else startup.buildFinished .retry

/-- What `startBuild` does when that which it waits for comes. -/
def resume : Stage → StartupEvent → Option Startup
  | .doBuildIf, .doBuildIf none => some { startup with stage := .returned }
  | .doBuildIf, .doBuildIf (some doBuild) => some { startup with stage := .checkRequests doBuild }
  | .checkRequests _, .checkRequests true =>
      some { startup with consuming := true, stopped := true, results := .cancelled, stage := .returned }
  | .checkRequests doBuild, .checkRequests false =>
      some { startup with consuming := true, stage := if doBuild then .setupLocks else .skip }
  | .skip, .skip => some ({ startup with results := .skipped }.buildFinished .skipped)
  | .setupLocks, .setupLocks succeeds =>
      some { startup with stage := if succeeds then .setupBuild else .returned }
  | .setupBuild, .setupBuild succeeds =>
      some (if succeeds then { startup with stage := .prepareWorker }
        else startup.preparationFailure (.finish .exception))
  | .prepareWorker, .prepareWorker locksAcquired =>
      some (if startup.worker ≠ .gone ∧ locksAcquired then
        -- another worker than a latent one has nothing to substantiate
        if startup.latent then { startup with stage := .substantiating, state := .detached }
        else { startup with stage := .ping }
        else startup.preparationFailure (.finishPreparation false))
  | .substantiating, .substantiated outcome =>
      some (match outcome with
        | .ready => { startup with stage := .ping }
        | .notReady | .raises => startup.preparationFailure (.finishPreparation false)
        | .cannotSubstantiate => startup.preparationFailure (.finishPreparation true))
  | .ping, .ping succeeds =>
      some (if succeeds then { startup with stage := .ready } else startup.preparationFailure (.finish .retry))
  | .ready, .ready =>
      -- without a worker an assertion fails, and without a connection there is nothing to be notified by
      some (if startup.worker = .connected then { startup with conn := true, stage := .remoteStartBuild }
        else { startup with stage := .returned })
  | .remoteStartBuild, .remoteStartBuild succeeds =>
      some (if succeeds then { startup with stage := .acquireLocks } else startup.preparationFailure (.finish .retry))
  | .acquireLocks, .acquireLocks succeeds =>
      some { startup with stage := if succeeds then .startNextStep else .returned }
  | .startNextStep, .startNextStep => some { startup with stage := .running }
  | .preparationFailure afterwards, .failureReported => some (startup.afterPreparationFailure afterwards)
  | .buildFinished, .finishRecorded => some startup.windUp
  | _, _ => none

/-- What comes in from outside, at any time. -/
def interfere : StartupEvent → Startup
  | .stopBuild results =>
      if startup.entered = 0 then { startup with stopped := true, results := results } else startup
  | .lostRemote =>
      if startup.conn then { startup with conn := false, results := .retry, stopped := true } else startup
  | .disconnected => if startup.worker = .connected then { startup with worker := .disconnected } else startup
  | .connected =>
      if startup.worker = .disconnected then { startup with
        worker := .connected
        state := if startup.latent ∧ startup.state = .detached then .building else startup.state }
      else startup
  | .detached => { startup with worker := .gone, state := if startup.latent then startup.state else .detached }
  | _ => startup

def step (event : StartupEvent) : Startup × List Results :=
  match startup.resume startup.stage event with
  | none => (startup.interfere event, [])
  | some resumed => (resumed, if resumed.entered = startup.entered then [] else [resumed.results])

/-- The build has left everything that it took. -/
structure WoundUp : Prop where
  once : startup.entered = 1
  building : startup.building = false
  worker : startup.state ≠ .building
  consumer : startup.consuming = false
  requests : startup.requests ≠ .claimed

/-- `buildPreparationFailure` finds a worker to put into quarantine, or need not. -/
def CanReport : Prop := startup.stopped = true ∨ startup.worker ≠ .gone

instance : Decidable startup.CanReport := inferInstanceAs (Decidable (_ ∨ _))

/-- The outcomes that `startBuild` deals with. -/
def Expected (event : StartupEvent) : Prop :=
  match startup.stage, event with
  | .doBuildIf, .doBuildIf doBuild => doBuild ≠ none
  | .checkRequests _, .checkRequests cancelled => cancelled = false
  | .setupLocks, .setupLocks succeeds => succeeds = true
  | .setupBuild, .setupBuild succeeds => succeeds = true ∨ startup.CanReport
  | .prepareWorker, .prepareWorker locksAcquired => (startup.worker ≠ .gone ∧ locksAcquired = true) ∨ startup.CanReport
  | .substantiating, .substantiated outcome => outcome = .ready ∨ startup.CanReport
  | .ping, .ping succeeds => succeeds = true ∨ startup.CanReport
  | .ready, .ready => startup.worker = .connected
  | .remoteStartBuild, .remoteStartBuild succeeds => succeeds = true ∨ startup.CanReport
  | .acquireLocks, .acquireLocks succeeds => succeeds = true
  | .buildFinished, .finishRecorded => startup.results = .exception → startup.worker ≠ .gone
  | _, _ => True

instance (event : StartupEvent) : Decidable (startup.Expected event) := by
  unfold Expected
  split <;> infer_instance

variable {startup : Startup}

/-- How far a build has got with winding up, by where `startBuild` is. -/
structure Shape (startup : Startup) : Prop where
  before : startup.stage ≠ .buildFinished → startup.stage ≠ .returned → startup.entered = 0
  building : startup.stage ≠ .returned → startup.building = true
  finishing : startup.stage = .buildFinished → startup.entered = 1 ∧ startup.consuming = false
  returned : startup.stage = .returned → startup.WoundUp ∧ (startup.latent = true → startup.state ≠ .detached)

theorem new_shape (latent connected : Bool) : (new latent connected).Shape where
  before _ _ := rfl
  building _ := rfl
  finishing := nofun
  returned := nofun

/-- Where neither `buildFinished` has been entered nor the deferred has fired. -/
theorem Shape.of_stage (shape : startup.Shape) {after : Startup} (unfinished : startup.stage ≠ .buildFinished)
    (waiting : startup.stage ≠ .returned) (stage : after.stage ≠ .buildFinished ∧ after.stage ≠ .returned)
    (entered : after.entered = startup.entered) (building : after.building = startup.building) : after.Shape where
  before _ _ := entered.trans (shape.before unfinished waiting)
  building _ := building.trans (shape.building waiting)
  finishing finishing := absurd finishing stage.1
  returned returned := absurd returned stage.2

theorem Shape.buildFinished (shape : startup.Shape) (unfinished : startup.stage ≠ .buildFinished)
    (waiting : startup.stage ≠ .returned) (results : Results) : (startup.buildFinished results).Shape where
  before finishing := absurd rfl finishing
  building _ := shape.building waiting
  finishing _ := ⟨by simp [Startup.buildFinished, shape.before unfinished waiting], rfl⟩
  returned := nofun

theorem preparationFailure_of_canReport (can : startup.CanReport) (afterwards : Afterwards) :
    startup.preparationFailure afterwards = { startup with stage := .preparationFailure afterwards } := by
  refine if_neg ?_
  rintro ⟨running, gone⟩
  rcases can with stopped | here
  · cases stopped.symm.trans running
  · exact here gone

theorem preparationFailure_of_not_canReport (cannot : ¬ startup.CanReport) (afterwards : Afterwards) :
    startup.preparationFailure afterwards = { startup with stage := .returned } := by
  simp only [CanReport, not_or, not_not, Bool.not_eq_true] at cannot
  exact if_pos cannot

theorem Shape.preparationFailure (shape : startup.Shape) (unfinished : startup.stage ≠ .buildFinished)
    (waiting : startup.stage ≠ .returned) (can : startup.CanReport) (afterwards : Afterwards) :
    (startup.preparationFailure afterwards).Shape := by
  rw [preparationFailure_of_canReport can]
  exact shape.of_stage unfinished waiting ⟨nofun, nofun⟩ rfl rfl

theorem Shape.afterPreparationFailure (shape : startup.Shape) (unfinished : startup.stage ≠ .buildFinished)
    (waiting : startup.stage ≠ .returned) (afterwards : Afterwards) :
    (startup.afterPreparationFailure afterwards).Shape := by
  cases afterwards with
  | finish results => exact shape.buildFinished unfinished waiting results
  | finishPreparation cannotSubstantiate =>
    unfold Startup.afterPreparationFailure
    simp only
    split_ifs <;> exact shape.buildFinished unfinished waiting _

theorem Shape.windUp (shape : startup.Shape) (finishing : startup.stage = .buildFinished)
    (worker : startup.results = .exception → startup.worker ≠ .gone) : startup.windUp.Shape := by
  obtain ⟨once, consumer⟩ := shape.finishing finishing
  unfold Startup.windUp
  rw [if_neg fun lost => worker lost.1 lost.2]
  refine ⟨fun _ returned => absurd rfl returned, fun returned => absurd rfl returned, nofun,
    fun _ => ⟨⟨once, rfl, nofun, consumer, ?_⟩, fun _ => nofun⟩⟩
  simp only
  split_ifs <;> exact nofun

/-- What comes in from outside neither winds the build up nor takes it back. -/
theorem Shape.interfere (shape : startup.Shape) (event : StartupEvent) : (startup.interfere event).Shape := by
  -- everything but the state of the worker stays as it is or does not matter
  have kept : ∀ after : Startup, after.stage = startup.stage → after.entered = startup.entered →
      after.building = startup.building → after.consuming = startup.consuming →
      after.requests = startup.requests → after.latent = startup.latent →
      (startup.stage = .returned → after.state ≠ .building ∧ (startup.latent = true → after.state ≠ .detached)) →
      after.Shape := by
    intro after stage entered building consuming requests latent state
    constructor
    · rw [stage, entered]
      exact shape.before
    · rw [stage, building]
      exact shape.building
    · rw [stage, entered, consuming]
      exact shape.finishing
    · rw [stage]
      intro returned
      have wound := (shape.returned returned).1
      refine ⟨⟨entered.trans wound.once, building.trans wound.building, (state returned).1,
        consuming.trans wound.consumer, requests ▸ wound.requests⟩, ?_⟩
      rw [latent]
      exact (state returned).2
  have same : startup.stage = .returned → startup.state ≠ .building ∧
      (startup.latent = true → startup.state ≠ .detached) :=
    fun returned => ⟨(shape.returned returned).1.worker, (shape.returned returned).2⟩
  unfold Startup.interfere
  split
  · split_ifs
    · exact kept _ rfl rfl rfl rfl rfl rfl same
    · exact shape
  · split_ifs
    · exact kept _ rfl rfl rfl rfl rfl rfl same
    · exact shape
  · split_ifs
    · exact kept _ rfl rfl rfl rfl rfl rfl same
    · exact shape
  · split_ifs with _ attaching
    · refine kept _ rfl rfl rfl rfl rfl rfl fun returned => ?_
      exact absurd attaching.2 ((shape.returned returned).2 attaching.1)
    · exact kept _ rfl rfl rfl rfl rfl rfl same
    · exact shape
  · refine kept _ rfl rfl rfl rfl rfl rfl fun returned => ?_
    by_cases latent : startup.latent = true
    · simpa only [latent, if_true] using same returned
    · simp [latent]
  · exact shape

/-- An outcome is either dealt with, or ends `startBuild` with the build as it is. -/
structure Deals (expected : Prop) (after : Startup) : Prop where
  dealt : expected → after.Shape
  lost : ¬ expected → after.stage = .returned ∧ ¬ after.WoundUp

theorem Shape.deals {after : Startup} {expected : Prop} (shape : after.Shape) (holds : expected) :
    after.Deals expected :=
  ⟨fun _ => shape, fun unexpected => absurd holds unexpected⟩

theorem deals_of_entered {after : Startup} {expected : Prop} (returned : after.stage = .returned)
    (entered : after.entered = 0) (fails : ¬ expected) : after.Deals expected :=
  ⟨fun expected => absurd expected fails,
    fun _ => ⟨returned, fun wound => by cases entered.symm.trans wound.once⟩⟩

/-- All outcomes but one are left to `buildPreparationFailure`. -/
theorem Shape.deals_report (shape : startup.Shape) (unfinished : startup.stage ≠ .buildFinished)
    (waiting : startup.stage ≠ .returned) {success : Prop} (fails : ¬ success) (afterwards : Afterwards) :
    (startup.preparationFailure afterwards).Deals (success ∨ startup.CanReport) := by
  by_cases can : startup.CanReport
  · exact (shape.preparationFailure unfinished waiting can afterwards).deals (.inr can)
  · rw [preparationFailure_of_not_canReport can]
    exact deals_of_entered rfl (shape.before unfinished waiting) (not_or.mpr ⟨fails, can⟩)

theorem Shape.deals_windUp (shape : startup.Shape) (finishing : startup.stage = .buildFinished) :
    startup.windUp.Deals (startup.results = .exception → startup.worker ≠ .gone) := by
  refine ⟨fun worker => shape.windUp finishing worker, fun lost => ?_⟩
  simp only [Classical.not_imp, not_not] at lost
  unfold Startup.windUp
  rw [if_pos lost]
  refine ⟨rfl, fun wound => ?_⟩
  cases (shape.building (by simp [finishing])).symm.trans wound.building

/-- What `startBuild` goes on to, by whether it deals with what came. -/
theorem Shape.resume (shape : startup.Shape) {event : StartupEvent} {after : Startup}
    (resumed : startup.resume startup.stage event = some after) : after.Deals (startup.Expected event) := by
  by_cases finishing : startup.stage = .buildFinished
  · rw [finishing] at resumed
    cases event <;> cases resumed
    simpa only [Expected, finishing] using shape.deals_windUp finishing
  by_cases waiting : startup.stage = .returned
  · rw [waiting] at resumed
    cases event <;> cases resumed
  have none : startup.entered = 0 := shape.before finishing waiting
  have on {next : Startup} (stage : next.stage ≠ .buildFinished ∧ next.stage ≠ .returned)
      (entered : next.entered = startup.entered) (building : next.building = startup.building) : next.Shape :=
    shape.of_stage finishing waiting stage entered building
  -- one case for each place at which `startBuild` waits
  unfold Startup.resume at resumed
  split at resumed <;> cases resumed
  case h_1 stage =>
    simp only [Expected, stage]
    exact deals_of_entered rfl none fun expected => expected rfl
  case h_2 stage =>
    simp only [Expected, stage]
    exact Shape.deals (on ⟨nofun, nofun⟩ rfl rfl) nofun
  case h_3 stage =>
    simp only [Expected, stage]
    exact deals_of_entered rfl none nofun
  case h_4 doBuild stage =>
    simp only [Expected, stage]
    refine Shape.deals (on ?_ rfl rfl) trivial
    cases doBuild <;> exact ⟨nofun, nofun⟩
  case h_5 stage =>
    simp only [Expected, stage]
    have skipped : { startup with results := .skipped }.Shape := on ⟨finishing, waiting⟩ rfl rfl
    exact Shape.deals (skipped.buildFinished finishing waiting _) trivial
  case h_6 succeeds stage =>
    simp only [Expected, stage]
    cases succeeds
    · exact deals_of_entered rfl none nofun
    · exact Shape.deals (on ⟨nofun, nofun⟩ rfl rfl) rfl
  case h_7 succeeds stage =>
    simp only [Expected, stage]
    split_ifs with succeeded
    · exact Shape.deals (on ⟨nofun, nofun⟩ rfl rfl) (.inl succeeded)
    · exact shape.deals_report finishing waiting succeeded _
  case h_8 locksAcquired stage =>
    simp only [Expected, stage]
    split_ifs with acquired
    · exact Shape.deals (on ⟨nofun, nofun⟩ rfl rfl) (.inl acquired)
    · exact Shape.deals (on ⟨nofun, nofun⟩ rfl rfl) (.inl acquired)
    · exact shape.deals_report finishing waiting acquired _
  case h_9 outcome stage =>
    simp only [Expected, stage]
    cases outcome
    · exact Shape.deals (on ⟨nofun, nofun⟩ rfl rfl) (.inl rfl)
    all_goals exact shape.deals_report finishing waiting nofun _
  case h_10 succeeds stage =>
    simp only [Expected, stage]
    split_ifs with succeeded
    · exact Shape.deals (on ⟨nofun, nofun⟩ rfl rfl) (.inl succeeded)
    · exact shape.deals_report finishing waiting succeeded _
  case h_11 stage =>
    simp only [Expected, stage]
    split_ifs with connected
    · exact Shape.deals (on ⟨nofun, nofun⟩ rfl rfl) connected
    · exact deals_of_entered rfl none connected
  case h_12 succeeds stage =>
    simp only [Expected, stage]
    split_ifs with succeeded
    · exact Shape.deals (on ⟨nofun, nofun⟩ rfl rfl) (.inl succeeded)
    · exact shape.deals_report finishing waiting succeeded _
  case h_13 succeeds stage =>
    simp only [Expected, stage]
    cases succeeds
    · exact deals_of_entered rfl none nofun
    · exact Shape.deals (on ⟨nofun, nofun⟩ rfl rfl) rfl
  case h_14 stage =>
    simp only [Expected, stage]
    exact Shape.deals (on ⟨nofun, nofun⟩ rfl rfl) trivial
  case h_15 stage =>
    simp only [Expected, stage]
    exact Shape.deals (shape.afterPreparationFailure finishing waiting _) trivial
  case h_16 stage => exact absurd stage finishing

theorem Shape.step (shape : startup.Shape) (event : StartupEvent) :
    (startup.step event).1.Deals (startup.Expected event) := by
  unfold Startup.step
  cases resumed : startup.resume startup.stage event with
  | some after => exact shape.resume resumed
  | none =>
    -- only what `startBuild` waits for can go wrong
    refine Shape.deals (shape.interfere event) ?_
    unfold Expected
    split
    case h_1 doBuild stage =>
      rw [stage] at resumed
      cases doBuild <;> cases resumed
    case h_2 cancelled stage =>
      rw [stage] at resumed
      cases cancelled <;> cases resumed
    case h_12 => trivial
    all_goals
      rename_i stage
      rw [stage] at resumed
      cases resumed

/-- Whenever `startBuild` has fired without going on to the steps, the build has been wound up. -/
def WindsUp (startup : Startup) : Prop := startup.stage = .returned → startup.WoundUp

/-- Every build that is started is wound up, as long as `startBuild` deals with what it comes to. -/
theorem run_windsUp (latent connected : Bool) (events : List StartupEvent) :
    (∀ past, past <+: events → (final step (new latent connected) past).WindsUp) ↔
      Always step Expected (new latent connected) events := by
  refine always_iff (fun startup event shape expected => ?_) (fun startup event shape unexpected => ?_)
    (fun startup shape => ?_) (new_shape latent connected) events
  · exact (shape.step event).dealt expected
  · intro windsUp
    obtain ⟨returned, left⟩ := (shape.step event).lost unexpected
    exact left (windsUp returned)
  · intro returned
    exact (shape.returned returned).1

/-- A request that was cancelled while the build was being started: the worker goes on building for ever. -/
theorem cancelled_not_windsUp :
    ¬ (final step (new false true) [.doBuildIf (some true), .checkRequests true]).WindsUp := by
  intro windsUp
  have wound := windsUp rfl
  cases wound.once

end Startup

end Umbilical.Process
