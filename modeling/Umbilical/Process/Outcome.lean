import Umbilical.Process.Startup

set_option autoImplicit false

/-!
# The outcome of a build

`self.results` from the start of a build to the two places that read it at the end: the
build's own row and its requests. Between any two events below the build waits.
-/

namespace Umbilical.Process

namespace Outcome

open Interleaving

/-- A step, with its part of `ResultComputingConfigMixin`. -/
structure BuildStep extends Step where
  flunkOnWarnings : Bool
  flunkOnFailure : Bool
  warnOnWarnings : Bool
  warnOnFailure : Bool
  deriving DecidableEq

def possibleOverallResult (obj : BuildStep) : Results → Results
  | .failure => if obj.flunkOnFailure then .failure else if obj.warnOnFailure then .warnings else .success
  | .warnings => if obj.flunkOnWarnings then .failure else if obj.warnOnWarnings then .warnings else .success
  | result => result

def computeResultAndTermination (obj : BuildStep) (result previousResult : Results) : Results × Bool :=
  (worstStatus previousResult (possibleOverallResult obj result), terminates obj.toStep result)

/-- Where `_start_next_step_impl` is. -/
inductive Phase where
  | idle
  -- the results of the current step are not there yet
  | running (step : BuildStep)
  | ended (step : BuildStep)
  -- there is no current step, and `stepDone` waits for the summary
  | merging (step : BuildStep) (results : Results)
  | raised (interruptible : Bool)
  deriving DecidableEq

/-- `self.currentStep and self.currentStep.results is None`. -/
def Phase.interruptible : Phase → Bool
  | .running _ => true
  | .raised interruptible => interruptible
  | _ => false

structure Build where
  startup : Startup
  steps : List BuildStep
  phase : Phase
  terminate : Bool
  -- calls of stopBuild that wait for the step to be interrupted, with their results
  stops : List Results
  -- calls of finishBuild
  recorded : List Results
  -- what completeBuildRequests was called with
  completed : Option Results
  -- stopped with RETRY, or lost its connection, before it was finished
  retrying : Bool
  deriving DecidableEq

/-- `startup` is what `startBuild` waits for, or the worker that comes and goes. -/
inductive Event where
  | startup (event : StartupEvent)
  | cleanShutdown (waitedFor : List Bool)
  | interrupted (stop : Nat)
  | stepEnds
  | startStepReturns (results : Results)
  | stepDone
  | raises
  | raisedReported
  | finishBuild
  deriving DecidableEq

namespace Build

def new (latent connected : Bool) (steps : List BuildStep) : Build where
  startup := .new latent connected
  steps := steps
  phase := .idle
  terminate := false
  stops := []
  recorded := []
  completed := none
  retrying := false

variable (build : Build)

def setResults (results : Results) : Build := { build with startup := { build.startup with results := results } }

/-- Up to the call of `setBuildStateString`. -/
def buildFinished (results : Results) : Build :=
  { build with startup := build.startup.buildFinished results, phase := .idle }

def allStepsDone : Build := build.buildFinished build.startup.results

def getNextStep (conn terminate stopped : Bool) : List BuildStep → Option BuildStep × List BuildStep
  | [] => (none, [])
  | s :: steps =>
      if conn = false then (none, s :: steps)
      else if (terminate || stopped) = false ∨ s.alwaysRun = true then (some s, steps)
      else getNextStep conn terminate stopped steps

def startNextStep : Build :=
  match getNextStep build.startup.conn build.terminate build.startup.stopped build.steps with
  | (none, steps) => { build with steps := steps }.allStepsDone
  | (some step, steps) => { build with steps := steps, phase := .running step }

/-- `stepDone`, and what follows it at once. -/
def merge (step : BuildStep) (results : Results) : Build :=
  let (overall, terminate) := computeResultAndTermination step results build.startup.results
  let (overall, terminate) := if build.startup.conn then (overall, terminate) else (.retry, true)
  { build.setResults overall with terminate := build.terminate || terminate }.startNextStep

def stopBuild (results : Results) : Build :=
  if build.startup.entered ≠ 0 then build
  else
    let build := { build with retrying := build.retrying || decide (results = Results.retry) }
    if build.phase.interruptible then
      { build with startup := { build.startup with stopped := true }, stops := build.stops ++ [results] }
    else { build with startup := build.startup.interfere (.stopBuild results) }

def lostRemote : Build :=
  if build.startup.conn = false then build
  else
    let build := { build with retrying := true }
    if build.phase.interruptible then
      { build with startup := { build.startup with conn := false, results := .retry } }
    else { build with startup := build.startup.interfere .lostRemote }

/-- The rest of `buildFinished`, once `finishBuild` is done. `Builder.buildFinished` reads the results again. -/
def finishRecorded : Build :=
  let after := build.startup.windUp
  { build with
    startup := after
    completed := if after.requests = .completed then some build.startup.results else build.completed }

/-- What `startBuild` goes on to. It does not wait for the steps, but starts the first one. -/
def resumed (event : StartupEvent) : Build :=
  let after := { build with startup := (build.startup.step event).1 }
  if build.startup.stage = .startNextStep ∧ event = .startNextStep then after.startNextStep else after

def startupStep : StartupEvent → Build
  | .stopBuild results => build.stopBuild results
  | .lostRemote => build.lostRemote
  | .finishRecorded => if build.startup.stage = .buildFinished ∧ build.recorded ≠ [] then build.finishRecorded else build
  | event => build.resumed event

def step : Event → Build
  | .startup event => build.startupStep event
  | .cleanShutdown waitedFor =>
      -- if build is waited for then this is a sub-build, so no need to retry it
      build.stopBuild (if waitedFor.any id then .cancelled else .retry)
  | .interrupted stop =>
      match build.stops[stop]? with
      | some results => { build.setResults results with stops := build.stops.eraseIdx stop }
      | none => build
  | .stepEnds =>
      match build.phase with
      | .running step => { build with phase := .ended step }
      | _ => build
  | .startStepReturns results =>
      match build.phase with
      -- a build that was finished meanwhile does not go on
      | .ended step => { build with phase := if build.startup.entered = 0 then .merging step results else .idle }
      | _ => build
  | .stepDone =>
      match build.phase with
      | .merging step results => build.merge step results
      | _ => build
  | .raises =>
      match build.phase with
      | .idle | .raised _ => build
      | phase => { build with phase := .raised phase.interruptible }
  | .raisedReported =>
      match build.phase with
      | .raised _ => build.buildFinished .exception
      | _ => build
  | .finishBuild =>
      if build.startup.stage = .buildFinished ∧ build.recorded = [] then
        { build with recorded := [build.startup.results] }
      else build

/-- `startBuild` or what it has started is over, and the outcome is on record. -/
structure Recorded (results : Results) : Prop where
  once : build.recorded = [results]
  requests : results = .retry ∧ build.startup.requests = .unclaimed ∨
    results ≠ .retry ∧ build.startup.requests = .completed ∧ build.completed = some results
  retried : build.retrying = true → results = .retry

/-- A value for `self.results` that does not put an end to a retry, unless a stop with `RETRY` is still to follow. -/
def Retains (stops : List Results) (results : Results) : Prop :=
  build.retrying = true → results = .retry ∨ .retry ∈ stops

/-- A stop that takes effect at once. -/
def StopRetains (results : Results) : Prop :=
  build.startup.entered = 0 → build.phase.interruptible = false → results ≠ .retry → build.Retains build.stops results

/-- `startBuild` deals with what it comes to, and what overwrites `self.results` does not put an end to a retry, nor
change what `finishBuild` has been called with. -/
def Undisturbed : Event → Prop
  | .startup (.stopBuild results) => build.StopRetains results
  | .startup .skip => build.startup.stage = .skip → build.Retains build.stops .skipped
  | .startup event => build.startup.Expected event
  | .cleanShutdown waitedFor => waitedFor.any id = true → build.StopRetains .cancelled
  | .interrupted stop => ∀ results ∈ build.stops[stop]?,
      (build.startup.stage ≠ .returned → build.Retains (build.stops.eraseIdx stop) results) ∧
      (build.startup.stage = .buildFinished → build.recorded ≠ [] → results = build.startup.results)
  | .stepDone => ∀ step, build.phase = .merging step .cancelled → build.startup.conn = true →
      build.Retains build.stops .cancelled
  | .finishBuild => build.retrying = true → .retry ∉ build.stops
  | _ => True

/-! ## What undisturbed events keep -/

/-- A preparation that fails does not cancel the build. -/
def Mild (stage : Stage) : Prop := ∀ results, stage = .preparationFailure (.finish results) → results ≠ .cancelled

structure Consistent (build : Build) : Prop where
  before : build.startup.stage ≠ .buildFinished → build.startup.stage ≠ .returned →
    build.startup.entered = 0 ∧ build.recorded = []
  finishing : build.startup.stage = .buildFinished → build.startup.entered ≠ 0 ∧ build.startup.conn = false ∧
    (build.recorded = [] ∨
      build.recorded = [build.startup.results] ∧ (build.retrying = true → build.startup.results = .retry))
  returned : build.startup.stage = .returned → build.startup.entered ≠ 0 ∧ build.startup.conn = false ∧
    ∃ results, build.Recorded results
  retains : build.startup.stage ≠ .returned → build.Retains build.stops build.startup.results
  phase : build.phase ≠ .idle → build.startup.stage = .running
  mild : Mild build.startup.stage

theorem new_consistent (latent connected : Bool) (steps : List BuildStep) :
    (new latent connected steps).Consistent where
  before _ _ := ⟨rfl, rfl⟩
  finishing := nofun
  returned := nofun
  retains _ := nofun
  phase absent := absurd rfl absent
  mild := nofun

variable {build} {after : Build}

/-- What does not touch the outcome. -/
theorem Consistent.frame (consistent : build.Consistent) {startup : Startup} (stage : startup.stage = build.startup.stage)
    (entered : startup.entered = build.startup.entered) (results : startup.results = build.startup.results)
    (conn : startup.conn = build.startup.conn) (requests : startup.requests = build.startup.requests) :
    ({ build with startup := startup } : Build).Consistent where
  before := by simpa only [stage, entered] using consistent.before
  finishing := by simpa only [stage, entered, results, conn] using consistent.finishing
  returned now := by
    obtain ⟨done, lost, overall, recorded⟩ := consistent.returned (stage ▸ now)
    refine ⟨entered ▸ done, conn ▸ lost, overall, recorded.once, ?_, recorded.retried⟩
    simpa only [requests] using recorded.requests
  retains := by simpa only [stage, results, Retains] using consistent.retains
  phase := by simpa only [stage] using consistent.phase
  mild := by simpa only [stage] using consistent.mild

theorem worstStatus_self (results : Results) : worstStatus results results = results := by
  cases results <;> rfl

theorem worstStatus_retry {results : Results} (other : results ≠ .cancelled) : worstStatus .retry results = .retry := by
  cases results with
  | cancelled => exact absurd rfl other
  | _ => rfl

/-- Only `CANCELLED` is worse than a retry. -/
theorem Retains.worst {stops : List Results} {previous results : Results} (retains : build.Retains stops previous)
    (milder : results = .cancelled → build.Retains stops .cancelled) : build.Retains stops (worstStatus previous results) := by
  intro retrying
  rcases retains retrying with rfl | pending
  · by_cases cancelled : results = .cancelled
    · rcases milder cancelled retrying with same | pending
      · cases same
      · exact .inr pending
    · exact .inl (worstStatus_retry cancelled)
  · exact .inr pending

theorem possibleOverallResult_cancelled {step : BuildStep} {results : Results}
    (cancelled : possibleOverallResult step results = .cancelled) : results = .cancelled := by
  cases results with
  | failure =>
    simp only [possibleOverallResult] at cancelled
    split_ifs at cancelled
  | warnings =>
    simp only [possibleOverallResult] at cancelled
    split_ifs at cancelled
  | _ => exact cancelled

theorem Consistent.buildFinished (consistent : build.Consistent) (unfinished : build.startup.stage ≠ .buildFinished)
    (waiting : build.startup.stage ≠ .returned) {results : Results}
    (retains : build.Retains build.stops (worstStatus build.startup.results results)) :
    (build.buildFinished results).Consistent where
  before finishing := absurd rfl finishing
  finishing _ := ⟨nofun, rfl, .inl (consistent.before unfinished waiting).2⟩
  returned := nofun
  retains _ := retains
  phase absent := absurd rfl absent
  mild := nofun

theorem Consistent.allStepsDone (consistent : build.Consistent) (unfinished : build.startup.stage ≠ .buildFinished)
    (waiting : build.startup.stage ≠ .returned) : build.allStepsDone.Consistent := by
  apply consistent.buildFinished unfinished waiting
  rw [worstStatus_self]
  exact consistent.retains waiting

theorem Consistent.startNextStep (consistent : build.Consistent) (running : build.startup.stage = .running) :
    build.startNextStep.Consistent := by
  have on (steps : List BuildStep) (phase : Phase) : ({ build with steps := steps, phase := phase } : Build).Consistent :=
    ⟨consistent.before, consistent.finishing,
      fun returned => absurd (running.symm.trans returned) nofun, consistent.retains, fun _ => running,
      consistent.mild⟩
  unfold Build.startNextStep
  split
  · rename_i steps _
    exact (on steps build.phase).allStepsDone (by simp [running]) (by simp [running])
  · exact on _ _

/-- Results that are written while the steps run. -/
theorem Consistent.setResults (consistent : build.Consistent) (running : build.startup.stage = .running)
    {results : Results} (retains : build.Retains build.stops results) : (build.setResults results).Consistent where
  before := consistent.before
  finishing finishing := absurd (running.symm.trans finishing) nofun
  returned returned := absurd (running.symm.trans returned) nofun
  retains _ := retains
  phase := consistent.phase
  mild := consistent.mild

theorem Consistent.merge (consistent : build.Consistent) {step : BuildStep} {results : Results}
    (merging : build.phase = .merging step results)
    (undisturbed : results = .cancelled → build.startup.conn = true → build.Retains build.stops .cancelled) :
    (build.merge step results).Consistent := by
  have running : build.startup.stage = .running := consistent.phase (by simp [merging])
  have retained : build.Retains build.stops build.startup.results := consistent.retains (by simp [running])
  have overall : build.Retains build.stops (if build.startup.conn then
      (computeResultAndTermination step results build.startup.results).1 else .retry) := by
    by_cases connected : build.startup.conn = true
    · rw [if_pos connected]
      exact retained.worst fun cancelled => undisturbed (possibleOverallResult_cancelled cancelled) connected
    · rw [if_neg connected]
      exact fun _ => .inl rfl
  have goes {overall : Results} {terminate : Bool} (retains : build.Retains build.stops overall) :
      ({ build.setResults overall with terminate := terminate } : Build).startNextStep.Consistent := by
    have written := consistent.setResults running retains
    have on : ({ build.setResults overall with terminate := terminate } : Build).Consistent :=
      ⟨written.before, written.finishing, fun returned => absurd (running.symm.trans returned) nofun,
        written.retains, written.phase, written.mild⟩
    exact on.startNextStep running
  unfold Build.merge
  by_cases connected : build.startup.conn = true
  · simp only [connected, if_true] at overall ⊢
    exact goes overall
  · simp only [connected, Bool.false_eq_true, if_false] at overall ⊢
    exact goes overall

theorem Consistent.stopBuild (consistent : build.Consistent) {results : Results} (retains : build.StopRetains results) :
    (build.stopBuild results).Consistent := by
  unfold Build.stopBuild
  split
  · exact consistent
  · rename_i unfinished
    have fresh : build.startup.entered = 0 := not_not.mp unfinished
    have unfinished : build.startup.stage ≠ .buildFinished := fun finishing => (consistent.finishing finishing).1 fresh
    have waiting : build.startup.stage ≠ .returned := fun returned => (consistent.returned returned).1 fresh
    have before := consistent.before unfinished waiting
    by_cases interruptible : build.phase.interruptible = true
    · simp only [interruptible, if_true]
      refine ⟨fun _ _ => before, fun finishing => absurd finishing unfinished, fun returned => absurd returned waiting,
        fun _ retrying => ?_, consistent.phase, consistent.mild⟩
      -- a stop that waits is what a retry may rely on
      by_cases same : results = .retry
      · exact .inr (by simp [same])
      · have retrying : build.retrying = true := by simpa [same] using retrying
        exact (consistent.retains waiting retrying).imp id (List.mem_append_left _)
    · simp only [interruptible, Startup.interfere, fresh, if_true]
      refine ⟨fun _ _ => ⟨rfl, before.2⟩, fun finishing => absurd finishing unfinished,
        fun returned => absurd returned waiting, fun _ retrying => ?_, consistent.phase, consistent.mild⟩
      by_cases same : results = .retry
      · exact .inl same
      · have retrying : build.retrying = true := by simpa [same] using retrying
        exact retains fresh (by simpa using interruptible) same retrying

theorem Consistent.lostRemote (consistent : build.Consistent) : build.lostRemote.Consistent := by
  unfold Build.lostRemote
  split
  · exact consistent
  · rename_i connected
    have unfinished : build.startup.stage ≠ .buildFinished := fun finishing => connected (consistent.finishing finishing).2.1
    have waiting : build.startup.stage ≠ .returned := fun returned => connected (consistent.returned returned).2.1
    have before := consistent.before unfinished waiting
    have conn : build.startup.conn = true := by simpa using connected
    by_cases interruptible : build.phase.interruptible = true
    · simp only [interruptible, if_true]
      exact ⟨fun _ _ => before, fun finishing => absurd finishing unfinished, fun returned => absurd returned waiting,
        fun _ _ => .inl rfl, consistent.phase, consistent.mild⟩
    · simp only [interruptible, Startup.interfere, conn, if_true]
      exact ⟨fun _ _ => before, fun finishing => absurd finishing unfinished, fun returned => absurd returned waiting,
        fun _ _ => .inl rfl, consistent.phase, consistent.mild⟩

/-- The worker that comes and goes. -/
theorem interfere_frame (startup : Startup) {event : StartupEvent} (notStop : ∀ results, event ≠ .stopBuild results)
    (notLost : event ≠ .lostRemote) :
    (startup.interfere event).stage = startup.stage ∧ (startup.interfere event).entered = startup.entered ∧
      (startup.interfere event).results = startup.results ∧ (startup.interfere event).conn = startup.conn ∧
      (startup.interfere event).requests = startup.requests := by
  unfold Startup.interfere
  split
  · exact absurd rfl (notStop _)
  · exact absurd rfl notLost
  · split <;> exact ⟨rfl, rfl, rfl, rfl, rfl⟩
  · split <;> exact ⟨rfl, rfl, rfl, rfl, rfl⟩
  · exact ⟨rfl, rfl, rfl, rfl, rfl⟩
  · exact ⟨rfl, rfl, rfl, rfl, rfl⟩

/-- What `startBuild` goes on to: it waits for something else, or finishes the build. -/
inductive Continues (startup : Startup) : Startup → Prop where
  | waits (after : Startup) (unfinished : after.stage ≠ .buildFinished) (waiting : after.stage ≠ .returned)
      (entered : after.entered = startup.entered) (results : after.results = startup.results) (mild : Mild after.stage) :
      Continues startup after
  | finishes (results : Results) (known : results = startup.results ∨ results ≠ .cancelled) :
      Continues startup (startup.buildFinished results)
  | skips (skip : startup.stage = .skip) : Continues startup ({ startup with results := .skipped }.buildFinished .skipped)

theorem continues_preparationFailure {startup : Startup} (can : startup.CanReport) {afterwards : Afterwards}
    (mild : ∀ results, afterwards = .finish results → results ≠ .cancelled) :
    Continues startup (startup.preparationFailure afterwards) := by
  rw [Startup.preparationFailure_of_canReport can]
  refine .waits _ nofun nofun rfl rfl fun results same => mild results ?_
  exact Stage.preparationFailure.inj same

theorem continues_resume {startup after : Startup} {event : StartupEvent} (expected : startup.Expected event)
    (resumed : startup.resume startup.stage event = some after) (unfinished : startup.stage ≠ .buildFinished)
    (mild : Mild startup.stage) : Continues startup after := by
  unfold Startup.resume at resumed
  -- one case for each place at which `startBuild` waits
  split at resumed <;> cases resumed
  case h_1 stage => simp [Startup.Expected, stage] at expected
  case h_2 stage => exact .waits _ (by simp) (by simp) rfl rfl (by simp [Mild])
  case h_3 stage => simp [Startup.Expected, stage] at expected
  case h_4 doBuild stage =>
    cases doBuild
    · exact .waits _ (by simp) (by simp) rfl rfl (by simp [Mild])
    · exact .waits _ (by simp) (by simp) rfl rfl (by simp [Mild])
  case h_5 stage => exact .skips stage
  case h_6 succeeds stage =>
    have succeeded : succeeds = true := by simpa [Startup.Expected, stage] using expected
    rw [succeeded]
    exact .waits _ (by simp) (by simp) rfl rfl (by simp [Mild])
  case h_7 succeeds stage =>
    simp only [Startup.Expected, stage] at expected
    split_ifs with succeeded
    · exact .waits _ (by simp) (by simp) rfl rfl (by simp [Mild])
    · exact continues_preparationFailure (expected.resolve_left succeeded) (by simp)
  case h_8 locksAcquired stage =>
    simp only [Startup.Expected, stage] at expected
    split_ifs with acquired
    · exact .waits _ (by simp) (by simp) rfl rfl (by simp [Mild])
    · exact .waits _ (by simp) (by simp) rfl rfl (by simp [Mild])
    · exact continues_preparationFailure (expected.resolve_left acquired) (by simp)
  case h_9 outcome stage =>
    simp only [Startup.Expected, stage] at expected
    cases outcome
    · exact .waits _ (by simp) (by simp) rfl rfl (by simp [Mild])
    all_goals exact continues_preparationFailure (expected.resolve_left (by simp)) (by simp)
  case h_10 succeeds stage =>
    simp only [Startup.Expected, stage] at expected
    split_ifs with succeeded
    · exact .waits _ (by simp) (by simp) rfl rfl (by simp [Mild])
    · exact continues_preparationFailure (expected.resolve_left succeeded) (by simp)
  case h_11 stage =>
    have connected : startup.worker = .connected := by simpa [Startup.Expected, stage] using expected
    rw [if_pos connected]
    exact .waits _ (by simp) (by simp) rfl rfl (by simp [Mild])
  case h_12 succeeds stage =>
    simp only [Startup.Expected, stage] at expected
    split_ifs with succeeded
    · exact .waits _ (by simp) (by simp) rfl rfl (by simp [Mild])
    · exact continues_preparationFailure (expected.resolve_left succeeded) (by simp)
  case h_13 succeeds stage =>
    have succeeded : succeeds = true := by simpa [Startup.Expected, stage] using expected
    rw [succeeded]
    exact .waits _ (by simp) (by simp) rfl rfl (by simp [Mild])
  case h_14 stage => exact .waits _ (by simp) (by simp) rfl rfl (by simp [Mild])
  case h_15 afterwards stage =>
    cases afterwards with
    | finish results => exact .finishes results (.inr (mild results stage))
    | finishPreparation cannotSubstantiate =>
      simp only [Startup.afterPreparationFailure]
      split_ifs
      · exact .finishes _ (.inl rfl)
      · exact .finishes _ (.inr (by simp))
      · exact .finishes _ (.inr (by simp))
  case h_16 stage => exact absurd stage unfinished

theorem Consistent.continues (consistent : build.Consistent) (unfinished : build.startup.stage ≠ .buildFinished)
    (waiting : build.startup.stage ≠ .returned) (idle : build.phase = .idle) {startup : Startup}
    (continues : Continues build.startup startup) (skips : build.startup.stage = .skip → build.Retains build.stops .skipped) :
    ({ build with startup := startup } : Build).Consistent := by
  have before := consistent.before unfinished waiting
  have retained := consistent.retains waiting
  cases continues with
  | waits _ unfinished' waiting' entered results mild =>
    refine ⟨fun _ _ => ⟨entered.trans before.1, before.2⟩, fun finishing => absurd finishing unfinished',
      fun returned => absurd returned waiting', fun _ => ?_, fun busy => absurd idle busy, mild⟩
    rw [results]
    exact retained
  | finishes results known =>
    refine ⟨fun finishing => absurd rfl finishing, fun _ => ⟨nofun, rfl, .inl before.2⟩, nofun, fun _ => ?_,
      fun busy => absurd idle busy, nofun⟩
    rcases known with rfl | milder
    · have kept : build.Retains build.stops (worstStatus build.startup.results build.startup.results) := by
        rw [worstStatus_self]
        exact retained
      exact kept
    · exact retained.worst fun cancelled => absurd cancelled milder
  | skips skip =>
    exact ⟨fun finishing => absurd rfl finishing, fun _ => ⟨nofun, rfl, .inl before.2⟩, nofun, fun _ => skips skip,
      fun busy => absurd idle busy, nofun⟩

/-- Any event of `startBuild` but those that the build has more to say about. -/
theorem Consistent.resumed (consistent : build.Consistent) {event : StartupEvent} (expected : build.startup.Expected event)
    (skips : build.startup.stage = .skip → event = .skip → build.Retains build.stops .skipped)
    (notStop : ∀ results, event ≠ .stopBuild results) (notLost : event ≠ .lostRemote) (notFinish : event ≠ .finishRecorded) :
    (build.resumed event).Consistent := by
  have after : ({ build with startup := (build.startup.step event).1 } : Build).Consistent := by
    unfold Startup.step
    cases resumed : build.startup.resume build.startup.stage event with
    | none =>
      obtain ⟨stage, entered, results, conn, requests⟩ := interfere_frame build.startup notStop notLost
      exact consistent.frame stage entered results conn requests
    | some startup =>
      have unfinished : build.startup.stage ≠ .buildFinished := by
        intro finishing
        rw [finishing] at resumed
        cases event <;> cases resumed
        exact notFinish rfl
      have waiting : build.startup.stage ≠ .returned := by
        intro returned
        rw [returned] at resumed
        cases event <;> cases resumed
      have idle : build.phase = .idle := by
        by_contra busy
        rw [consistent.phase busy] at resumed
        cases event <;> cases resumed
      refine consistent.continues unfinished waiting idle (continues_resume expected resumed unfinished consistent.mild) ?_
      intro skip
      refine skips skip ?_
      rw [skip] at resumed
      cases event <;> first | rfl | cases resumed
  unfold Build.resumed
  split
  · rename_i starts
    have running : (build.startup.step event).1.stage = .running := by
      rw [starts.2]
      simp [Startup.step, Startup.resume, starts.1]
    exact after.startNextStep running
  · exact after

theorem Consistent.finishRecorded (consistent : build.Consistent) (finishing : build.startup.stage = .buildFinished)
    (recorded : build.recorded ≠ []) (worker : build.startup.results = .exception → build.startup.worker ≠ .gone) :
    build.finishRecorded.Consistent := by
  obtain ⟨entered, conn, fresh | ⟨once, retried⟩⟩ := consistent.finishing finishing
  · exact absurd fresh recorded
  · have idle : build.phase = .idle := by
      by_contra busy
      exact absurd (finishing.symm.trans (consistent.phase busy)) nofun
    have ends : build.startup.windUp = { build.startup with
        stage := .returned
        state := .available
        building := false
        requests := if build.startup.results = .retry then .unclaimed else .completed } := by
      unfold Startup.windUp
      exact if_neg fun lost => worker lost.1 lost.2
    unfold Build.finishRecorded
    rw [ends]
    refine ⟨fun _ returned => absurd rfl returned, nofun, fun _ => ⟨entered, conn, build.startup.results, once, ?_, retried⟩,
      fun returned => absurd rfl returned, fun busy => absurd idle busy, nofun⟩
    by_cases retry : build.startup.results = .retry
    · exact .inl ⟨retry, if_pos retry⟩
    · refine .inr ⟨retry, if_neg retry, ?_⟩
      simp [retry]

theorem Consistent.startupStep (consistent : build.Consistent) {event : StartupEvent}
    (undisturbed : build.Undisturbed (.startup event)) : (build.startupStep event).Consistent := by
  cases event with
  | stopBuild results => exact consistent.stopBuild undisturbed
  | lostRemote => exact consistent.lostRemote
  | finishRecorded =>
    simp only [Build.startupStep]
    split
    · rename_i now
      refine consistent.finishRecorded now.1 now.2 ?_
      simpa [Undisturbed, Startup.Expected, now.1] using undisturbed
    · exact consistent
  | skip =>
    refine consistent.resumed ?_ (fun skip _ => undisturbed skip) (by simp) (by simp) (by simp)
    cases stage : build.startup.stage <;> simp [Startup.Expected, stage]
  | _ => exact consistent.resumed undisturbed (by simp) (by simp) (by simp) (by simp)

theorem Consistent.interrupted (consistent : build.Consistent) {stop : Nat} {results : Results}
    (here : build.stops[stop]? = some results) (undisturbed : build.Undisturbed (.interrupted stop)) :
    ({ build.setResults results with stops := build.stops.eraseIdx stop } : Build).Consistent := by
  obtain ⟨retains, same⟩ := undisturbed results here
  refine ⟨consistent.before, fun finishing => ?_, fun returned => ?_, retains, consistent.phase, consistent.mild⟩
  · obtain ⟨entered, conn, fresh | ⟨once, retried⟩⟩ := consistent.finishing finishing
    · exact ⟨entered, conn, .inl fresh⟩
    · have written : results = build.startup.results := same finishing (by simp [once])
      rw [written]
      exact ⟨entered, conn, .inr ⟨once, retried⟩⟩
  · obtain ⟨entered, conn, overall, recorded⟩ := consistent.returned returned
    exact ⟨entered, conn, overall, recorded.once, recorded.requests, recorded.retried⟩

/-- The build moves on within the steps. -/
theorem Consistent.moves (consistent : build.Consistent) (busy : build.phase ≠ .idle) (phase : Phase) :
    ({ build with phase := phase } : Build).Consistent where
  before := consistent.before
  finishing := consistent.finishing
  returned returned := by
    obtain ⟨entered, conn, overall, recorded⟩ := consistent.returned returned
    exact ⟨entered, conn, overall, recorded.once, recorded.requests, recorded.retried⟩
  retains := consistent.retains
  phase _ := consistent.phase busy
  mild := consistent.mild

theorem Consistent.step (consistent : build.Consistent) {event : Event} (undisturbed : build.Undisturbed event) :
    (build.step event).Consistent := by
  cases event with
  | startup event => exact consistent.startupStep undisturbed
  | cleanShutdown waitedFor =>
    apply consistent.stopBuild
    split
    · rename_i waited
      exact undisturbed waited
    · exact fun _ _ other => absurd rfl other
  | interrupted stop =>
    simp only [Build.step]
    split
    · rename_i here
      exact consistent.interrupted here undisturbed
    · exact consistent
  | stepEnds =>
    simp only [Build.step]
    split
    · rename_i running
      exact consistent.moves (by simp [running]) _
    · exact consistent
  | startStepReturns results =>
    simp only [Build.step]
    split
    · rename_i ended
      exact consistent.moves (by simp [ended]) _
    · exact consistent
  | stepDone =>
    simp only [Build.step]
    split
    · rename_i step results merging
      exact consistent.merge merging fun cancelled => undisturbed step (cancelled ▸ merging)
    · exact consistent
  | raises =>
    simp only [Build.step]
    split
    · exact consistent
    · exact consistent
    · rename_i busy _
      exact consistent.moves busy _
  | raisedReported =>
    simp only [Build.step]
    split
    · rename_i raised
      have running := consistent.phase (by simp [raised])
      have retained := consistent.retains (by simp [running])
      exact consistent.buildFinished (by simp [running]) (by simp [running]) (retained.worst nofun)
    · exact consistent
  | finishBuild =>
    simp only [Build.step]
    split
    · rename_i now
      have retained := consistent.retains (by simp [now.1])
      refine ⟨fun unfinished => absurd now.1 unfinished, fun _ => ?_, fun returned => absurd (now.1.symm.trans returned) nofun,
        consistent.retains, consistent.phase, consistent.mild⟩
      obtain ⟨entered, conn, _⟩ := consistent.finishing now.1
      refine ⟨entered, conn, .inr ⟨rfl, fun retrying => ?_⟩⟩
      exact (retained retrying).resolve_right (undisturbed retrying)
    · exact consistent

end Build

/-- The build, which shows nothing but its state. -/
def step (build : Build) (event : Event) : Build × List Empty := (build.step event, [])

/-- A build that comes to its end without a disturbance has called `finishBuild` once, and what it has called it with
goes for its requests too; before that nothing is settled for good. -/
theorem outcome_recorded (latent connected : Bool) (steps : List BuildStep) (events : List Event)
    (undisturbed : Always step Build.Undisturbed (.new latent connected steps) events) :
    let build := final step (.new latent connected steps) events
    build.recorded.length ≤ 1 ∧ (build.startup.stage = .returned → ∃ results, build.Recorded results) := by
  intro build
  have preserved : ∀ build event, build.Consistent → build.Undisturbed event → (step build event).1.Consistent :=
    fun build event consistent now => consistent.step now
  have consistent : build.Consistent :=
    invariant_of_always preserved (Build.new_consistent latent connected steps) undisturbed
  refine ⟨?_, fun returned => (consistent.returned returned).2.2⟩
  by_cases finishing : build.startup.stage = .buildFinished
  · obtain ⟨_, _, fresh | ⟨once, _⟩⟩ := consistent.finishing finishing
    · simp [fresh]
    · simp [once]
  by_cases returned : build.startup.stage = .returned
  · obtain ⟨_, _, results, recorded⟩ := consistent.returned returned
    simp [recorded.once]
  · simp [(consistent.before finishing returned).2]

/-- A start on a worker that is connected, up to the first step. -/
def started : List Event :=
  [.doBuildIf (some true), .checkRequests false, .setupLocks true, .setupBuild true, .prepareWorker true, .ping true, .ready,
    .remoteStartBuild true, .acquireLocks true, .startNextStep].map .startup

def compile : BuildStep where
  alwaysRun := false
  haltOnFailure := true
  flunkOnWarnings := false
  flunkOnFailure := true
  warnOnWarnings := false
  warnOnFailure := false

/-- A clean shutdown within the only step, which ends with some results. -/
def shutDown (results : Results) : List Event :=
  started ++ [.cleanShutdown [false], .interrupted 0, .stepEnds, .startStepReturns results, .stepDone, .finishBuild,
    .startup .finishRecorded]

theorem shutDown_recorded :
    let build := final step (.new false true [compile]) (shutDown .exception)
    build.recorded.length ≤ 1 ∧ (build.startup.stage = .returned → ∃ results, build.Recorded results) := by
  refine outcome_recorded false true [compile] (shutDown .exception) ?_
  refine ⟨nofun, rfl, rfl, .inl rfl, .inl (by decide), .inl rfl, rfl, .inl rfl, rfl, trivial, nofun, ?_, trivial, trivial, ?_,
    ?_, ?_, trivial⟩
  · rintro results here
    cases here
    exact ⟨fun _ _ => .inl rfl, nofun⟩
  · rintro step merging
    cases merging
  · exact fun _ => List.not_mem_nil
  · exact nofun

/-- The interrupted step is cancelled, and so is the request that the shutdown was to leave to be retried. -/
theorem shutDown_cancels :
    let build := final step (.new false true [compile]) (shutDown .cancelled)
    build.retrying = true ∧ build.recorded = [.cancelled] ∧ build.completed = some .cancelled := by
  decide

end Outcome

end Umbilical.Process
