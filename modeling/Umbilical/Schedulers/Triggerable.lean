import Mathlib.Data.List.Nodup
import Mathlib.Data.List.Perm.Basic
import Umbilical.Shared.Interleaving

set_option autoImplicit false

/-!
# Triggerable schedulers

A trigger is named by the number that its buildset gets. The waiter is registered when
`addBuildset` returns; the consumer of completions is started and stopped by the debounced
`_updateWaiters`.
-/

namespace Umbilical.Schedulers

open Interleaving

/-- The phase of the debouncer; it is running while `startConsuming` is. -/
inductive DebouncePhase where
  | idle
  | waiting
  | running
  | runningQueued
  deriving DecidableEq

/-- Whether `stopService` has been called, and has finished. -/
inductive ServicePhase where
  | running
  | stopping
  | stopped
  deriving DecidableEq

structure Triggerable where
  /-- The triggers, and those of them whose `addBuildset` has not returned. -/
  triggered : List Nat
  adding : List Nat
  /-- The buildsets that are in the database. -/
  inserted : List Nat
  /-- The buildsets whose completion was produced, and those of them whose completion came before `stopService`. -/
  completed : List Nat
  completedRunning : List (Nat × Int)
  waiters : List Nat
  buildsetCompleteConsumer : Bool
  phase : DebouncePhase
  debouncerStopped : Bool
  service : ServicePhase
  /-- The triggers made before `stopService`. -/
  triggeredBefore : List Nat
  /-- What each `resultsDeferred` that has fired fired with, which is nothing for an error. -/
  fired : List (Nat × Option Int)
  deriving DecidableEq

inductive TriggerEvent where
  | trigger (bsid : Nat)
  | insert (bsid : Nat)
  | addBuildsetReturns (bsid : Nat)
  | complete (bsid : Nat) (results : Int)
  /-- The timer of the debouncer fires. -/
  | timer
  | startConsumingReturns
  | stopService
  /-- `stopService` goes on after `_updateWaiters.stop()`. -/
  | finishStop
  deriving DecidableEq

namespace Triggerable

variable (triggerable : Triggerable)

/-- A call of the debounced `_updateWaiters`. -/
def updateWaiters : Triggerable :=
  if triggerable.debouncerStopped then triggerable
  else
    match triggerable.phase with
    | .idle => { triggerable with phase := .waiting }
    | .waiting => triggerable
    | .running => { triggerable with phase := .runningQueued }
    | .runningQueued => triggerable

/-- The debouncer runs `_updateWaiters`; without a call of `startConsuming` it is done at once. -/
def invoke : Triggerable :=
  if triggerable.waiters ≠ [] ∧ ¬ triggerable.buildsetCompleteConsumer then { triggerable with phase := .running }
  else if triggerable.waiters = [] ∧ triggerable.buildsetCompleteConsumer then
    { triggerable with buildsetCompleteConsumer := false, phase := .idle }
  else { triggerable with phase := .idle }

def startConsumingReturns : Triggerable :=
  let queued := triggerable.phase = .runningQueued
  let retry : Triggerable := { triggerable with buildsetCompleteConsumer := true, phase := .idle }
  if queued ∧ triggerable.debouncerStopped then retry.invoke
  else if queued then retry.updateWaiters
  else retry

/-- `setup_waiter` -/
def setupWaiter (bsid : Nat) : Triggerable :=
  { triggerable with
    adding := triggerable.adding.erase bsid
    waiters := triggerable.waiters ++ [bsid] }.updateWaiters

def buildsetCompleteCb (bsid : Nat) (results : Int) : Triggerable :=
  if bsid ∈ triggerable.waiters then
    { triggerable with
      waiters := triggerable.waiters.erase bsid
      fired := triggerable.fired ++ [(bsid, some results)] }.updateWaiters
  else triggerable

def complete (bsid : Nat) (results : Int) : Triggerable :=
  let produced : Triggerable := { triggerable with
    completed := triggerable.completed ++ [bsid]
    completedRunning :=
      if triggerable.service = .running then triggerable.completedRunning ++ [(bsid, results)]
      else triggerable.completedRunning }
  if triggerable.buildsetCompleteConsumer then produced.buildsetCompleteCb bsid results else produced

def stopService : Triggerable :=
  let stopping : Triggerable := { triggerable with
    service := .stopping
    triggeredBefore := triggerable.triggered
    debouncerStopped := true }
  if triggerable.phase = .waiting then stopping.invoke else stopping

def finishStop : Triggerable :=
  { triggerable with
    buildsetCompleteConsumer := false
    fired := triggerable.fired ++ triggerable.waiters.map fun bsid => (bsid, none)
    waiters := []
    service := .stopped }

/-- What `stopService` waits for has come, and it goes on before anything else happens. -/
def Finishing : Prop := triggerable.service = .stopping ∧ triggerable.phase = .idle

instance : Decidable triggerable.Finishing := inferInstanceAs (Decidable (_ ∧ _))

/-- Whether the event can happen. -/
def Enabled (event : TriggerEvent) : Prop :=
  match event with
  | .trigger bsid => ¬ triggerable.Finishing ∧ bsid ∉ triggerable.triggered
  | .insert bsid => ¬ triggerable.Finishing ∧ bsid ∈ triggerable.adding ∧ bsid ∉ triggerable.inserted
  | .addBuildsetReturns bsid => ¬ triggerable.Finishing ∧ bsid ∈ triggerable.adding ∧ bsid ∈ triggerable.inserted
  | .complete bsid _ => ¬ triggerable.Finishing ∧ bsid ∈ triggerable.inserted ∧ bsid ∉ triggerable.completed
  | .timer => triggerable.phase = .waiting
  | .startConsumingReturns => triggerable.phase = .running ∨ triggerable.phase = .runningQueued
  | .stopService => triggerable.service = .running
  | .finishStop => triggerable.Finishing

instance (event : TriggerEvent) : Decidable (triggerable.Enabled event) :=
  match event with
  | .trigger _ => inferInstanceAs (Decidable (_ ∧ _))
  | .insert _ => inferInstanceAs (Decidable (_ ∧ _))
  | .addBuildsetReturns _ => inferInstanceAs (Decidable (_ ∧ _))
  | .complete _ _ => inferInstanceAs (Decidable (_ ∧ _))
  | .timer => inferInstanceAs (Decidable (_ = _))
  | .startConsumingReturns => inferInstanceAs (Decidable (_ ∨ _))
  | .stopService => inferInstanceAs (Decidable (_ = _))
  | .finishStop => inferInstanceAs (Decidable triggerable.Finishing)

def step (event : TriggerEvent) : Triggerable × List Unit :=
  if triggerable.Enabled event then
    match event with
    | .trigger bsid =>
      ({ triggerable with
        triggered := triggerable.triggered ++ [bsid]
        adding := triggerable.adding ++ [bsid] }, [])
    | .insert bsid => ({ triggerable with inserted := triggerable.inserted ++ [bsid] }, [])
    | .addBuildsetReturns bsid => (triggerable.setupWaiter bsid, [])
    | .complete bsid results => (triggerable.complete bsid results, [])
    | .timer => (triggerable.invoke, [])
    | .startConsumingReturns => (triggerable.startConsumingReturns, [])
    | .stopService => (triggerable.stopService, [])
    | .finishStop => (triggerable.finishStop, [])
  else (triggerable, [])

def start : Triggerable where
  triggered := []
  adding := []
  inserted := []
  completed := []
  completedRunning := []
  waiters := []
  buildsetCompleteConsumer := false
  phase := .idle
  debouncerStopped := false
  service := .running
  triggeredBefore := []
  fired := []

/-- The triggers whose `resultsDeferred` has fired. -/
def answered : List Nat := triggerable.fired.map Prod.fst

/-- Nothing is on its way: every `addBuildset` has returned, and neither a timer nor `startConsuming` is pending. -/
def Quiet : Prop := triggerable.adding = [] ∧ triggerable.phase = .idle ∧ ¬ triggerable.Finishing

structure Answers : Prop where
  results : triggerable.Quiet → ∀ completion ∈ triggerable.completedRunning,
    (completion.1, some completion.2) ∈ triggerable.fired
  closed : triggerable.service = .stopped → ∀ bsid ∈ triggerable.triggeredBefore, bsid ∈ triggerable.answered

/-- A completion that comes before `stopService` comes after `addBuildset` has returned, with the consumer there or no
call of `_updateWaiters` pending; `stopService` finishes when the `addBuildset` of every earlier trigger has returned. -/
def Timely (event : TriggerEvent) : Prop :=
  triggerable.Enabled event →
    match event with
    | .complete bsid _ => triggerable.service = .running →
        bsid ∉ triggerable.adding ∧ (triggerable.buildsetCompleteConsumer ∨ triggerable.phase = .idle)
    | .finishStop => ∀ bsid ∈ triggerable.triggeredBefore, bsid ∉ triggerable.adding
    | _ => True

/-- What the debouncer has done or is doing about the waiters. -/
def Attentive (phase : DebouncePhase) : Prop :=
  match phase with
  | .idle => triggerable.waiters ≠ [] → triggerable.buildsetCompleteConsumer
  | .running => triggerable.waiters ≠ [] ∧ triggerable.buildsetCompleteConsumer = false
  | .waiting | .runningQueued => True

structure Sound : Prop where
  distinct : triggerable.triggered.Nodup
  accounted : (triggerable.adding ++ (triggerable.waiters ++ triggerable.answered)).Perm triggerable.triggered
  inserted : ∀ bsid ∈ triggerable.inserted, bsid ∈ triggerable.triggered
  early : ∀ bsid ∈ triggerable.triggeredBefore, bsid ∈ triggerable.triggered
  attentive : triggerable.service = .running →
    triggerable.debouncerStopped = false ∧ triggerable.Attentive triggerable.phase ∧
      ∀ bsid ∈ triggerable.answered, bsid ∈ triggerable.completed

variable {triggerable}

theorem start_sound : start.Sound where
  distinct := List.nodup_nil
  accounted := List.Perm.refl _
  inserted := nofun
  early := nofun
  attentive _ := ⟨rfl, fun some => absurd rfl some, nofun⟩

theorem Sound.once (sound : triggerable.Sound) : triggerable.answered.Nodup := by
  have all := sound.accounted.nodup_iff.mpr sound.distinct
  exact (List.nodup_append.mp (List.nodup_append.mp all).2.1).2.1

theorem Sound.not_both (sound : triggerable.Sound) {bsid : Nat} (adding : bsid ∈ triggerable.adding) :
    bsid ∉ triggerable.waiters ++ triggerable.answered := by
  have all := sound.accounted.nodup_iff.mpr sound.distinct
  exact fun later => (List.nodup_append.mp all).2.2 bsid adding bsid later rfl

/-- A call of `_updateWaiters` keeps the debouncer attentive, whatever happened to the waiters before it. -/
theorem updateWaiters_attentive (started : triggerable.debouncerStopped = false) :
    triggerable.updateWaiters.Attentive triggerable.updateWaiters.phase := by
  unfold updateWaiters
  rw [if_neg (by simp [started])]
  cases phase : triggerable.phase with
  | idle => trivial
  | waiting =>
    dsimp only
    rw [phase]
    trivial
  | running => trivial
  | runningQueued =>
    dsimp only
    rw [phase]
    trivial

theorem invoke_attentive : triggerable.invoke.Attentive triggerable.invoke.phase := by
  unfold invoke
  split
  · rename_i opens
    exact ⟨opens.1, by simpa using opens.2⟩
  split
  · rename_i closes
    exact fun some => absurd closes.1 some
  · rename_i watched _
    intro some
    by_contra unwatched
    exact watched ⟨some, unwatched⟩

/-- `_updateWaiters` and the debouncer change nothing but the consumer and the phase. -/
theorem updateWaiters_eq : ∃ phase, triggerable.updateWaiters = { triggerable with phase } := by
  unfold updateWaiters
  split
  · exact ⟨triggerable.phase, rfl⟩
  split
  all_goals exact ⟨_, rfl⟩

theorem invoke_eq : ∃ phase consumer,
    triggerable.invoke = { triggerable with phase, buildsetCompleteConsumer := consumer } := by
  unfold invoke
  split
  · exact ⟨_, _, rfl⟩
  split
  all_goals exact ⟨_, _, rfl⟩

theorem Sound.invoke (sound : triggerable.Sound) : triggerable.invoke.Sound := by
  have attentive := triggerable.invoke_attentive
  obtain ⟨phase, consumer, same⟩ := triggerable.invoke_eq
  rw [same] at attentive ⊢
  exact ⟨sound.distinct, sound.accounted, sound.inserted, sound.early, fun running =>
    ⟨(sound.attentive running).1, attentive, (sound.attentive running).2.2⟩⟩

/-- The waiters may change when `_updateWaiters` is called after it. -/
theorem updateWaiters_sound (distinct : triggerable.triggered.Nodup)
    (accounted : (triggerable.adding ++ (triggerable.waiters ++ triggerable.answered)).Perm triggerable.triggered)
    (inserted : ∀ bsid ∈ triggerable.inserted, bsid ∈ triggerable.triggered)
    (early : ∀ bsid ∈ triggerable.triggeredBefore, bsid ∈ triggerable.triggered)
    (started : triggerable.service = .running → triggerable.debouncerStopped = false)
    (known : triggerable.service = .running → ∀ bsid ∈ triggerable.answered, bsid ∈ triggerable.completed) :
    triggerable.updateWaiters.Sound := by
  have attentive := triggerable.updateWaiters_attentive
  obtain ⟨phase, same⟩ := triggerable.updateWaiters_eq
  rw [same] at attentive ⊢
  exact ⟨distinct, accounted, inserted, early, fun running =>
    ⟨started running, attentive (started running), known running⟩⟩

theorem Sound.setupWaiter (sound : triggerable.Sound) {bsid : Nat} (adding : bsid ∈ triggerable.adding) :
    (triggerable.setupWaiter bsid).Sound := by
  refine updateWaiters_sound sound.distinct ?_ sound.inserted sound.early (fun running => (sound.attentive running).1)
    fun running => (sound.attentive running).2.2
  -- The trigger moves from those being added to those with a waiter.
  have moved : (triggerable.adding.erase bsid ++ (triggerable.waiters ++ [bsid] ++ triggerable.answered)).Perm
      (bsid :: triggerable.adding.erase bsid ++ (triggerable.waiters ++ triggerable.answered)) := by
    have middle : (triggerable.adding.erase bsid ++ triggerable.waiters ++ bsid :: triggerable.answered).Perm
        (bsid :: (triggerable.adding.erase bsid ++ triggerable.waiters ++ triggerable.answered)) := List.perm_middle
    simpa using middle
  exact moved.trans (((List.perm_cons_erase adding).symm.append_right _).trans sound.accounted)

theorem Sound.complete (sound : triggerable.Sound) (bsid : Nat) (results : Int) :
    (triggerable.complete bsid results).Sound := by
  have known (running : triggerable.service = .running) (other : Nat) (answered : other ∈ triggerable.answered) :
      other ∈ triggerable.completed ++ [bsid] :=
    List.mem_append_left _ ((sound.attentive running).2.2 other answered)
  have unanswered : ({ triggerable with
      completed := triggerable.completed ++ [bsid]
      completedRunning :=
        if triggerable.service = .running then triggerable.completedRunning ++ [(bsid, results)]
        else triggerable.completedRunning } : Triggerable).Sound :=
    ⟨sound.distinct, sound.accounted, sound.inserted, sound.early, fun running =>
      ⟨(sound.attentive running).1, (sound.attentive running).2.1, known running⟩⟩
  unfold Triggerable.complete buildsetCompleteCb
  dsimp only
  split
  · split
    · rename_i waits
      refine updateWaiters_sound sound.distinct ?_ sound.inserted sound.early
        (fun running => (sound.attentive running).1) fun running other member => ?_
      · -- The trigger moves from those with a waiter to those answered.
        have moved : (triggerable.waiters.erase bsid ++ (triggerable.answered ++ [bsid])).Perm
            (triggerable.waiters ++ triggerable.answered) := by
          rw [← List.append_assoc]
          exact (List.perm_append_singleton bsid _).trans ((List.perm_cons_erase waits).symm.append_right _)
        have listed : ({ triggerable with fired := triggerable.fired ++ [(bsid, some results)] } : Triggerable).answered =
            triggerable.answered ++ [bsid] := by simp [answered]
        show (triggerable.adding ++ (triggerable.waiters.erase bsid ++
          ({ triggerable with fired := triggerable.fired ++ [(bsid, some results)] } : Triggerable).answered)).Perm _
        rw [listed]
        exact (moved.append_left _).trans sound.accounted
      · have listed : other ∈ triggerable.answered ++ [bsid] := by simpa [answered] using member
        rcases List.mem_append.mp listed with earlier | now
        · exact known running other earlier
        · exact List.mem_append_right _ now
    · exact unanswered
  · exact unanswered

theorem Sound.startConsumingReturns (sound : triggerable.Sound) : triggerable.startConsumingReturns.Sound := by
  unfold Triggerable.startConsumingReturns
  dsimp only
  have watched : ({ triggerable with buildsetCompleteConsumer := true, phase := .idle } : Triggerable).Sound :=
    ⟨sound.distinct, sound.accounted, sound.inserted, sound.early, fun running =>
      ⟨(sound.attentive running).1, fun _ => rfl, (sound.attentive running).2.2⟩⟩
  split
  · exact watched.invoke
  split
  · exact updateWaiters_sound sound.distinct sound.accounted sound.inserted sound.early
      (fun running => (sound.attentive running).1) fun running => (sound.attentive running).2.2
  · exact watched

theorem Sound.stopService (sound : triggerable.Sound) : triggerable.stopService.Sound := by
  have stopping : ({ triggerable with
      service := .stopping
      triggeredBefore := triggerable.triggered
      debouncerStopped := true } : Triggerable).Sound :=
    ⟨sound.distinct, sound.accounted, sound.inserted, fun _ member => member, nofun⟩
  unfold Triggerable.stopService
  dsimp only
  split
  · exact stopping.invoke
  · exact stopping

theorem Sound.finishStop (sound : triggerable.Sound) : triggerable.finishStop.Sound := by
  have listed : triggerable.finishStop.answered = triggerable.answered ++ triggerable.waiters := by
    simp [answered, Triggerable.finishStop, Function.comp_def]
  refine ⟨sound.distinct, ?_, sound.inserted, sound.early, nofun⟩
  show (triggerable.adding ++ ([] ++ triggerable.finishStop.answered)).Perm triggerable.triggered
  rw [listed, List.nil_append]
  exact (List.perm_append_comm.append_left _).trans sound.accounted

theorem Sound.step (sound : triggerable.Sound) (event : TriggerEvent) : (triggerable.step event).1.Sound := by
  unfold Triggerable.step
  split
  · rename_i enabled
    cases event with
    | trigger bsid =>
      obtain ⟨_, fresh⟩ := enabled
      refine ⟨sound.distinct.append (List.nodup_singleton _) (by simpa using fresh), ?_,
        fun other member => List.mem_append_left _ (sound.inserted other member),
        fun other member => List.mem_append_left _ (sound.early other member), sound.attentive⟩
      have moved : (triggerable.adding ++ [bsid] ++ (triggerable.waiters ++ triggerable.answered)).Perm
          (triggerable.adding ++ (triggerable.waiters ++ triggerable.answered) ++ [bsid]) := by
        rw [List.append_assoc, List.append_assoc]
        exact List.perm_append_comm.append_left _
      exact moved.trans (sound.accounted.append_right _)
    | insert bsid =>
      refine ⟨sound.distinct, sound.accounted, fun other member => ?_, sound.early, sound.attentive⟩
      rcases List.mem_append.mp member with earlier | now
      · exact sound.inserted other earlier
      · rw [List.mem_singleton.mp now]
        exact sound.accounted.subset (List.mem_append_left _ enabled.2.1)
    | addBuildsetReturns bsid => exact sound.setupWaiter enabled.2.1
    | complete bsid results => exact sound.complete bsid results
    | timer => exact sound.invoke
    | startConsumingReturns => exact sound.startConsumingReturns
    | stopService => exact sound.stopService
    | finishStop => exact sound.finishStop
  · exact sound

variable (triggerable) in
/-- What a run keeps whose completions and stop are timely. -/
structure Kept : Prop where
  results : ∀ completion ∈ triggerable.completedRunning, (completion.1, some completion.2) ∈ triggerable.fired
  closed : triggerable.service = .stopped → ∀ bsid ∈ triggerable.triggeredBefore, bsid ∈ triggerable.answered

theorem Kept.answers (kept : triggerable.Kept) : triggerable.Answers := ⟨fun _ => kept.results, kept.closed⟩

theorem Kept.invoke (kept : triggerable.Kept) : triggerable.invoke.Kept := by
  obtain ⟨phase, consumer, same⟩ := triggerable.invoke_eq
  rw [same]
  exact ⟨kept.results, kept.closed⟩

theorem Kept.updateWaiters (kept : triggerable.Kept) : triggerable.updateWaiters.Kept := by
  obtain ⟨phase, same⟩ := triggerable.updateWaiters_eq
  rw [same]
  exact ⟨kept.results, kept.closed⟩

/-- A completion that is produced while the service runs finds its waiter and the consumer. -/
theorem Sound.awaited (sound : triggerable.Sound) {bsid : Nat} {results : Int}
    (enabled : triggerable.Enabled (.complete bsid results)) (timely : triggerable.Timely (.complete bsid results))
    (running : triggerable.service = .running) :
    bsid ∈ triggerable.waiters ∧ triggerable.buildsetCompleteConsumer = true := by
  obtain ⟨returned, watched⟩ := timely enabled running
  obtain ⟨_, inserted, incomplete⟩ := enabled
  obtain ⟨_, attentive, known⟩ := sound.attentive running
  have waits : bsid ∈ triggerable.waiters := by
    have listed := sound.accounted.mem_iff.mpr (sound.inserted bsid inserted)
    have later := (List.mem_append.mp listed).resolve_left returned
    exact (List.mem_append.mp later).resolve_right fun done => incomplete (known bsid done)
  refine ⟨waits, ?_⟩
  rcases watched with there | idle
  · exact there
  · rw [idle] at attentive
    exact attentive (List.ne_nil_of_mem waits)

theorem Kept.complete (kept : triggerable.Kept) (sound : triggerable.Sound) {bsid : Nat} {results : Int}
    (enabled : triggerable.Enabled (.complete bsid results)) (timely : triggerable.Timely (.complete bsid results)) :
    (triggerable.complete bsid results).Kept := by
  have grown (completion : Nat × Option Int) : ∀ other ∈ triggerable.answered,
      other ∈ ({ triggerable with fired := triggerable.fired ++ [completion] } : Triggerable).answered := by
    intro other member
    obtain ⟨earlier, listed, rfl⟩ := List.mem_map.mp member
    exact List.mem_map_of_mem (List.mem_append_left _ listed)
  unfold Triggerable.complete buildsetCompleteCb
  by_cases running : triggerable.service = .running
  · obtain ⟨waits, watched⟩ := sound.awaited enabled timely running
    rw [if_pos watched, if_pos waits]
    refine Kept.updateWaiters ⟨fun completion member => ?_, fun stopped => ?_⟩
    · dsimp only at member
      rw [if_pos running] at member
      rcases List.mem_append.mp member with earlier | now
      · exact List.mem_append_left _ (kept.results completion earlier)
      · rw [List.mem_singleton.mp now]
        exact List.mem_append_right _ (List.mem_singleton_self _)
    · exact absurd (running.symm.trans stopped) nofun
  · dsimp only
    rw [if_neg running]
    split
    · split
      · refine Kept.updateWaiters ⟨fun completion member => ?_, fun stopped other early => ?_⟩
        · exact List.mem_append_left _ (kept.results completion member)
        · exact grown _ other (kept.closed stopped other early)
      · exact ⟨kept.results, kept.closed⟩
    · exact ⟨kept.results, kept.closed⟩

theorem Kept.step (kept : triggerable.Kept) (sound : triggerable.Sound) (event : TriggerEvent)
    (timely : triggerable.Timely event) : (triggerable.step event).1.Kept := by
  unfold Triggerable.step
  split
  · rename_i enabled
    cases event with
    | trigger bsid => exact ⟨kept.results, kept.closed⟩
    | insert bsid => exact ⟨kept.results, kept.closed⟩
    | addBuildsetReturns bsid =>
      have moved : ({ triggerable with
        adding := triggerable.adding.erase bsid
        waiters := triggerable.waiters ++ [bsid] } : Triggerable).Kept := ⟨kept.results, kept.closed⟩
      exact moved.updateWaiters
    | complete bsid results => exact kept.complete sound enabled timely
    | timer => exact kept.invoke
    | startConsumingReturns =>
      have watched : ({ triggerable with buildsetCompleteConsumer := true, phase := .idle } : Triggerable).Kept :=
        ⟨kept.results, kept.closed⟩
      simp only [Triggerable.startConsumingReturns]
      split
      · exact watched.invoke
      split
      · exact watched.updateWaiters
      · exact watched
    | stopService =>
      have stopping : ({ triggerable with
        service := .stopping
        triggeredBefore := triggerable.triggered
        debouncerStopped := true } : Triggerable).Kept := ⟨kept.results, nofun⟩
      simp only [Triggerable.stopService]
      split
      · exact stopping.invoke
      · exact stopping
    | finishStop =>
      refine ⟨fun completion member => List.mem_append_left _ (kept.results completion member),
        fun _ bsid early => ?_⟩
      have listed := sound.accounted.mem_iff.mpr (sound.early bsid early)
      have later := (List.mem_append.mp listed).resolve_left (timely enabled bsid early)
      show bsid ∈ (triggerable.fired ++ triggerable.waiters.map fun bsid => (bsid, none)).map Prod.fst
      rw [List.map_append, List.map_map]
      rcases List.mem_append.mp later with waits | done
      · exact List.mem_append_right _ (List.mem_map.mpr ⟨bsid, waits, rfl⟩)
      · exact List.mem_append_left _ done
  · exact kept

/-- No trigger is answered twice in any run; every trigger is answered, and with its results, in a run whose
completions come after the waiter and the consumer are there and whose stop comes after every `addBuildset`. -/
theorem triggers_answered (events : List TriggerEvent) :
    (final step start events).answered.Nodup ∧
      (Always step Timely start events → (final step start events).Answers) := by
  have soundly (triggerable : Triggerable) (event : TriggerEvent) (sound : triggerable.Sound) := sound.step event
  refine ⟨(final_of_step soundly start_sound events).once, fun timely => ?_⟩
  have preserved (triggerable : Triggerable) (event : TriggerEvent) (both : triggerable.Sound ∧ triggerable.Kept)
      (timely : triggerable.Timely event) :
      (triggerable.step event).1.Sound ∧ (triggerable.step event).1.Kept :=
    ⟨both.1.step event, both.2.step both.1 event timely⟩
  exact (invariant_of_always preserved ⟨start_sound, nofun, nofun⟩ timely).2.answers

/-- One of two triggers completes before the scheduler stops. -/
def stopped : List TriggerEvent :=
  [.trigger 1, .insert 1, .addBuildsetReturns 1, .trigger 2, .timer, .startConsumingReturns, .complete 1 0, .insert 2,
    .addBuildsetReturns 2, .stopService, .finishStop]

theorem stopped_answered :
    (final step start stopped).answered.Nodup ∧ (final step start stopped).Answers ∧
      (final step start stopped).fired = [(1, some 0), (2, none)] := by
  obtain ⟨once, answers⟩ := triggers_answered stopped
  refine ⟨once, answers ?_, by decide⟩
  refine ⟨fun _ => trivial, fun _ => trivial, fun _ => trivial, fun _ => trivial, fun _ => trivial, fun _ => trivial,
    ?_, fun _ => trivial, fun _ => trivial, fun _ => trivial, ?_, trivial⟩
  · intro _ _
    decide
  · intro _
    show ∀ bsid ∈ [1, 2], bsid ∉ []
    decide

/-- A buildset without builders is complete before `addBuildset` returns. -/
def withoutBuilders : List TriggerEvent :=
  [.trigger 1, .insert 1, .complete 1 0, .addBuildsetReturns 1, .timer, .startConsumingReturns]

/-- The scheduler stops while `addBuildset` is under way. -/
def stoppedMeanwhile : List TriggerEvent := [.trigger 1, .insert 1, .stopService, .finishStop, .addBuildsetReturns 1]

theorem triggers_unanswered :
    ¬ (final step start withoutBuilders).Answers ∧ ¬ (final step start stoppedMeanwhile).Answers := by
  constructor
  · intro answers
    have answered := answers.results ⟨by decide, by decide, by decide⟩ (1, 0) (by decide)
    revert answered
    decide
  · intro answers
    have answered := answers.closed (by decide) 1 (by decide)
    revert answered
    decide

end Triggerable

end Umbilical.Schedulers
