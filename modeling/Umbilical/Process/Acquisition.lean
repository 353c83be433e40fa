import Umbilical.Locks.Bookkeeping
import Umbilical.Shared.Interleaving
import Mathlib.Logic.Function.Basic
import Mathlib.Tactic.SplitIfs

set_option autoImplicit false

/-!
# Taking several locks

How a build and a step take the locks of their lists, wait for one that is not
available, and stop waiting. The master is one thread, so each event below runs
to its end before the next one.
-/

namespace Umbilical.Process

open Locks

/-- Where a requester has come to. The source does not tell `claimed` from `skipped`. -/
inductive Phase where
  | idle
  | waiting (d : Deferred)
  | claimed
  | skipped
  | failed (failure : Failure)
  | released
  deriving DecidableEq

/-- The fields of a `Build` that have to do with its locks. -/
structure Build (κ : Type) where
  locksToAcquire : List (κ × LockAccess)
  acquiringLock : Option (κ × LockAccess × Deferred)
  stopped : Bool
  phase : Phase

/-- The same of a `BuildStep`. -/
structure BuildStep (κ : Type) where
  locksToAcquire : List (κ × LockAccess)
  acquiringLocks : List (κ × LockAccess × Deferred)
  stopped : Bool
  phase : Phase

section Locking

variable {κ ρ : Type} [DecidableEq κ] [DecidableEq ρ] (self : ρ)

def firstUnavailable (locks : κ → BaseLock ρ) (wanted : List (κ × LockAccess)) : Option (κ × LockAccess) :=
  wanted.find? fun (lock, access) => (locks lock).isAvailable self access = false

/-- What is claimed before a failed claim stays claimed. -/
def claimAll : (κ → BaseLock ρ) → List (κ × LockAccess) → (κ → BaseLock ρ) × Option Failure
  | locks, [] => (locks, none)
  | locks, (lock, access) :: rest =>
      match (locks lock).claim self access with
      | .error failure => (locks, some failure)
      | .ok claimed => claimAll (Function.update locks lock claimed) rest

inductive Taken (κ : Type) where
  | waiting (lock : κ) (access : LockAccess)
  | claimed
  | failed (failure : Failure)

/-- The loops that both copies of `acquireLocks` have. In the step's copy a loop over the locks it waits for
comes first, which does nothing: its `continue` is its own. -/
def takeLocks (locks : κ → BaseLock ρ) (wanted : List (κ × LockAccess)) (d : Deferred) :
    (κ → BaseLock ρ) × Taken κ :=
  match firstUnavailable self locks wanted with
  | some (lock, access) =>
      match (locks lock).waitUntilMaybeAvailable self access d with
      | .error failure => (locks, .failed failure)
      -- the lock has just been found unavailable, so the deferred is pending
      | .ok (waited, _) => (Function.update locks lock waited, .waiting lock access)
  | none =>
      match claimAll self locks wanted with
      | (locks, none) => (locks, .claimed)
      | (locks, some failure) => (locks, .failed failure)

namespace Build

def new (locksToAcquire : List (κ × LockAccess)) : Build κ where
  locksToAcquire := locksToAcquire
  acquiringLock := none
  stopped := false
  phase := .idle

def acquireLocks (locks : κ → BaseLock ρ) (build : Build κ) (d : Deferred) :
    (κ → BaseLock ρ) × Build κ × List Failure :=
  let build := { build with acquiringLock := none }
  if build.locksToAcquire = [] then (locks, { build with phase := .claimed }, [])
  else if build.stopped then (locks, { build with phase := .skipped }, [])
  else match takeLocks self locks build.locksToAcquire d with
    | (locks, .waiting lock access) =>
        (locks, { build with acquiringLock := some (lock, access, d), phase := .waiting d }, [])
    | (locks, .claimed) => (locks, { build with phase := .claimed }, [])
    | (locks, .failed failure) => (locks, { build with phase := .failed failure }, [failure])

/-- What `stopBuild` and `lostRemote` do about locks, with the callbacks that get scheduled. -/
def stop (locks : κ → BaseLock ρ) (build : Build κ) :
    (κ → BaseLock ρ) × Build κ × List Deferred × List Failure :=
  let build := { build with stopped := true }
  match build.acquiringLock with
  | none => (locks, build, [], [])
  | some (lock, access, d) =>
      match (locks lock).stopWaitingUntilAvailable self access d with
      | .error failure => (locks, build, [], [failure])
      | .ok (left, some woken) => (Function.update locks lock left, build, woken, [])
      | .ok (left, none) =>
          -- the callback is `acquireLocks`, which finds the build stopped
          let (locks, build, failures) := acquireLocks self (Function.update locks lock left) build d
          (locks, build, [], failures)

/-- Releases what is owned, passing over what is not. -/
def releaseOwned : (κ → BaseLock ρ) → List (κ × LockAccess) → (κ → BaseLock ρ) × List Deferred
  | locks, [] => (locks, [])
  | locks, (lock, access) :: rest =>
      if (locks lock).isOwner self access then
        let (released, woken) := (locks lock).release self access
        let (locks, later) := releaseOwned (Function.update locks lock released) rest
        (locks, woken ++ later)
      else releaseOwned locks rest

def releaseLocks (locks : κ → BaseLock ρ) (build : Build κ) : (κ → BaseLock ρ) × Build κ × List Deferred :=
  let (locks, woken) := releaseOwned self locks build.locksToAcquire
  (locks, { build with phase := .released }, woken)

end Build

namespace BuildStep

def new (locksToAcquire : List (κ × LockAccess)) : BuildStep κ where
  locksToAcquire := locksToAcquire
  acquiringLocks := []
  stopped := false
  phase := .idle

def acquireLocks (locks : κ → BaseLock ρ) (step : BuildStep κ) (d : Deferred) :
    (κ → BaseLock ρ) × BuildStep κ × List Failure :=
  if step.locksToAcquire = [] then (locks, { step with phase := .claimed }, [])
  else if step.stopped then (locks, { step with phase := .skipped }, [])
  else match takeLocks self locks step.locksToAcquire d with
    | (locks, .waiting lock access) =>
        (locks, { step with
          acquiringLocks := step.acquiringLocks ++ [(lock, access, d)], phase := .waiting d }, [])
    | (locks, .claimed) => (locks, { step with acquiringLocks := [], phase := .claimed }, [])
    | (locks, .failed failure) => (locks, { step with phase := .failed failure }, [failure])

/-- The loop of `_interrupt_impl` over the locks that the step waits for. -/
def stopWaiting : (κ → BaseLock ρ) → BuildStep κ → List (κ × LockAccess × Deferred) →
    (κ → BaseLock ρ) × BuildStep κ × List Deferred × List Failure
  | locks, step, [] => (locks, { step with acquiringLocks := [] }, [], [])
  | locks, step, (lock, access, d) :: rest =>
      match (locks lock).stopWaitingUntilAvailable self access d with
      | .error failure => (locks, step, [], [failure])
      | .ok (left, some woken) =>
          let (locks, step, later, failures) := stopWaiting (Function.update locks lock left) step rest
          (locks, step, woken ++ later, failures)
      | .ok (left, none) =>
          -- the callback is `acquireLocks`, which finds the step stopped
          let (locks, step, called) := acquireLocks self (Function.update locks lock left) step d
          let (locks, step, later, failures) := stopWaiting locks step rest
          (locks, step, later, called ++ failures)

/-- `_interrupt_impl`, as far as locks go. -/
def interrupt (locks : κ → BaseLock ρ) (step : BuildStep κ) :
    (κ → BaseLock ρ) × BuildStep κ × List Deferred × List Failure :=
  if step.stopped then (locks, step, [], [])
  else stopWaiting self locks { step with stopped := true } step.acquiringLocks

/-- Releases what is owned up to the first access that is not, unless the step has been stopped. -/
def releaseOwned (stopped : Bool) : (κ → BaseLock ρ) → List (κ × LockAccess) → (κ → BaseLock ρ) × List Deferred
  | locks, [] => (locks, [])
  | locks, (lock, access) :: rest =>
      if (locks lock).isOwner self access then
        let (released, woken) := (locks lock).release self access
        let (locks, later) := releaseOwned stopped (Function.update locks lock released) rest
        (locks, woken ++ later)
      else if stopped then releaseOwned stopped locks rest
      -- the source asserts that the step has been stopped
      else (locks, [])

def releaseLocks (locks : κ → BaseLock ρ) (step : BuildStep κ) : (κ → BaseLock ρ) × BuildStep κ × List Deferred :=
  let (locks, woken) := releaseOwned self step.stopped locks step.locksToAcquire
  (locks, { step with phase := .released }, woken)

end BuildStep

end Locking

inductive Kind where
  | build
  | step
  deriving DecidableEq

/-- A requester that takes locks in one of the two ways. -/
inductive Party (κ : Type) where
  | ofBuild (build : Build κ)
  | ofStep (step : BuildStep κ)

namespace Party

section Fields

variable {κ : Type}

def new : Kind → List (κ × LockAccess) → Party κ
  | .build, locksToAcquire => ofBuild (.new locksToAcquire)
  | .step, locksToAcquire => ofStep (.new locksToAcquire)

def kind : Party κ → Kind
  | ofBuild _ => .build
  | ofStep _ => .step

def stopped : Party κ → Bool
  | ofBuild build => build.stopped
  | ofStep step => step.stopped

def phase : Party κ → Phase
  | ofBuild build => build.phase
  | ofStep step => step.phase

def locksToAcquire : Party κ → List (κ × LockAccess)
  | ofBuild build => build.locksToAcquire
  | ofStep step => step.locksToAcquire

/-- The waits that it would call off. -/
def acquiring : Party κ → List (κ × LockAccess × Deferred)
  | ofBuild build => build.acquiringLock.toList
  | ofStep step => step.acquiringLocks

end Fields

variable {κ ρ : Type} [DecidableEq κ] [DecidableEq ρ] (self : ρ)

def acquireLocks (locks : κ → BaseLock ρ) (d : Deferred) : Party κ → (κ → BaseLock ρ) × Party κ × List Failure
  | ofBuild build =>
      let (locks, build, failures) := build.acquireLocks self locks d
      (locks, ofBuild build, failures)
  | ofStep step =>
      let (locks, step, failures) := step.acquireLocks self locks d
      (locks, ofStep step, failures)

def stop (locks : κ → BaseLock ρ) : Party κ → (κ → BaseLock ρ) × Party κ × List Deferred × List Failure
  | ofBuild build =>
      let (locks, build, woken, failures) := build.stop self locks
      (locks, ofBuild build, woken, failures)
  | ofStep step =>
      let (locks, step, woken, failures) := step.interrupt self locks
      (locks, ofStep step, woken, failures)

def releaseLocks (locks : κ → BaseLock ρ) : Party κ → (κ → BaseLock ρ) × Party κ × List Deferred
  | ofBuild build =>
      let (locks, build, woken) := build.releaseLocks self locks
      (locks, ofBuild build, woken)
  | ofStep step =>
      let (locks, step, woken) := step.releaseLocks self locks
      (locks, ofStep step, woken)

/-- When it comes to `releaseLocks`. A step gets there after an exception too, a build that fails to take
its locks does not. -/
def Releases (party : Party κ) : Prop :=
  match party.phase, party with
  | .claimed, _ | .skipped, _ | .failed _, ofStep _ => True
  | _, _ => False

instance (party : Party κ) : Decidable party.Releases := by
  unfold Releases
  split <;> infer_instance

end Party

/-- The locks, those of their requesters that are builds and steps, and the callbacks that the reactor
has queued. -/
structure World (κ ρ : Type) where
  locks : κ → BaseLock ρ
  parties : ρ → Option (Party κ)
  scheduled : List Deferred
  next : Deferred

inductive Event (κ ρ : Type) where
  | acquire (self : ρ)
  | wakeup (self : ρ)
  | stop (self : ρ)
  | release (self : ρ)
  | other (lock : κ) (use : Use ρ)

namespace World

variable {κ ρ : Type}

/-- Nobody has asked for a lock yet. -/
def new (maxCount : κ → Int) (wanted : ρ → Option (Kind × List (κ × LockAccess))) : World κ ρ where
  locks lock := .new (maxCount lock)
  parties self := (wanted self).map fun (kind, locksToAcquire) => Party.new kind locksToAcquire
  scheduled := []
  next := 0

variable [DecidableEq κ] [DecidableEq ρ] (world : World κ ρ)

def acquireLocks (self : ρ) (party : Party κ) : World κ ρ × List (ρ × Failure) :=
  let (locks, party, failures) := party.acquireLocks self world.locks world.next
  ({ world with
    locks := locks
    parties := Function.update world.parties self (some party)
    next := world.next + 1 }, failures.map (self, ·))

def stop (self : ρ) (party : Party κ) : World κ ρ × List (ρ × Failure) :=
  let (locks, party, woken, failures) := party.stop self world.locks
  ({ world with
    locks := locks
    parties := Function.update world.parties self (some party)
    scheduled := world.scheduled ++ woken }, failures.map (self, ·))

def releaseLocks (self : ρ) (party : Party κ) : World κ ρ :=
  let (locks, party, woken) := party.releaseLocks self world.locks
  { world with
    locks := locks
    parties := Function.update world.parties self (some party)
    scheduled := world.scheduled ++ woken }

end World

/-- A call by somebody who is neither of the builds nor of the steps, with the callbacks it schedules. -/
def useLock {ρ : Type} [DecidableEq ρ] (lock : BaseLock ρ) (d : Deferred) : Use ρ → BaseLock ρ × List Deferred
  | .claim owner access => ((lock.claim owner access).toOption.getD lock, [])
  | .release owner access => lock.release owner access
  | .waitUntilMaybeAvailable owner access _ =>
      (((lock.waitUntilMaybeAvailable owner access d).toOption.map Prod.fst).getD lock, [])
  | .stopWaitingUntilAvailable owner access waited =>
      match lock.stopWaitingUntilAvailable owner access waited with
      | .error _ => (lock, [])
      | .ok (left, woken) => (left, woken.getD [])
  | .setMaxCount count => lock.setMaxCount count

/-- Who makes a call, where somebody does. -/
def requester {ρ : Type} : Use ρ → Option ρ
  | .claim owner _ | .release owner _ | .waitUntilMaybeAvailable owner _ _
  | .stopWaitingUntilAvailable owner _ _ => some owner
  | .setMaxCount _ => none

namespace World

variable {κ ρ : Type} [DecidableEq κ] [DecidableEq ρ] (world : World κ ρ)

/-- An event that cannot happen changes nothing. -/
def step (event : Event κ ρ) : World κ ρ × List (ρ × Failure) :=
  match event with
  | .acquire self =>
      match world.parties self with
      | none => (world, [])
      | some party => if party.phase = .idle then world.acquireLocks self party else (world, [])
  | .wakeup self =>
      match world.parties self with
      | none => (world, [])
      | some party =>
          match party.phase with
          | .waiting d =>
              if d ∈ world.scheduled then
                { world with scheduled := world.scheduled.erase d }.acquireLocks self party
              else (world, [])
          | _ => (world, [])
  | .stop self =>
      match world.parties self with
      | none => (world, [])
      | some party => world.stop self party
  | .release self =>
      match world.parties self with
      | none => (world, [])
      | some party => if party.Releases then (world.releaseLocks self party, []) else (world, [])
  | .other lock use =>
      if ∃ self ∈ requester use, (world.parties self).isSome then (world, [])
      else
        let (used, woken) := useLock (world.locks lock) world.next use
        ({ world with
          locks := Function.update world.locks lock used
          scheduled := world.scheduled ++ woken
          next := world.next + 1 }, [])

/-- All that an event can do. -/
inductive Steps (world : World κ ρ) : Event κ ρ → World κ ρ × List (ρ × Failure) → Prop
  | still (event : Event κ ρ) : Steps world event (world, [])
  | acquired {self : ρ} {party : Party κ} (known : world.parties self = some party) (idle : party.phase = .idle) :
      Steps world (.acquire self) (world.acquireLocks self party)
  | woken {self : ρ} {party : Party κ} {d : Deferred} (known : world.parties self = some party)
      (waiting : party.phase = .waiting d) (called : d ∈ world.scheduled) :
      Steps world (.wakeup self) ({ world with scheduled := world.scheduled.erase d }.acquireLocks self party)
  | stopped {self : ρ} {party : Party κ} (known : world.parties self = some party) :
      Steps world (.stop self) (world.stop self party)
  | released {self : ρ} {party : Party κ} (known : world.parties self = some party) (releases : party.Releases) :
      Steps world (.release self) (world.releaseLocks self party, [])
  | used {lock : κ} {use : Use ρ} {after : BaseLock ρ} {woken : List Deferred}
      (others : ∀ self ∈ requester use, world.parties self = none)
      (used : useLock (world.locks lock) world.next use = (after, woken)) :
      Steps world (.other lock use) (⟨Function.update world.locks lock after, world.parties,
        world.scheduled ++ woken, world.next + 1⟩, [])

theorem step_steps (event : Event κ ρ) : world.Steps event (world.step event) := by
  cases event with
  | acquire self =>
    simp only [step]
    split
    next => exact .still _
    next party known =>
      split_ifs with idle
      · exact .acquired known idle
      · exact .still _
  | wakeup self =>
    simp only [step]
    split
    next => exact .still _
    next party known =>
      split
      next d waiting =>
        split_ifs with called
        · exact .woken known waiting called
        · exact .still _
      next => exact .still _
  | stop self =>
    simp only [step]
    split
    next => exact .still _
    next party known => exact .stopped known
  | release self =>
    simp only [step]
    split
    next => exact .still _
    next party known =>
      split_ifs with releases
      · exact .released known releases
      · exact .still _
  | other lock use =>
    simp only [step]
    split_ifs with among
    · exact .still _
    · refine .used (fun self caller => ?_) rfl
      by_contra known
      exact among ⟨self, caller, Option.isSome_iff_ne_none.mpr known⟩

end World

end Umbilical.Process
