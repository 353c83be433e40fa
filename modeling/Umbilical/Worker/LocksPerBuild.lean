import Umbilical.Process.Claims
import Umbilical.Process.Startup

set_option autoImplicit false

/-!
# The locks of a worker

The worker claims its locks for each build and is their only owner, so that the claims of its
builds cannot be told apart.
-/

namespace Umbilical.Worker

open Locks Process Interleaving

section Counting

variable {ρ : Type} [DecidableEq ρ] {owner : ρ} {lock after : BaseLock ρ} {access : LockAccess}

theorem count_of_claim (claimed : lock.claim owner access = .ok after) (other : ρ × LockAccess)
    (units : other.2.count ≠ 0) :
    after.owners.count other = lock.owners.count other + if (owner, access) = other then 1 else 0 := by
  obtain ⟨_, _, ⟨zero, rfl⟩ | ⟨_, rfl⟩⟩ := BaseLock.claim_eq_ok claimed
  · have different : (owner, access) ≠ other := by
      rintro rfl
      exact units zero
    rw [if_neg different, Nat.add_zero]
  · rw [BaseLock.withOwner_owners, List.count_append, List.count_singleton]
    simp [BaseLock.without]

theorem release_owners : (lock.release owner access).1.owners =
    if access.count = 0 then lock.owners else lock.owners.erase (owner, access) := by
  unfold BaseLock.release BaseLock.removeOwner
  split_ifs with zero owned
  · rfl
  · rw [← BaseLock.withoutOwner_owners]
    exact BaseLock.tryWakeUp_owners
  · exact (List.erase_of_not_mem owned).symm

theorem count_of_release (other : ρ × LockAccess) (units : other.2.count ≠ 0) :
    (lock.release owner access).1.owners.count other =
      lock.owners.count other - if (owner, access) = other then 1 else 0 := by
  rw [release_owners]
  by_cases same : (owner, access) = other
  · subst same
    rw [if_pos rfl, if_neg units, List.count_erase_self]
  · rw [if_neg same, Nat.sub_zero]
    split
    · rfl
    · exact List.count_erase_of_ne (Ne.symm same)

/-- What another owner does to a lock. -/
def Foreign (worker : ρ) : Use ρ → Prop
  | .claim owner _ | .release owner _ | .waitUntilMaybeAvailable owner _ _ | .stopWaitingUntilAvailable owner _ _ =>
      owner ≠ worker
  | .setMaxCount _ => True

instance (worker : ρ) (use : Use ρ) : Decidable (Foreign worker use) := by
  cases use <;> unfold Foreign <;> infer_instance

theorem count_of_foreign {worker : ρ} {use : Use ρ} (foreign : Foreign worker use) (access : LockAccess) :
    (lock.perform use).owners.count (worker, access) = lock.owners.count (worker, access) := by
  have change := BaseLock.perform_change lock use
  generalize lock.perform use = after at change
  cases change with
  | claimed available valid units =>
    rw [BaseLock.withOwner_owners, List.count_append, List.count_singleton, beq_false_of_ne]
    · rfl
    · intro same
      exact foreign (congrArg Prod.fst same)
  | released owned units =>
    rw [BaseLock.tryWakeUp_owners, BaseLock.withoutOwner_owners, List.count_erase_of_ne]
    intro same
    exact foreign (congrArg Prod.fst same).symm
  | _ => rfl

end Counting

/-- A build on the worker. -/
structure WorkerBuild where
  startup : Startup
  /-- The worker's `acquireLocks` has returned True for it. -/
  acquired : Bool
  /-- The worker has not lost a connection since. -/
  undisturbed : Bool
  deriving DecidableEq

structure WorkerLocks (κ ρ : Type) where
  locks : κ → BaseLock ρ
  builds : List WorkerBuild
  latent : Bool
  connected : Bool
  /-- The calls of `detached` that wait for the database. -/
  losing : Nat

inductive WorkerLocksEvent (κ ρ : Type) where
  | started
  /-- Whether `prepareWorker` acquires the locks is up to the locks. -/
  | build (index : Nat) (event : StartupEvent)
  | stepsDone (index : Nat) (results : Results)
  | detached
  | workerLost
  | attached
  | other (lock : κ) (use : Use ρ)

namespace WorkerLocks

variable {κ ρ : Type} [DecidableEq κ] [DecidableEq ρ] (worker : ρ) (wanted : List (κ × LockAccess))

def start (maxCount : κ → Int) (latent connected : Bool) : WorkerLocks κ ρ where
  locks lock := .new (maxCount lock)
  builds := []
  latent := latent
  connected := connected
  losing := 0

def locksAvailable (locks : κ → BaseLock ρ) : Bool := (firstUnavailable worker locks wanted).isNone

/-- What is claimed before a failed claim stays claimed. -/
def acquireLocks (locks : κ → BaseLock ρ) : (κ → BaseLock ρ) × Except Failure Bool :=
  if locksAvailable worker wanted locks then
    match claimAll worker locks wanted with
    | (locks, none) => (locks, .ok true)
    | (locks, some failure) => (locks, .error failure)
  else (locks, .ok false)

def releaseLocks (locks : κ → BaseLock ρ) : κ → BaseLock ρ :=
  wanted.foldl (fun locks (lock, access) => Function.update locks lock ((locks lock).release worker access).1) locks

variable (world : WorkerLocks κ ρ)

def withBuild (index : Nat) (build : WorkerBuild) : WorkerLocks κ ρ :=
  { world with builds := world.builds.set index build }

/-- `startBuild` comes to the worker's locks. -/
def prepareWorker (index : Nat) (build : WorkerBuild) : WorkerLocks κ ρ × List Failure :=
  if build.startup.worker = .gone then
    (world.withBuild index { build with startup := (build.startup.step (.prepareWorker false)).1 }, [])
  else
    let (locks, result) := acquireLocks worker wanted world.locks
    match result with
    | .ok acquired =>
        ({ world with locks := locks }.withBuild index
          { startup := (build.startup.step (.prepareWorker acquired)).1, acquired := acquired, undisturbed := acquired }, [])
    | .error failure =>
        -- the caller catches what is raised
        ({ world with locks := locks }.withBuild index
          { build with startup := (build.startup.step (.prepareWorker false)).1 }, [failure])

/-- `Build.buildFinished` goes on to `Builder.buildFinished`, which releases the locks of the worker if there is one. -/
def finishRecorded (index : Nat) (build : WorkerBuild) : WorkerLocks κ ρ :=
  { world with
    locks := if build.startup.worker = .gone then world.locks else releaseLocks worker wanted world.locks
    builds := world.builds.set index { build with startup := build.startup.windUp, acquired := false } }

def buildStep (index : Nat) (build : WorkerBuild) (event : StartupEvent) : WorkerLocks κ ρ × List Failure :=
  match build.startup.stage, event with
  | .prepareWorker, .prepareWorker _ => prepareWorker worker wanted world index build
  | .buildFinished, .finishRecorded => (finishRecorded worker wanted world index build, [])
  -- these come to all builds of the worker
  | _, .disconnected | _, .connected | _, .detached => (world, [])
  | _, event => (world.withBuild index { build with startup := (build.startup.step event).1 }, [])

def step : WorkerLocksEvent κ ρ → WorkerLocks κ ρ × List Failure
  | .started =>
      ({ world with builds := world.builds ++ [⟨.new world.latent world.connected, false, false⟩] }, [])
  | .build index event =>
      match world.builds[index]? with
      | none => (world, [])
      | some build => buildStep worker wanted world index build event
  | .stepsDone index results =>
      match world.builds[index]? with
      | none => (world, [])
      | some build =>
          if build.startup.stage = .running then
            (world.withBuild index { build with startup := build.startup.buildFinished results }, [])
          else (world, [])
  | .detached =>
      if world.connected then
        ({ world with
          connected := false
          losing := world.losing + 1
          locks := releaseLocks worker wanted world.locks
          builds := world.builds.map fun build =>
            { build with startup := build.startup.interfere .disconnected, undisturbed := false } }, [])
      else (world, [])
  | .workerLost =>
      if world.losing = 0 then (world, [])
      else ({ world with
        losing := world.losing - 1
        builds := world.builds.map fun build => { build with startup := build.startup.interfere .detached } }, [])
  | .attached =>
      if world.connected then (world, [])
      else ({ world with
        connected := true
        builds := world.builds.map fun build => { build with startup := build.startup.interfere .connected } }, [])
  | .other lock use =>
      if Foreign worker use then
        ({ world with locks := Function.update world.locks lock ((world.locks lock).perform use) }, [])
      else (world, [])

/-- The claims of the worker on one of its locks. -/
def claims (locks : κ → BaseLock ρ) (entry : κ × LockAccess) : Nat := (locks entry.1).owners.count (worker, entry.2)

/-- The builds that have acquired the locks and have not finished. -/
def held : Nat := world.builds.countP fun build => build.acquired

/-- Those among them on whose connection it was. -/
def kept : Nat := world.builds.countP fun build => build.acquired && build.undisturbed

/-- What the worker claims is one claim at most for each such build, and one at least unless a connection was lost.
Where a list has a lock several times, this is about each time. -/
def PerBuild : Prop := ∀ entry ∈ wanted, entry.2.count ≠ 0 →
  wanted.count entry * world.kept ≤ claims worker world.locks entry ∧
    claims worker world.locks entry ≤ wanted.count entry * world.held

/-- The claims that are made before one fails. -/
def made (locks : κ → BaseLock ρ) : List (κ × LockAccess) → List (κ × LockAccess)
  | [] => []
  | (lock, access) :: rest =>
      match (locks lock).claim worker access with
      | .error _ => []
      | .ok claimed => (lock, access) :: made (Function.update locks lock claimed) rest

/-- Claims that stay when a claim fails are ones that a lost connection has taken from builds. -/
def RaisesHarmlessly : Prop := locksAvailable worker wanted world.locks →
  (claimAll worker world.locks wanted).2 ≠ none → ∀ entry ∈ wanted, entry.2.count ≠ 0 →
    claims worker world.locks entry + (made worker world.locks wanted).count entry ≤ wanted.count entry * world.held

/-- A build whose worker is gone does not leave claims, and one without claims finds some that nobody needs. -/
def FinishesHarmlessly (build : WorkerBuild) : Prop := ∀ entry ∈ wanted, entry.2.count ≠ 0 →
  if build.startup.worker = .gone then
    build.acquired → claims worker world.locks entry + wanted.count entry ≤ wanted.count entry * world.held
  else
    ¬ (build.acquired ∧ build.undisturbed) → world.kept ≠ 0 →
      wanted.count entry * (world.kept + 1) ≤ claims worker world.locks entry

def BuildAccounted (build : WorkerBuild) (event : StartupEvent) : Prop :=
  match build.startup.stage, event with
  | .prepareWorker, .prepareWorker _ => build.startup.worker ≠ .gone → world.RaisesHarmlessly worker wanted
  | .buildFinished, .finishRecorded => world.FinishesHarmlessly worker wanted build
  | _, _ => True

def Accounted : WorkerLocksEvent κ ρ → Prop
  | .build index event => ∀ build, world.builds[index]? = some build → world.BuildAccounted worker wanted build event
  | _ => True

variable {worker wanted} {world}

omit [DecidableEq κ] [DecidableEq ρ] in
theorem countP_set_of_eq {counted : WorkerBuild → Bool} {builds : List WorkerBuild} {index : Nat} {build after : WorkerBuild}
    (here : builds[index]? = some build) : (builds.set index after).countP counted + (if counted build then 1 else 0) =
      builds.countP counted + if counted after then 1 else 0 := by
  obtain ⟨within, rfl⟩ := List.getElem?_eq_some_iff.mp here
  rw [List.countP_set within]
  have among : (if counted builds[index] then 1 else 0) ≤ builds.countP counted := by
    split_ifs with now
    · exact List.countP_pos_iff.mpr ⟨_, List.getElem_mem within, now⟩
    · exact Nat.zero_le _
  omega

/-- A change of one lock that adds to or takes from the owners what one entry of the list stands for. -/
theorem claims_update {locks : κ → BaseLock ρ} {lock : κ} {access : LockAccess} {after : BaseLock ρ} (count : Nat → Nat → Nat)
    (keeps : ∀ number, count number 0 = number) (entry : κ × LockAccess)
    (counted : after.owners.count (worker, entry.2) = count ((locks lock).owners.count (worker, entry.2))
      (if (worker, access) = (worker, entry.2) then 1 else 0)) :
    claims worker (Function.update locks lock after) entry =
      count (claims worker locks entry) (if (lock, access) = entry then 1 else 0) := by
  unfold claims
  by_cases same : entry.1 = lock
  · subst same
    rw [Function.update_self, counted]
    congr 1
    simp [Prod.ext_iff]
  · rw [Function.update_of_ne same, if_neg fun equal => same (congrArg Prod.fst equal).symm, keeps]

theorem count_cons_entry (first entry : κ × LockAccess) (rest : List (κ × LockAccess)) :
    (first :: rest).count entry = rest.count entry + if first = entry then 1 else 0 := by
  rw [List.count_cons]
  simp only [beq_iff_eq]

theorem claims_claimAll (locks : κ → BaseLock ρ) (list : List (κ × LockAccess)) (entry : κ × LockAccess)
    (units : entry.2.count ≠ 0) : claims worker (claimAll worker locks list).1 entry =
      claims worker locks entry + (made worker locks list).count entry := by
  induction list generalizing locks with
  | nil => rfl
  | cons first rest ih =>
    obtain ⟨lock, access⟩ := first
    unfold claimAll made
    cases claimed : (locks lock).claim worker access with
    | error => rfl
    | ok after =>
      have next := claims_update (· + ·) (fun _ => rfl) entry (count_of_claim claimed (worker, entry.2) units)
      dsimp only at next ⊢
      rw [ih, next, count_cons_entry]
      omega

theorem made_of_claimAll {locks : κ → BaseLock ρ} {list : List (κ × LockAccess)}
    (all : (claimAll worker locks list).2 = none) : made worker locks list = list := by
  induction list generalizing locks with
  | nil => rfl
  | cons first rest ih =>
    obtain ⟨lock, access⟩ := first
    unfold claimAll at all
    unfold made
    cases claimed : (locks lock).claim worker access with
    | error failure =>
      rw [claimed] at all
      cases all
    | ok after =>
      rw [claimed] at all
      exact congrArg _ (ih all)

theorem claims_releaseLocks (locks : κ → BaseLock ρ) (list : List (κ × LockAccess)) (entry : κ × LockAccess)
    (units : entry.2.count ≠ 0) :
    claims worker (releaseLocks worker list locks) entry = claims worker locks entry - list.count entry := by
  unfold releaseLocks
  induction list generalizing locks with
  | nil => rfl
  | cons first rest ih =>
    obtain ⟨lock, access⟩ := first
    have next := claims_update (· - ·) (fun _ => rfl) entry
      (@count_of_release _ _ worker (locks lock) access (worker, entry.2) units)
    rw [List.foldl_cons, ih, next, count_cons_entry]
    omega

/-! ## What a step does to the counts -/

/-- `startBuild` has not come to the worker's locks, and has not passed them. -/
def early : Stage → Bool
  | .doBuildIf | .checkRequests _ | .skip | .setupLocks | .setupBuild | .prepareWorker => true
  | _ => false

theorem stage_interfere (startup : Startup) (event : StartupEvent) : (startup.interfere event).stage = startup.stage := by
  unfold Startup.interfere
  split
  all_goals first | rfl | (split <;> rfl)

theorem early_preparationFailure (startup : Startup) (afterwards : Afterwards) :
    early (startup.preparationFailure afterwards).stage = false := by
  unfold Startup.preparationFailure
  split <;> rfl

theorem early_afterPreparationFailure (startup : Startup) (afterwards : Afterwards) :
    early (startup.afterPreparationFailure afterwards).stage = false := by
  unfold Startup.afterPreparationFailure
  cases afterwards with
  | finish => rfl
  | finishPreparation =>
    dsimp only
    split_ifs <;> rfl

theorem early_windUp (startup : Startup) : early startup.windUp.stage = false := by
  unfold Startup.windUp
  split <;> rfl

theorem early_of_step {startup : Startup} {event : StartupEvent} (later : early (startup.step event).1.stage) :
    early startup.stage := by
  unfold Startup.step at later
  cases resumed : startup.resume startup.stage event with
  | none =>
    rw [resumed] at later
    dsimp only at later
    rwa [stage_interfere] at later
  | some after =>
    rw [resumed] at later
    dsimp only at later
    unfold Startup.resume at resumed
    split at resumed <;> cases resumed
    -- from a later stage no earlier one is reached
    all_goals rename_i stage
    case h_9 outcome =>
      cases outcome
      · cases later
      all_goals
        dsimp only at later
        rw [early_preparationFailure] at later
        cases later
    case h_15 => rw [early_afterPreparationFailure] at later; cases later
    case h_16 => rw [early_windUp] at later; cases later
    all_goals first
      | (rw [stage]; rfl)
      | (split at later <;> first | cases later | (rw [early_preparationFailure] at later; cases later))
      | cases later

section Counts

variable {index : Nat} {build after : WorkerBuild}

omit [DecidableEq κ] [DecidableEq ρ] in
theorem held_withBuild (here : world.builds[index]? = some build) :
    (world.withBuild index after).held + (if build.acquired then 1 else 0) =
      world.held + if after.acquired then 1 else 0 :=
  countP_set_of_eq here

omit [DecidableEq κ] [DecidableEq ρ] in
theorem kept_withBuild (here : world.builds[index]? = some build) :
    (world.withBuild index after).kept + (if build.acquired && build.undisturbed then 1 else 0) =
      world.kept + if after.acquired && after.undisturbed then 1 else 0 :=
  countP_set_of_eq here

end Counts

/-- A build that acquired the locks has come to them. -/
structure Sound (worker : ρ) (wanted : List (κ × LockAccess)) (world : WorkerLocks κ ρ) : Prop where
  perBuild : world.PerBuild worker wanted
  early : ∀ build ∈ world.builds, early build.startup.stage → build.acquired = false

theorem start_sound (maxCount : κ → Int) (latent connected : Bool) :
    Sound worker wanted (start maxCount latent connected) := by
  refine ⟨fun entry _ _ => ?_, fun build member => absurd member List.not_mem_nil⟩
  have nothing : claims worker (start maxCount latent connected : WorkerLocks κ ρ).locks entry = 0 := rfl
  have nobody : (start maxCount latent connected : WorkerLocks κ ρ).kept = 0 := rfl
  rw [nothing, nobody, Nat.mul_zero]
  exact ⟨Nat.zero_le _, Nat.zero_le _⟩

/-- Where nothing is claimed or released, and each build has as much as before. -/
theorem PerBuild.of_eq (perBuild : world.PerBuild worker wanted) {next : WorkerLocks κ ρ}
    (claimed : ∀ entry, claims worker next.locks entry = claims worker world.locks entry)
    (kept : next.kept = world.kept) (held : next.held = world.held) : next.PerBuild worker wanted := by
  intro entry member units
  rw [claimed, kept, held]
  exact perBuild entry member units

theorem Sound.withBuild (sound : Sound worker wanted world) {index : Nat} {build : WorkerBuild}
    (here : world.builds[index]? = some build) {startup : Startup}
    (late : WorkerLocks.early startup.stage → WorkerLocks.early build.startup.stage) :
    Sound worker wanted (world.withBuild index { build with startup := startup }) := by
  have held := @held_withBuild _ _ world index build { build with startup := startup } here
  have kept := @kept_withBuild _ _ world index build { build with startup := startup } here
  dsimp only at held kept
  refine ⟨sound.perBuild.of_eq (fun _ => rfl) (by omega) (by omega), ?_⟩
  intro other among
  rcases List.mem_or_eq_of_mem_set among with old | rfl
  · exact sound.early other old
  · intro stage
    exact sound.early build (List.mem_of_getElem? here) (late stage)

/-- Once no build runs on the worker it claims nothing. -/
theorem PerBuild.nothing_left (perBuild : world.PerBuild worker wanted) (nobody : world.held = 0)
    {entry : κ × LockAccess} (member : entry ∈ wanted) (units : entry.2.count ≠ 0) :
    claims worker world.locks entry = 0 := by
  have most := (perBuild entry member units).2
  rw [nobody, Nat.mul_zero] at most
  exact Nat.le_zero.mp most

/-- What a step meets is what keeps the counts right. -/
structure Answers (worker : ρ) (wanted : List (κ × LockAccess)) (accounted : Prop) (next : WorkerLocks κ ρ) : Prop where
  kept : accounted → Sound worker wanted next
  lost : ¬ accounted → ¬ next.PerBuild worker wanted

theorem Sound.answers {next : WorkerLocks κ ρ} (sound : Sound worker wanted next) {accounted : Prop} (holds : accounted) :
    Answers worker wanted accounted next :=
  ⟨fun _ => sound, fun fails => absurd holds fails⟩

theorem early_prepareWorker {startup : Startup} (stage : startup.stage = .prepareWorker) (locksAcquired : Bool) :
    early (startup.step (.prepareWorker locksAcquired)).1.stage = false := by
  unfold Startup.step
  rw [stage]
  dsimp only [Startup.resume]
  split_ifs
  · rfl
  · rfl
  · exact early_preparationFailure startup _

/-- The claims of a build are made, or those that are made before one fails stay. -/
theorem Sound.prepareWorker (sound : Sound worker wanted world) {index : Nat} {build : WorkerBuild}
    (here : world.builds[index]? = some build) (stage : build.startup.stage = .prepareWorker) :
    Answers worker wanted (build.startup.worker ≠ .gone → world.RaisesHarmlessly worker wanted)
      (prepareWorker worker wanted world index build).1 := by
  have unclaimed : build.acquired = false := sound.early build (List.mem_of_getElem? here) (by rw [stage]; rfl)
  unfold WorkerLocks.prepareWorker
  split
  · rename_i gone
    exact (sound.withBuild here early_of_step).answers fun attached => absurd gone attached
  rename_i attached
  have heldIn (locks : κ → BaseLock ρ) (after : WorkerBuild) :=
    @held_withBuild _ _ { world with locks := locks } index build after here
  have keptIn (locks : κ → BaseLock ρ) (after : WorkerBuild) :=
    @kept_withBuild _ _ { world with locks := locks } index build after here
  have early (after : WorkerBuild) (late : WorkerLocks.early after.startup.stage = false) :
      ∀ other ∈ world.builds.set index after, WorkerLocks.early other.startup.stage → other.acquired = false := by
    intro other among
    rcases List.mem_or_eq_of_mem_set among with old | rfl
    · exact sound.early other old
    · intro stage
      cases late.symm.trans stage
  unfold WorkerLocks.acquireLocks
  by_cases available : locksAvailable worker wanted world.locks
  · rw [if_pos available]
    cases outcome : claimAll worker world.locks wanted with
    | mk locks failure =>
      have counted := @claims_claimAll κ ρ _ _ worker world.locks wanted
      rw [outcome] at counted
      cases failure with
      | none =>
        have whole : made worker world.locks wanted = wanted := made_of_claimAll (by rw [outcome])
        have held := heldIn locks ⟨(build.startup.step (.prepareWorker true)).1, true, true⟩
        have kept := keptIn locks ⟨(build.startup.step (.prepareWorker true)).1, true, true⟩
        simp only [unclaimed, Bool.false_and, Bool.and_self, if_true, Bool.false_eq_true, if_false, Nat.add_zero] at held kept
        apply Sound.answers
        · refine ⟨fun entry member units => ?_, early _ ?_⟩
          · obtain ⟨least, most⟩ := sound.perBuild entry member units
            dsimp only
            rw [held, kept, Nat.mul_add, Nat.mul_add, Nat.mul_one]
            change _ ≤ claims worker locks entry ∧ claims worker locks entry ≤ _
            rw [counted entry units, whole]
            exact ⟨Nat.add_le_add_right least _, Nat.add_le_add_right most _⟩
          · exact early_prepareWorker stage true
        · intro _ _ raises
          rw [outcome] at raises
          exact absurd rfl raises
      | some failure =>
        have held := heldIn locks { build with startup := (build.startup.step (.prepareWorker false)).1 }
        have kept := keptIn locks { build with startup := (build.startup.step (.prepareWorker false)).1 }
        simp only [Nat.add_left_inj] at held kept
        have fits (entry : κ × LockAccess) (member : entry ∈ wanted) (units : entry.2.count ≠ 0) :
            wanted.count entry * world.kept ≤ claims worker locks entry := by
          rw [counted entry units]
          exact Nat.le_add_right_of_le (sound.perBuild entry member units).1
        refine ⟨fun harmless => ⟨fun entry member units => ?_, early _ ?_⟩, fun harmful perBuild => harmful ?_⟩
        · dsimp only
          rw [held, kept]
          refine ⟨fits entry member units, ?_⟩
          change claims worker locks entry ≤ _
          rw [counted entry units]
          exact harmless attached available (by rw [outcome]; nofun) entry member units
        · exact early_prepareWorker stage false
        · intro _ _ _ entry member units
          have most := (perBuild entry member units).2
          dsimp only at most
          rw [held] at most
          rw [← counted entry units]
          exact most
  · rw [if_neg available]
    have held := heldIn world.locks ⟨(build.startup.step (.prepareWorker false)).1, false, false⟩
    have kept := keptIn world.locks ⟨(build.startup.step (.prepareWorker false)).1, false, false⟩
    simp only [unclaimed, Bool.false_and, Bool.false_eq_true, if_false, Nat.add_zero] at held kept
    apply Sound.answers
    · exact ⟨sound.perBuild.of_eq (fun _ => rfl) kept held, early _ (early_prepareWorker stage false)⟩
    · exact fun _ able => absurd able available

/-- One build fewer: the claims on a lock of which the list has some number stay as they are, or become that number less. -/
theorem finishing_counts {number claimed kept held fewer left : Nat} {acquired undisturbed : Bool}
    (least : number * kept ≤ claimed) (most : claimed ≤ number * held) (listed : 0 < number)
    (lessHeld : left + (if acquired then 1 else 0) = held)
    (lessKept : fewer + (if acquired && undisturbed then 1 else 0) = kept) :
    ((acquired → claimed + number ≤ number * held) ↔ number * fewer ≤ claimed ∧ claimed ≤ number * left) ∧
      ((¬ (acquired ∧ undisturbed) → kept ≠ 0 → number * (kept + 1) ≤ claimed) ↔
        number * fewer ≤ claimed - number ∧ claimed - number ≤ number * left) := by
  subst lessHeld lessKept
  have more (count : Nat) : number * (count + 1) = number * count + number := Nat.mul_succ number count
  have some : 0 < fewer → 0 < number * fewer := Nat.mul_pos listed
  have none : fewer = 0 → number * fewer = 0 := by
    rintro rfl
    exact Nat.mul_zero number
  cases acquired
  · simp only [more, Bool.false_and, Bool.false_eq_true, if_false, Nat.add_zero, false_and, not_false_eq_true,
      forall_const, false_imp_iff, true_iff] at *
    omega
  · cases undisturbed
    · simp only [more, Bool.and_false, Bool.false_eq_true, if_true, if_false, Nat.add_zero, and_false,
        not_false_eq_true, forall_const] at *
      omega
    · simp only [more, Bool.and_self, if_true, and_self, not_true, forall_const, false_imp_iff, true_iff] at *
      omega

/-- The build finishes, and the locks are released for it or stay. -/
theorem Sound.finishRecorded (sound : Sound worker wanted world) {index : Nat} {build : WorkerBuild}
    (here : world.builds[index]? = some build) :
    Answers worker wanted (world.FinishesHarmlessly worker wanted build)
      (finishRecorded worker wanted world index build) := by
  have held := @held_withBuild _ _ world index build { build with startup := build.startup.windUp, acquired := false } here
  have kept := @kept_withBuild _ _ world index build { build with startup := build.startup.windUp, acquired := false } here
  simp only [Bool.false_and, Bool.false_eq_true, if_false, Nat.add_zero] at held kept
  have early : ∀ other ∈ world.builds.set index { build with startup := build.startup.windUp, acquired := false },
      WorkerLocks.early other.startup.stage → other.acquired = false := by
    intro other among
    rcases List.mem_or_eq_of_mem_set among with old | rfl
    · exact sound.early other old
    · intro _
      rfl
  -- What is left of an entry's claims is right if and only if the condition holds for it.
  have exactly (entry : κ × LockAccess) (member : entry ∈ wanted) (units : entry.2.count ≠ 0) :
      (if build.startup.worker = .gone then
        build.acquired → claims worker world.locks entry + wanted.count entry ≤ wanted.count entry * world.held
      else ¬ (build.acquired ∧ build.undisturbed) → world.kept ≠ 0 →
        wanted.count entry * (world.kept + 1) ≤ claims worker world.locks entry) ↔
      wanted.count entry * (WorkerLocks.finishRecorded worker wanted world index build).kept ≤
          claims worker (WorkerLocks.finishRecorded worker wanted world index build).locks entry ∧
        claims worker (WorkerLocks.finishRecorded worker wanted world index build).locks entry ≤
          wanted.count entry * (WorkerLocks.finishRecorded worker wanted world index build).held := by
    obtain ⟨least, most⟩ := sound.perBuild entry member units
    obtain ⟨stays, goes⟩ := finishing_counts least most (List.count_pos_iff.mpr member) held kept
    change _ ↔ _ * (world.withBuild index { build with startup := build.startup.windUp, acquired := false }).kept ≤ _ ∧
      _ ≤ _ * (world.withBuild index { build with startup := build.startup.windUp, acquired := false }).held
    unfold WorkerLocks.finishRecorded
    by_cases gone : build.startup.worker = .gone
    · rw [if_pos gone, if_pos gone]
      exact stays
    · rw [if_neg gone, if_neg gone, claims_releaseLocks _ _ _ units]
      exact goes
  refine ⟨fun harmless => ⟨fun entry member units => (exactly entry member units).mp (harmless entry member units), early⟩,
    fun harmful perBuild => harmful fun entry member units => (exactly entry member units).mpr (perBuild entry member units)⟩

/-- Anything else that happens to a build has nothing to do with the locks. -/
theorem Sound.buildStep (sound : Sound worker wanted world) {index : Nat} {build : WorkerBuild}
    (here : world.builds[index]? = some build) (event : StartupEvent) :
    Answers worker wanted (world.BuildAccounted worker wanted build event)
      (buildStep worker wanted world index build event).1 := by
  unfold WorkerLocks.buildStep
  split
  · rename_i stage
    unfold BuildAccounted
    rw [stage]
    exact sound.prepareWorker here stage
  · rename_i stage
    unfold BuildAccounted
    rw [stage]
    exact sound.finishRecorded here
  · exact sound.answers (by unfold BuildAccounted; split <;> first | contradiction | trivial)
  · exact sound.answers (by unfold BuildAccounted; split <;> first | contradiction | trivial)
  · exact sound.answers (by unfold BuildAccounted; split <;> first | contradiction | trivial)
  · apply (sound.withBuild here early_of_step).answers
    unfold BuildAccounted
    split
    · rename_i stage _ _ _ prepare _
      exact (prepare _ stage rfl).elim
    · rename_i stage _ _ _ _ finish
      exact (finish stage rfl).elim
    · trivial

/-- Nothing changes for a build when something comes to all of them. -/
theorem Sound.mapBuilds (sound : Sound worker wanted world) {event : StartupEvent} {next : WorkerLocks κ ρ}
    (builds : next.builds = world.builds.map fun build => { build with startup := build.startup.interfere event })
    (locks : next.locks = world.locks) : Sound worker wanted next := by
  have same (counted : WorkerBuild → Bool) (kind : ∀ build startup, counted { build with startup := startup } = counted build) :
      next.builds.countP counted = world.builds.countP counted := by
    rw [builds, List.countP_map]
    apply List.countP_congr
    intro build _
    rw [Function.comp_apply, kind]
  refine ⟨sound.perBuild.of_eq (fun _ => by rw [locks]) (same _ fun _ _ => rfl) (same _ fun _ _ => rfl), ?_⟩
  rw [builds]
  intro other among
  obtain ⟨build, member, rfl⟩ := List.mem_map.mp among
  intro stage
  exact sound.early build member (stage_interfere build.startup event ▸ stage)

/-- A lost connection takes a claim on each lock from the builds. -/
theorem Sound.detached (sound : Sound worker wanted world) {next : WorkerLocks κ ρ}
    (builds : next.builds = world.builds.map fun build =>
      { build with startup := build.startup.interfere .disconnected, undisturbed := false })
    (locks : next.locks = releaseLocks worker wanted world.locks) : Sound worker wanted next := by
  have held : next.held = world.held := by
    unfold WorkerLocks.held
    rw [builds, List.countP_map]
    rfl
  have kept : next.kept = 0 := by
    unfold WorkerLocks.kept
    rw [builds, List.countP_map, List.countP_eq_zero]
    intro build _
    simp
  refine ⟨fun entry member units => ?_, ?_⟩
  · rw [held, kept, locks, claims_releaseLocks _ _ _ units, Nat.mul_zero]
    exact ⟨Nat.zero_le _, (Nat.sub_le _ _).trans (sound.perBuild entry member units).2⟩
  · rw [builds]
    intro other among
    obtain ⟨build, member, rfl⟩ := List.mem_map.mp among
    intro stage
    exact sound.early build member (stage_interfere build.startup .disconnected ▸ stage)

theorem Sound.step (sound : Sound worker wanted world) (event : WorkerLocksEvent κ ρ) :
    Answers worker wanted (world.Accounted worker wanted event) (step worker wanted world event).1 := by
  cases event with
  | started =>
    apply Sound.answers _ trivial
    refine ⟨sound.perBuild.of_eq (fun _ => rfl) ?_ ?_, ?_⟩
    · exact List.countP_append.trans (Nat.add_zero _)
    · exact List.countP_append.trans (Nat.add_zero _)
    · intro build among
      rcases List.mem_append.mp among with old | new
      · exact sound.early build old
      · rw [List.mem_singleton.mp new]
        intro _
        rfl
  | build index event =>
    unfold WorkerLocks.step Accounted
    dsimp only
    cases here : world.builds[index]? with
    | none => exact sound.answers fun build found => absurd found (Option.some_ne_none build).symm
    | some build =>
      have answers := sound.buildStep here event
      dsimp only
      refine ⟨fun accounted => answers.kept (accounted build rfl), fun fails => answers.lost fun accounted => fails ?_⟩
      rintro _ ⟨⟩
      exact accounted
  | stepsDone index results =>
    apply Sound.answers _ trivial
    unfold WorkerLocks.step
    dsimp only
    cases here : world.builds[index]? with
    | none => exact sound
    | some build =>
      dsimp only
      split
      · exact sound.withBuild here nofun
      · exact sound
  | detached =>
    apply Sound.answers _ trivial
    unfold WorkerLocks.step
    dsimp only
    split
    · exact sound.detached rfl rfl
    · exact sound
  | workerLost =>
    apply Sound.answers _ trivial
    unfold WorkerLocks.step
    dsimp only
    split
    · exact sound
    · exact sound.mapBuilds rfl rfl
  | attached =>
    apply Sound.answers _ trivial
    unfold WorkerLocks.step
    dsimp only
    split
    · exact sound
    · exact sound.mapBuilds rfl rfl
  | other lock use =>
    apply Sound.answers _ trivial
    unfold WorkerLocks.step
    dsimp only
    split
    · rename_i foreign
      refine ⟨sound.perBuild.of_eq (fun entry => ?_) rfl rfl, sound.early⟩
      unfold claims
      dsimp only
      by_cases same : entry.1 = lock
      · subst same
        rw [Function.update_self, count_of_foreign foreign]
      · rw [Function.update_of_ne same]
    · exact sound

/-- In every state of every run the worker's claims are those of its builds, if and only if every step is accounted for. -/
theorem claims_perBuild_iff (worker : ρ) (wanted : List (κ × LockAccess)) (maxCount : κ → Int) (latent connected : Bool)
    (events : List (WorkerLocksEvent κ ρ)) :
    (∀ past, past <+: events →
      (final (step worker wanted) (start maxCount latent connected) past).PerBuild worker wanted) ↔
      Always (step worker wanted) (fun world event => world.Accounted worker wanted event) (start maxCount latent connected)
        events := by
  apply @always_iff _ _ _ _ _ (Sound worker wanted)
  · exact fun world event sound accounted => (sound.step event).kept accounted
  · exact fun world event sound fails => (sound.step event).lost fails
  · exact fun world sound => sound.perBuild
  · exact start_sound maxCount latent connected

/-- The second build's `setupBuild` raises, and its end releases what the first build has claimed. -/
theorem preparation_releases_other :
    ¬ (final (step () [((), ⟨.masterLock "lock" 2, .counting, 1⟩)]) (start (fun _ => 2) false true)
        [.started, .started,
          .build 0 (.doBuildIf (some true)), .build 0 (.checkRequests false), .build 0 (.setupLocks true),
          .build 0 (.setupBuild true), .build 0 (.prepareWorker true),
          .build 1 (.doBuildIf (some true)), .build 1 (.checkRequests false), .build 1 (.setupLocks true),
          .build 1 (.setupBuild false), .build 1 .failureReported, .build 1 .finishRecorded]).PerBuild
      () [((), ⟨.masterLock "lock" 2, .counting, 1⟩)] := by
  intro perBuild
  have least := (perBuild ((), ⟨.masterLock "lock" 2, .counting, 1⟩) List.mem_cons_self (by decide)).1
  revert least
  decide

end WorkerLocks

end Umbilical.Worker
