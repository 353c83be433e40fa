import Umbilical.Schedulers.Accounting
import Umbilical.Shared.Interleaving

set_option autoImplicit false

/-!
# Timed schedulers

`startBuild` runs under `actuationLock`, so one at a time; changes are classified between
any two of its steps, in any order of their numbers.
-/

namespace Umbilical.Schedulers

open Interleaving

/-- Where `startBuild` is. -/
inductive Actuation where
  | idle
  | gettingChangeClassifications
  | gettingState (classifications : Classifications)
  | settingState (classifications : Classifications)
  | adding (classifications : Classifications)
  | flushing (classifications : Classifications)
  deriving DecidableEq

structure Timed where
  /-- `none` for `NoBranch`. -/
  branch : Option (Option String)
  onlyIfChanged : Bool
  enabled : Bool
  isFirstBuild : Bool
  /-- The stored state `last_only_if_changed`, if there is one. -/
  lastOnlyIfChanged : Option Bool
  schedulerChanges : Classifications
  /-- The changes that have been classified. -/
  changes : List Nat
  /-- The numbers of the changes of each buildset. -/
  buildsets : List (List Nat)
  actuation : Actuation
  deriving DecidableEq

inductive TimedEvent where
  | gotChange (number : Nat) (branch : Option String) (important : Bool)
  | setEnabled (enabled : Bool)
  | startBuild
  /-- `startBuild` takes its next step; `forces` is what `maybe_force_build_on_unimportant_changes` returns in it. -/
  | proceed (forces : Bool)
  deriving DecidableEq

/-- A `startBuild` that was not ignored has come to its end. -/
structure Finished where
  classifications : Classifications
  /-- The changes of the buildset that was added. -/
  added : Option (List Nat)
  /-- `last_only_if_changed`, as `startBuild` reads it. -/
  lastOnlyIfChanged : Bool
  deriving DecidableEq

namespace Finished

/-- An actuation that found an important change has added it in a buildset, and the flag is as it is to be. -/
def Right (finished : Finished) : Prop :=
  (∀ row ∈ finished.classifications, row.2 → ∃ changeids, finished.added = some changeids ∧ row.1 ∈ changeids) ∧
    finished.lastOnlyIfChanged = true

theorem right_of_all {classifications : Classifications} {lastOnlyIfChanged : Bool}
    (on : lastOnlyIfChanged = true) :
    (⟨classifications, some classifications.changeids, lastOnlyIfChanged⟩ : Finished).Right := by
  refine ⟨fun row member _ => ⟨classifications.changeids, rfl, ?_⟩, on⟩
  exact Classifications.mem_changeids.mpr (List.mem_map_of_mem member)

end Finished

namespace Timed

variable (timed : Timed)

def getLastOnlyIfChanged : Bool := timed.lastOnlyIfChanged.getD true

def gotChange (number : Nat) (branch : Option String) (important : Bool) : Timed :=
  -- A change is passed on once.
  if number ∈ timed.changes then timed
  else if timed.branch.any (· ≠ branch) then timed
  else
    { timed with
      schedulerChanges := timed.schedulerChanges.classifyChanges number important
      changes := timed.changes ++ [number] }

def finish (classifications : Classifications) (added : Option (List Nat)) : Timed × List Finished :=
  ({ timed with actuation := .idle, isFirstBuild := false }, [⟨classifications, added, timed.getLastOnlyIfChanged⟩])

/-- There is no important change, and no other reason to build. -/
def skips (classifications : Classifications) (forces : Bool) : Bool :=
  timed.getLastOnlyIfChanged && timed.onlyIfChanged && !classifications.any (·.2) && !timed.isFirstBuild && !forces

def proceed (forces : Bool) : Timed × List Finished :=
  match timed.actuation with
  | .idle => (timed, [])
  | .gettingChangeClassifications => ({ timed with actuation := .gettingState timed.schedulerChanges }, [])
  | .gettingState classifications =>
    if timed.skips classifications forces then timed.finish classifications none
    else if timed.getLastOnlyIfChanged ≠ timed.onlyIfChanged then
      ({ timed with actuation := .settingState classifications }, [])
    else ({ timed with actuation := .adding classifications }, [])
  | .settingState classifications =>
    ({ timed with lastOnlyIfChanged := some timed.onlyIfChanged, actuation := .adding classifications }, [])
  | .adding classifications =>
    if classifications.changeids = [] then
      { timed with buildsets := timed.buildsets ++ [[]] }.finish classifications (some [])
    else
      ({ timed with
        buildsets := timed.buildsets ++ [classifications.changeids]
        actuation := .flushing classifications }, [])
  | .flushing classifications =>
    { timed with
      schedulerChanges :=
        timed.schedulerChanges.flushChangeClassifications (some (classifications.maxChangeid + 1)) }.finish
      classifications timed.buildsets.getLast?

def step (event : TimedEvent) : Timed × List Finished :=
  match event with
  | .gotChange number branch important => (timed.gotChange number branch important, [])
  | .setEnabled enabled => ({ timed with enabled }, [])
  | .startBuild =>
    (if timed.actuation = .idle ∧ timed.enabled then { timed with actuation := .gettingChangeClassifications }
    else timed, [])
  | .proceed forces => timed.proceed forces

/-- A scheduler that comes up with `onlyIfChanged` on and what is stored. -/
def start (branch : Option (Option String)) (enabled isFirstBuild : Bool) (lastOnlyIfChanged : Option Bool)
    (stored : Classifications) : Timed where
  branch := branch
  onlyIfChanged := true
  enabled := enabled
  isFirstBuild := isFirstBuild
  lastOnlyIfChanged := lastOnlyIfChanged
  schedulerChanges := stored
  changes := stored.numbers
  buildsets := []
  actuation := .idle

/-- Every classified change is still classified or in one buildset; between two actuations, not both. -/
structure Accounts : Prop where
  once : ∀ number ∈ timed.changes, built timed.buildsets number ≤ 1
  kept : ∀ number ∈ timed.changes, built timed.buildsets number = 0 → number ∈ timed.schedulerChanges.numbers
  cleared : timed.actuation = .idle → ∀ number ∈ timed.changes, built timed.buildsets number = 1 →
    number ∉ timed.schedulerChanges.numbers

/-- When an actuation flushes, every change that is classified by then, up to the highest one that the actuation has
read, is one that it has read. -/
def Orderly : TimedEvent → Prop
  | .proceed _ =>
    match timed.actuation with
    | .flushing classifications => timed.schedulerChanges.Covers classifications
    | _ => True
  | _ => True

def Progress (actuation : Actuation) : Prop :=
  match actuation with
  | .idle | .gettingChangeClassifications => timed.schedulerChanges.Clean timed.buildsets
  | .gettingState classifications | .settingState classifications | .adding classifications =>
    timed.schedulerChanges.Clean timed.buildsets ∧ timed.schedulerChanges.Read classifications
  | .flushing classifications =>
    timed.schedulerChanges.Added timed.buildsets classifications ∧ timed.schedulerChanges.Read classifications

structure Sound : Prop where
  accounted : timed.schedulerChanges.Accounted timed.buildsets timed.changes
  progress : timed.Progress timed.actuation

variable {timed : Timed}

theorem Progress.once {actuation : Actuation} (progress : timed.Progress actuation) {number : Nat}
    (listed : number ∈ timed.schedulerChanges.numbers) : built timed.buildsets number ≤ 1 := by
  cases actuation with
  | idle => exact Classifications.Clean.le_one progress listed
  | gettingChangeClassifications => exact Classifications.Clean.le_one progress listed
  | gettingState classifications => exact progress.1.le_one listed
  | settingState classifications => exact progress.1.le_one listed
  | adding classifications => exact progress.1.le_one listed
  | flushing classifications => exact progress.1.le_one listed

theorem Sound.accounts (sound : timed.Sound) : timed.Accounts := by
  refine ⟨fun number change => ?_, fun number change none => ?_, fun idle number change one listed => ?_⟩
  · by_cases listed : number ∈ timed.schedulerChanges.numbers
    · exact sound.progress.once listed
    · exact (sound.accounted.flushed number change listed).le
  · by_contra unlisted
    have one := sound.accounted.flushed number change unlisted
    omega
  · have progress := sound.progress
    rw [idle] at progress
    have none := progress number listed
    omega

theorem start_sound (branch : Option (Option String)) (enabled isFirstBuild : Bool) (lastOnlyIfChanged : Option Bool)
    {stored : Classifications} (distinct : stored.numbers.Nodup) :
    (start branch enabled isFirstBuild lastOnlyIfChanged stored).Sound :=
  ⟨.initial distinct, Classifications.Clean.initial⟩

theorem Sound.gotChange (sound : timed.Sound) (number : Nat) (branch : Option String) (important : Bool) :
    (timed.gotChange number branch important).Sound := by
  unfold Timed.gotChange
  split
  · exact sound
  split
  · exact sound
  rename_i fresh _
  have unbuilt := sound.accounted.foreign number fresh
  refine ⟨sound.accounted.classify important unbuilt, ?_⟩
  have progress := sound.progress
  show Progress _ timed.actuation
  cases phase : timed.actuation with
  | idle =>
    rw [phase] at progress
    exact Classifications.Clean.classify progress important unbuilt
  | gettingChangeClassifications =>
    rw [phase] at progress
    exact Classifications.Clean.classify progress important unbuilt
  | gettingState classifications =>
    rw [phase] at progress
    exact ⟨progress.1.classify important unbuilt, progress.2.classify number important⟩
  | settingState classifications =>
    rw [phase] at progress
    exact ⟨progress.1.classify important unbuilt, progress.2.classify number important⟩
  | adding classifications =>
    rw [phase] at progress
    exact ⟨progress.1.classify important unbuilt, progress.2.classify number important⟩
  | flushing classifications =>
    rw [phase] at progress
    refine ⟨fun other member => ?_, progress.2.classify number important⟩
    rcases Classifications.mem_numbers_classify.mp member with earlier | rfl
    · exact progress.1 other earlier
    · have unread : other ∉ classifications.numbers :=
        fun member => fresh (sound.accounted.known other (progress.2.2 other member))
      rw [if_neg unread]
      exact unbuilt

theorem Sound.proceed (sound : timed.Sound) {forces : Bool} (orderly : timed.Orderly (.proceed forces)) :
    (timed.proceed forces).1.Sound := by
  have accounted := sound.accounted
  have progress := sound.progress
  unfold Timed.proceed
  unfold Orderly at orderly
  cases phase : timed.actuation with
  | idle => exact sound
  | gettingChangeClassifications =>
    rw [phase] at progress
    exact ⟨accounted, progress, accounted.distinct, fun _ member => member⟩
  | gettingState classifications =>
    rw [phase] at progress
    show Sound (Prod.fst (ite _ _ _))
    split
    · exact ⟨accounted, progress.1⟩
    split
    · exact ⟨accounted, progress⟩
    · exact ⟨accounted, progress⟩
  | settingState classifications =>
    rw [phase] at progress
    exact ⟨accounted, progress⟩
  | adding classifications =>
    rw [phase] at progress
    show Sound (Prod.fst (ite _ _ _))
    split
    · have still : timed.schedulerChanges.Read [] := ⟨List.nodup_nil, nofun⟩
      refine ⟨accounted.add still, fun number member => ?_⟩
      exact (still.added progress.1 number member).trans (if_neg List.not_mem_nil)
    · exact ⟨accounted.add progress.2, progress.2.added progress.1, progress.2⟩
  | flushing classifications =>
    rw [phase] at orderly progress
    exact ⟨accounted.flush progress.1 orderly, progress.1.flush⟩

theorem Sound.step (sound : timed.Sound) (event : TimedEvent) (orderly : timed.Orderly event) :
    (timed.step event).1.Sound := by
  cases event with
  | gotChange number branch important => exact sound.gotChange number branch important
  | setEnabled enabled => exact ⟨sound.accounted, sound.progress⟩
  | startBuild =>
    simp only [Timed.step]
    split
    · rename_i starts
      have progress := sound.progress
      rw [starts.1] at progress
      exact ⟨sound.accounted, progress⟩
    · exact sound
  | proceed forces => exact sound.proceed orderly

/-- Flushing a change that was not read loses it. -/
theorem Sound.lost (sound : timed.Sound) (event : TimedEvent) (disorderly : ¬ timed.Orderly event) :
    ¬ (timed.step event).1.Accounts := by
  intro accounts
  unfold Orderly at disorderly
  cases event with
  | gotChange number branch important => exact disorderly trivial
  | setEnabled enabled => exact disorderly trivial
  | startBuild => exact disorderly trivial
  | proceed forces =>
    cases phase : timed.actuation with
    | flushing classifications =>
      simp only [phase, Classifications.Covers, not_forall] at disorderly
      obtain ⟨number, listed, low, unread⟩ := disorderly
      have progress := sound.progress
      rw [phase] at progress
      have unbuilt : built timed.buildsets number = 0 := (progress.1 number listed).trans (if_neg unread)
      have kept := accounts.kept number
      simp only [Timed.step, Timed.proceed, phase] at kept
      have high := (Classifications.mem_numbers_flush.mp
        (kept (sound.accounted.known number listed) unbuilt)).2
      omega
    | _ =>
      rw [phase] at disorderly
      exact disorderly trivial

variable (timed) in
/-- What `startBuild` has decided on is stored. -/
def Decided (actuation : Actuation) : Prop :=
  timed.onlyIfChanged = true ∧
    match actuation with
    | .adding _ => timed.getLastOnlyIfChanged = true
    | .flushing classifications =>
      timed.getLastOnlyIfChanged = true ∧ timed.buildsets.getLast? = some classifications.changeids
    | _ => True

theorem decided_proceed (decided : timed.Decided timed.actuation) (forces : Bool) :
    (timed.proceed forces).1.Decided (timed.proceed forces).1.actuation ∧
      ∀ observed ∈ (timed.proceed forces).2, observed.Right := by
  obtain ⟨on, stored⟩ := decided
  unfold Timed.proceed
  cases phase : timed.actuation with
  | idle =>
    dsimp only
    rw [phase]
    exact ⟨⟨on, trivial⟩, nofun⟩
  | gettingChangeClassifications => exact ⟨⟨on, trivial⟩, nofun⟩
  | gettingState classifications =>
    dsimp only
    split
    · rename_i skipped
      simp only [skips, Bool.and_eq_true, Bool.not_eq_true', List.any_eq_false] at skipped
      refine ⟨⟨on, trivial⟩, fun observed member => ?_⟩
      rw [List.mem_singleton.mp member]
      exact ⟨fun row listed important => absurd important (skipped.1.1.2 row listed), skipped.1.1.1.1⟩
    split
    · exact ⟨⟨on, trivial⟩, nofun⟩
    · rename_i same
      exact ⟨⟨on, (Decidable.not_not.mp same).trans on⟩, nofun⟩
  | settingState classifications => exact ⟨⟨on, on⟩, nofun⟩
  | adding classifications =>
    rw [phase] at stored
    dsimp only
    split
    · rename_i empty
      refine ⟨⟨on, trivial⟩, fun observed member => ?_⟩
      rw [List.mem_singleton.mp member, ← empty]
      exact Finished.right_of_all stored
    · exact ⟨⟨on, stored, List.getLast?_concat⟩, nofun⟩
  | flushing classifications =>
    rw [phase] at stored
    refine ⟨⟨on, trivial⟩, fun observed member => ?_⟩
    rw [List.mem_singleton.mp member, stored.2]
    exact Finished.right_of_all stored.1

theorem decided_step (decided : timed.Decided timed.actuation) (event : TimedEvent) :
    (timed.step event).1.Decided (timed.step event).1.actuation ∧
      ∀ observed ∈ (timed.step event).2, observed.Right := by
  cases event with
  | gotChange number branch important =>
    refine ⟨?_, nofun⟩
    unfold Timed.step Timed.gotChange
    dsimp only
    split
    · exact decided
    split
    · exact decided
    · exact decided
  | setEnabled enabled => exact ⟨decided, nofun⟩
  | startBuild =>
    unfold Timed.step
    dsimp only
    split
    · exact ⟨⟨decided.1, trivial⟩, nofun⟩
    · exact ⟨decided, nofun⟩
  | proceed forces => exact decided_proceed decided forces

/-- Every change is accounted for in exactly the runs whose actuations flush what they have read; what an actuation
does about important changes and the flag is right in every run. -/
theorem timed_accounts_iff (branch : Option (Option String)) (enabled isFirstBuild : Bool)
    (lastOnlyIfChanged : Option Bool) (stored : Classifications) (distinct : stored.numbers.Nodup)
    (events : List TimedEvent) :
    ((∀ past, past <+: events →
        (final step (start branch enabled isFirstBuild lastOnlyIfChanged stored) past).Accounts) ↔
      Always step Orderly (start branch enabled isFirstBuild lastOnlyIfChanged stored) events) ∧
      ∀ observed ∈ seen step (start branch enabled isFirstBuild lastOnlyIfChanged stored) events, observed.Right := by
  have initially := start_sound branch enabled isFirstBuild lastOnlyIfChanged distinct
  constructor
  · apply always_iff (fun timed event (sound : timed.Sound) orderly => sound.step event orderly)
    · exact fun timed event sound disorderly => sound.lost event disorderly
    · exact fun timed sound => sound.accounts
    · exact initially
  · have preserved (timed : Timed) (event : TimedEvent) (decided : timed.Decided timed.actuation) (_ : True) :=
      decided_step decided event
    exact (final_of_always preserved ⟨rfl, trivial⟩ (always_true _ events)).2

/-- A second important change comes while the first is being built. -/
def laterChange : List TimedEvent :=
  [.gotChange 5 none true, .startBuild, .proceed false, .proceed false, .gotChange 7 none true, .proceed false,
    .proceed false]

theorem laterChange_accounts :
    (final step (start none true false none []) laterChange).Accounts ∧
      ∀ observed ∈ seen step (start none true false none []) laterChange, observed.Right := by
  have settled := timed_accounts_iff none true false none [] List.nodup_nil laterChange
  refine ⟨settled.1.mpr ?_ laterChange (List.prefix_refl _), settled.2⟩
  refine ⟨trivial, trivial, trivial, trivial, trivial, trivial, ?_, trivial⟩
  show ∀ number ∈ [5, 7], number ≤ 5 → number ∈ [5]
  decide

/-- The second change has the smaller number. -/
def earlierChange : List TimedEvent :=
  [.gotChange 5 none true, .startBuild, .proceed false, .proceed false, .gotChange 3 none true, .proceed false,
    .proceed false]

theorem earlierChange_missed :
    (final step (start none true false none []) earlierChange).buildsets = [[5]] ∧
      ¬ (final step (start none true false none []) earlierChange).Accounts := by
  refine ⟨by decide, fun accounts => ?_⟩
  have kept := accounts.kept 3 (by decide) (by decide)
  revert kept
  decide

end Timed

end Umbilical.Schedulers
