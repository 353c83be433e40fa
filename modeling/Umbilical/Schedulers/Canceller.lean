import Umbilical.Schedulers.Tracker
import Umbilical.Shared.Interleaving

set_option autoImplicit false

/-!
# Cancelling old builds

The handler of a new request and the seeding in `reconfigService` wait for data before they tell
the tracker. What happens to the requests themselves comes first; the messages about it follow.
-/

namespace Umbilical.Schedulers

open Interleaving

/-- The builder and the sourcestamps that are found for a build request. -/
structure RequestData where
  builderName : String
  sourcestamps : List SourceStamp

/-- Where `reconfigService` is. -/
inductive Seeding where
  | idle
  | fetching
  | seeding (todo : List Nat)
  | registering (brid : Nat) (todo : List Nat)
  deriving DecidableEq

structure OldBuildCanceller (β : Type) where
  requests : Nat → RequestData
  now : Rat
  tracker : OldBuildrequestTracker β
  reconfiguring : Bool
  seeding : Seeding
  completedWhileReconfiguring : List Nat
  /-- The suspended calls of `_on_buildrequest_new`. -/
  handlers : List Nat
  created : List Nat
  completed : List Nat
  /-- The requests whose `new` and whose `complete` event has been delivered. -/
  announced : List Nat
  delivered : List Nat
  /-- Every change and when it came. -/
  changeLog : List (SsTuple β × Rat)

inductive CancellerEvent (β : Type) where
  | create (brid : Nat)
  | complete (brid : Nat)
  | newMessage (brid : Nat)
  | completeMessage (brid : Nat)
  | change (change : SourceStamp)
  | wait (seconds : Rat)
  | reconfig (config : CancellerConfig β)
  /-- A suspended handler has its data. -/
  | newHandled (brid : Nat)
  /-- `reconfigService` takes its next step. -/
  | seed

namespace OldBuildCanceller

variable {β : Type}

section

variable [DecidableEq β] (canceller : OldBuildCanceller β)

def register (brid : Nat) : OldBuildCanceller β × List TrackerEffect :=
  let (tracker, effects) := canceller.tracker.onNewBuildrequest canceller.now brid
    (canceller.requests brid).builderName (canceller.requests brid).sourcestamps
  ({ canceller with tracker }, effects)

/-- The loop over the completions that came while reconfiguring; one that raises ends it. -/
def completeAll (tracker : OldBuildrequestTracker β) : List Nat → OldBuildrequestTracker β × List TrackerEffect
  | [] => (tracker, [])
  | brid :: rest =>
    match tracker.onCompleteBuildrequest brid with
    | (tracker, []) => completeAll tracker rest
    | (tracker, effects) => (tracker, effects)

def seed : OldBuildCanceller β × List TrackerEffect :=
  match canceller.seeding with
  | .idle => (canceller, [])
  | .fetching => ({ canceller with seeding := .seeding (canceller.created.filter (· ∉ canceller.completed)) }, [])
  | .seeding [] =>
    let (tracker, effects) := completeAll canceller.tracker canceller.completedWhileReconfiguring
    ({ canceller with tracker, reconfiguring := false, seeding := .idle, completedWhileReconfiguring := [] }, effects)
  | .seeding (brid :: rest) =>
    ({ canceller with
      seeding := if (canceller.tracker.brById brid).isSome then .seeding rest else .registering brid rest }, [])
  | .registering brid rest =>
    let (after, effects) := canceller.register brid
    -- What raises ends `reconfigService`, which still looks as if it were running.
    ({ after with seeding := if .keyError ∈ effects then .idle else .seeding rest }, effects)

def step (event : CancellerEvent β) : OldBuildCanceller β × List TrackerEffect :=
  match event with
  | .create brid =>
    (if brid ∈ canceller.created then canceller else { canceller with created := canceller.created ++ [brid] }, [])
  | .complete brid =>
    (if brid ∈ canceller.created ∧ brid ∉ canceller.completed then
      { canceller with completed := canceller.completed ++ [brid] }
    else canceller, [])
  | .newMessage brid =>
    (if brid ∈ canceller.created ∧ brid ∉ canceller.announced then
      { canceller with announced := canceller.announced ++ [brid], handlers := canceller.handlers ++ [brid] }
    else canceller, [])
  | .completeMessage brid =>
    if brid ∈ canceller.completed ∧ brid ∉ canceller.delivered then
      if canceller.reconfiguring then
        ({ canceller with
          delivered := canceller.delivered ++ [brid]
          completedWhileReconfiguring := canceller.completedWhileReconfiguring ++ [brid] }, [])
      else
        let (tracker, effects) := canceller.tracker.onCompleteBuildrequest brid
        ({ canceller with tracker, delivered := canceller.delivered ++ [brid] }, effects)
    else (canceller, [])
  | .change change =>
    ({ canceller with
      tracker := canceller.tracker.onChange canceller.now change
      changeLog := canceller.changeLog ++ [(canceller.tracker.ssTuple change, canceller.now)] }, [])
  | .wait seconds => ({ canceller with now := canceller.now + seconds }, [])
  | .reconfig config =>
    (if canceller.seeding = .idle then
      { canceller with reconfiguring := true, tracker := canceller.tracker.reconfig config, seeding := .fetching }
    else canceller, [])
  | .newHandled brid =>
    if brid ∈ canceller.handlers then { canceller with handlers := canceller.handlers.erase brid }.register brid
    else (canceller, [])
  | .seed => canceller.seed

end

variable (canceller : OldBuildCanceller β)

/-- A canceller that has been configured and tracks nothing yet. -/
def start (requests : Nat → RequestData) (config : CancellerConfig β) : OldBuildCanceller β where
  requests := requests
  now := 0
  tracker := .start config
  reconfiguring := false
  seeding := .idle
  completedWhileReconfiguring := []
  handlers := []
  created := []
  completed := []
  announced := []
  delivered := []
  changeLog := []

/-- The request that arrives at the tracker with the event. -/
def arriving (event : CancellerEvent β) : Option Nat :=
  match event, canceller.seeding with
  | .newHandled brid, _ => if brid ∈ canceller.handlers then some brid else none
  | .seed, .registering brid _ => some brid
  | _, _ => none

/-- Both indexes agree, and a request whose completion has come is not tracked once nothing is running. -/
structure Exact : Prop where
  inverse : canceller.tracker.Inverse
  forgotten : canceller.reconfiguring = false → ∀ brid ∈ canceller.delivered, canceller.tracker.brById brid = none

/-- The request that is cancelled is tracked and not complete; another one for its builder arrives, after a change on a
tuple of both that is newer than it. -/
def Obsoleted (event : CancellerEvent β) (brid : Nat) : Prop :=
  ∃ tracked, canceller.tracker.brById brid = some tracked ∧ brid ∉ canceller.delivered ∧
    ∃ other, canceller.arriving event = some other ∧ other ≠ brid ∧
      tracked.builderName = (canceller.requests other).builderName ∧
      ∃ sourcestamp ∈ (canceller.requests other).sourcestamps,
        canceller.tracker.ssTuple sourcestamp ∈ tracked.ssTuples ∧
        ∃ time, (canceller.tracker.ssTuple sourcestamp, time) ∈ canceller.changeLog ∧ tracked.startTime < time

/-- A request that arrives to be tracked is not tracked, its completion has not been dealt with, and its tuples are
distinct; what it makes obsolete is not itself, and not complete. -/
def Orderly (event : CancellerEvent β) : Prop :=
  ∀ brid, canceller.arriving event = some brid →
    (canceller.tracker.matchedTuples (canceller.requests brid).builderName (canceller.requests brid).sourcestamps ≠ [] →
      (canceller.tracker.matchedTuples (canceller.requests brid).builderName
        (canceller.requests brid).sourcestamps).Nodup ∧
      canceller.tracker.brById brid = none ∧
      (brid ∈ canceller.delivered → brid ∈ canceller.completedWhileReconfiguring)) ∧
    ∀ other tracked, canceller.tracker.brById other = some tracked →
      canceller.tracker.Obsolete (canceller.requests brid).builderName (canceller.requests brid).sourcestamps tracked →
      other ≠ brid ∧ other ∉ canceller.delivered

structure Sound : Prop where
  inverse : canceller.tracker.Inverse
  distinct : canceller.tracker.Distinct
  logged : ∀ ssTuple time, canceller.tracker.changeTimeBySs ssTuple = some time → (ssTuple, time) ∈ canceller.changeLog
  forgotten : ∀ brid ∈ canceller.delivered, brid ∉ canceller.completedWhileReconfiguring →
    canceller.tracker.brById brid = none
  deferred : canceller.reconfiguring = false → canceller.completedWhileReconfiguring = []

variable {canceller}

theorem Sound.exact (sound : canceller.Sound) : canceller.Exact := by
  refine ⟨sound.inverse, fun idle brid delivered => sound.forgotten brid delivered ?_⟩
  rw [sound.deferred idle]
  exact List.not_mem_nil

theorem start_sound (requests : Nat → RequestData) (config : CancellerConfig β) : (start requests config).Sound where
  inverse := ⟨fun _ _ => ⟨nofun, fun found => nomatch found.1⟩, nofun⟩
  distinct := ⟨nofun, fun _ => List.nodup_nil⟩
  logged := nofun
  forgotten := nofun
  deferred _ := rfl

/-- The tracker loses requests, and nothing else changes. -/
theorem Sound.shrink (sound : canceller.Sound) {tracker : OldBuildrequestTracker β} (inverse : tracker.Inverse)
    (distinct : tracker.Distinct) (shrinks : canceller.tracker.Shrinks tracker) :
    { canceller with tracker }.Sound where
  inverse := inverse
  distinct := distinct
  logged ssTuple time changed := sound.logged ssTuple time (shrinks.changeTimeBySs ▸ changed)
  forgotten brid delivered dealt := shrinks.missing (sound.forgotten brid delivered dealt)
  deferred := sound.deferred

variable [DecidableEq β]

variable (canceller) in
def Right (event : CancellerEvent β) : Prop :=
  ∀ effect ∈ (canceller.step event).2, ∃ brid, effect = .onCancel brid ∧ canceller.Obsoleted event brid

theorem Sound.register (sound : canceller.Sound) {brid : Nat}
    (fresh : canceller.tracker.matchedTuples (canceller.requests brid).builderName
        (canceller.requests brid).sourcestamps ≠ [] →
      (canceller.tracker.matchedTuples (canceller.requests brid).builderName
        (canceller.requests brid).sourcestamps).Nodup ∧
      canceller.tracker.brById brid = none ∧
      (brid ∈ canceller.delivered → brid ∈ canceller.completedWhileReconfiguring)) :
    (canceller.register brid).1.Sound ∧
      ∃ cancelled : List Nat, (canceller.register brid).2 = cancelled.map TrackerEffect.onCancel ∧
        ∀ other ∈ cancelled, ∃ tracked, canceller.tracker.brById other = some tracked ∧
          canceller.tracker.Obsolete (canceller.requests brid).builderName (canceller.requests brid).sourcestamps
            tracked := by
  obtain ⟨tracker, cancelled, result, inverse, distinct, shrinks, obsolete⟩ :=
    OldBuildrequestTracker.maybeCancel_correct (canceller.requests brid).builderName sound.inverse sound.distinct
      (canceller.requests brid).sourcestamps
  have quiet : TrackerEffect.keyError ∉ cancelled.map .onCancel := by simp
  unfold OldBuildCanceller.register OldBuildrequestTracker.onNewBuildrequest
  rw [result]
  dsimp only
  rw [if_neg quiet]
  refine ⟨?_, cancelled, rfl, obsolete⟩
  have shrunk := sound.shrink inverse distinct shrinks
  rw [← shrinks.matchedTuples] at fresh
  by_cases matched : tracker.matchedTuples (canceller.requests brid).builderName
      (canceller.requests brid).sourcestamps = []
  · unfold OldBuildrequestTracker.addNewBuildrequest
    rw [if_pos matched]
    exact shrunk
  · obtain ⟨nodup, missing, ahead⟩ := fresh matched
    have missing := shrinks.missing missing
    rw [inverse.add _ _ matched nodup missing]
    refine ⟨inverse.track missing, distinct.track inverse missing nodup, shrunk.logged,
      fun other delivered dealt => ?_, sound.deferred⟩
    have different : other ≠ brid := fun same => dealt (same ▸ ahead (same ▸ delivered))
    exact (Function.update_of_ne different _ _).trans (shrunk.forgotten other delivered dealt)

theorem completeAll_correct {tracker : OldBuildrequestTracker β} (inverse : tracker.Inverse)
    (distinct : tracker.Distinct) (brids : List Nat) :
    ∃ after, completeAll tracker brids = (after, []) ∧ after.Inverse ∧ after.Distinct ∧ tracker.Shrinks after ∧
      ∀ brid ∈ brids, after.brById brid = none := by
  induction brids generalizing tracker with
  | nil => exact ⟨tracker, rfl, inverse, distinct, .refl, nofun⟩
  | cons brid rest ih =>
    obtain ⟨middle, result, inverse, distinct, first, missing⟩ :=
      OldBuildrequestTracker.complete_correct inverse distinct brid
    obtain ⟨after, results, inverse, distinct, second, gone⟩ := ih inverse distinct
    refine ⟨after, ?_, inverse, distinct, first.trans second, fun other member => ?_⟩
    · unfold completeAll
      rw [result]
      exact results
    · rcases List.mem_cons.mp member with rfl | later
      · exact second.missing missing
      · exact gone other later

theorem Sound.seed (sound : canceller.Sound) {todo : List Nat} (seeding : canceller.seeding = .seeding todo) :
    canceller.seed.1.Sound ∧ canceller.seed.2 = [] := by
  unfold OldBuildCanceller.seed
  rw [seeding]
  cases todo with
  | nil =>
    obtain ⟨after, result, inverse, distinct, shrinks, gone⟩ :=
      completeAll_correct sound.inverse sound.distinct canceller.completedWhileReconfiguring
    dsimp only
    rw [result]
    refine ⟨⟨inverse, distinct, (sound.shrink inverse distinct shrinks).logged, fun brid delivered _ => ?_,
      fun _ => rfl⟩, rfl⟩
    by_cases waits : brid ∈ canceller.completedWhileReconfiguring
    · exact gone brid waits
    · exact shrinks.missing (sound.forgotten brid delivered waits)
  | cons brid rest =>
    exact ⟨⟨sound.inverse, sound.distinct, sound.logged, sound.forgotten, sound.deferred⟩, rfl⟩

theorem Sound.completeMessage (sound : canceller.Sound) (brid : Nat) :
    (canceller.step (.completeMessage brid)).1.Sound ∧ (canceller.step (.completeMessage brid)).2 = [] := by
  unfold OldBuildCanceller.step
  dsimp only
  split
  · split
    · rename_i reconfiguring
      refine ⟨⟨sound.inverse, sound.distinct, sound.logged, fun other delivered dealt => ?_, fun idle => ?_⟩, rfl⟩
      · rw [List.mem_append, not_or] at dealt
        exact sound.forgotten other ((List.mem_append.mp delivered).resolve_right dealt.2) dealt.1
      · rw [reconfiguring] at idle
        cases idle
    · obtain ⟨after, result, inverse, distinct, shrinks, missing⟩ :=
        OldBuildrequestTracker.complete_correct sound.inverse sound.distinct brid
      rw [result]
      have shrunk := sound.shrink inverse distinct shrinks
      refine ⟨⟨inverse, distinct, shrunk.logged, fun other delivered dealt => ?_, sound.deferred⟩, rfl⟩
      rcases List.mem_append.mp delivered with earlier | now
      · exact shrunk.forgotten other earlier dealt
      · rw [List.mem_singleton.mp now]
        exact missing
  · exact ⟨sound, rfl⟩

theorem Sound.change (sound : canceller.Sound) (change : SourceStamp) :
    (canceller.step (.change change)).1.Sound := by
  have logged (ssTuple : SsTuple β) (time : Rat)
      (changed : Function.update canceller.tracker.changeTimeBySs (canceller.tracker.ssTuple change)
        (some canceller.now) ssTuple = some time) :
      (ssTuple, time) ∈ canceller.changeLog ++ [(canceller.tracker.ssTuple change, canceller.now)] := by
    by_cases same : ssTuple = canceller.tracker.ssTuple change
    · rw [same, Function.update_self] at changed
      cases changed
      rw [same]
      exact List.mem_append_right _ (List.mem_singleton_self _)
    · rw [Function.update_of_ne same] at changed
      exact List.mem_append_left _ (sound.logged ssTuple time changed)
  unfold OldBuildCanceller.step OldBuildrequestTracker.onChange
  dsimp only
  split
  · refine ⟨⟨sound.inverse.indexed, sound.inverse.own⟩, ⟨sound.distinct.tuples, sound.distinct.requests⟩,
      fun ssTuple time changed => ?_, sound.forgotten, sound.deferred⟩
    exact logged ssTuple time (Option.filter_eq_some_iff.mp changed).1
  · exact ⟨⟨sound.inverse.indexed, sound.inverse.own⟩, ⟨sound.distinct.tuples, sound.distinct.requests⟩, logged,
      sound.forgotten, sound.deferred⟩

/-- What a request that arrives makes obsolete is cancelled rightly. -/
theorem Sound.right (sound : canceller.Sound) {event : CancellerEvent β} {brid : Nat} {cancelled : List Nat}
    (orderly : canceller.Orderly event) (arrives : canceller.arriving event = some brid)
    (effects : (canceller.step event).2 = cancelled.map .onCancel)
    (obsolete : ∀ other ∈ cancelled, ∃ tracked, canceller.tracker.brById other = some tracked ∧
      canceller.tracker.Obsolete (canceller.requests brid).builderName (canceller.requests brid).sourcestamps
        tracked) : canceller.Right event := by
  intro effect member
  rw [effects] at member
  obtain ⟨other, listed, rfl⟩ := List.mem_map.mp member
  obtain ⟨tracked, found, older⟩ := obsolete other listed
  obtain ⟨different, incomplete⟩ := (orderly brid arrives).2 other tracked found older
  obtain ⟨same, sourcestamp, among, shared, time, changed, before⟩ := older
  exact ⟨other, rfl, tracked, found, incomplete, brid, arrives, different.symm, same, sourcestamp, among, shared, time,
    sound.logged _ _ changed, before⟩

theorem Sound.step (sound : canceller.Sound) (event : CancellerEvent β) (orderly : canceller.Orderly event) :
    (canceller.step event).1.Sound ∧ canceller.Right event := by
  have quiet (kept : (canceller.step event).1.Sound) (silent : (canceller.step event).2 = []) :
      (canceller.step event).1.Sound ∧ canceller.Right event :=
    ⟨kept, fun effect member => by rw [silent] at member; cases member⟩
  cases event with
  | create brid =>
    refine quiet ?_ rfl
    unfold OldBuildCanceller.step
    dsimp only
    split
    · exact sound
    · exact ⟨sound.inverse, sound.distinct, sound.logged, sound.forgotten, sound.deferred⟩
  | complete brid =>
    refine quiet ?_ rfl
    unfold OldBuildCanceller.step
    dsimp only
    split
    · exact ⟨sound.inverse, sound.distinct, sound.logged, sound.forgotten, sound.deferred⟩
    · exact sound
  | newMessage brid =>
    refine quiet ?_ rfl
    unfold OldBuildCanceller.step
    dsimp only
    split
    · exact ⟨sound.inverse, sound.distinct, sound.logged, sound.forgotten, sound.deferred⟩
    · exact sound
  | completeMessage brid => exact quiet (sound.completeMessage brid).1 (sound.completeMessage brid).2
  | change change => exact quiet (sound.change change) rfl
  | wait seconds =>
    exact quiet ⟨sound.inverse, sound.distinct, sound.logged, sound.forgotten, sound.deferred⟩ rfl
  | reconfig config =>
    refine quiet ?_ rfl
    unfold OldBuildCanceller.step
    dsimp only
    split
    · exact ⟨⟨sound.inverse.indexed, sound.inverse.own⟩, ⟨sound.distinct.tuples, sound.distinct.requests⟩,
        sound.logged, sound.forgotten, nofun⟩
    · exact sound
  | newHandled brid =>
    by_cases waits : brid ∈ canceller.handlers
    · have arrives : canceller.arriving (.newHandled brid) = some brid := if_pos waits
      have erased : { canceller with handlers := canceller.handlers.erase brid }.Sound :=
        ⟨sound.inverse, sound.distinct, sound.logged, sound.forgotten, sound.deferred⟩
      obtain ⟨kept, cancelled, effects, obsolete⟩ := erased.register (orderly brid arrives).1
      have same : canceller.step (.newHandled brid) =
        { canceller with handlers := canceller.handlers.erase brid }.register brid := if_pos waits
      rw [same]
      exact ⟨kept, sound.right orderly arrives (same ▸ effects) obsolete⟩
    · have same : canceller.step (.newHandled brid) = (canceller, []) := if_neg waits
      exact quiet (same ▸ sound) (same ▸ rfl)
  | seed =>
    cases seeding : canceller.seeding with
    | idle =>
      have same : canceller.step .seed = (canceller, []) := by
        simp only [OldBuildCanceller.step, OldBuildCanceller.seed, seeding]
      exact quiet (same ▸ sound) (same ▸ rfl)
    | fetching =>
      refine quiet ?_ ?_
      all_goals simp only [OldBuildCanceller.step, OldBuildCanceller.seed, seeding]
      exact ⟨sound.inverse, sound.distinct, sound.logged, sound.forgotten, sound.deferred⟩
    | seeding todo => exact quiet (sound.seed seeding).1 (sound.seed seeding).2
    | registering brid todo =>
      have arrives : canceller.arriving .seed = some brid := by simp only [arriving, seeding]
      obtain ⟨kept, cancelled, effects, obsolete⟩ := sound.register (orderly brid arrives).1
      have same : canceller.step .seed = ({ (canceller.register brid).1 with
          seeding := if .keyError ∈ (canceller.register brid).2 then .idle else .seeding todo },
          (canceller.register brid).2) := by
        simp only [OldBuildCanceller.step, OldBuildCanceller.seed, seeding]
      refine ⟨?_, sound.right orderly arrives (same ▸ effects) obsolete⟩
      rw [same]
      exact ⟨kept.inverse, kept.distinct, kept.logged, kept.forgotten, kept.deferred⟩

/-- Old builds are cancelled exactly in a run in which every request that arrives is new, and not yet dealt with as
complete. -/
theorem canceller_exact (requests : Nat → RequestData) (config : CancellerConfig β) (events : List (CancellerEvent β))
    (orderly : Always step Orderly (start requests config) events) :
    (final step (start requests config) events).Exact ∧ Always step (fun canceller => canceller.Right) (start requests config) events := by
  have preserved (canceller : OldBuildCanceller β) (event : CancellerEvent β) (sound : canceller.Sound)
      (orderly : canceller.Orderly event) := sound.step event orderly
  have initially := start_sound requests config
  constructor
  · have kept (canceller : OldBuildCanceller β) (event : CancellerEvent β) (sound : canceller.Sound)
        (orderly : canceller.Orderly event) : (canceller.step event).1.Sound := (sound.step event orderly).1
    exact (invariant_of_always kept initially orderly).exact
  · exact always_of_always preserved initially orderly

/-- Two requests for one builder and one branch. -/
def sameBranch : Nat → RequestData := fun _ => ⟨"builder", [⟨"", "", "", some "main"⟩]⟩

def byBranch : CancellerConfig (Option String) := ⟨fun _ _ => true, SourceStamp.branch⟩

/-- The branch changes between the requests, and the second one makes the first obsolete. -/
def superseded : List (CancellerEvent (Option String)) :=
  [.create 1, .newMessage 1, .newHandled 1, .wait 1, .change ⟨"", "", "", some "main"⟩, .create 2, .newMessage 2,
    .newHandled 2, .complete 1, .completeMessage 1]

theorem superseded_exact :
    (final step (start sameBranch byBranch) superseded).Exact ∧
      Always step (fun canceller => canceller.Right) (start sameBranch byBranch) superseded := by
  refine canceller_exact sameBranch byBranch superseded
    ⟨nofun, nofun, ?_, nofun, nofun, nofun, nofun, ?_, nofun, nofun, trivial⟩
  · intro brid arrives
    cases arrives
    exact ⟨fun _ => ⟨by decide, rfl, nofun⟩, nofun⟩
  · intro brid arrives
    cases arrives
    refine ⟨fun _ => ⟨by decide, rfl, nofun⟩, fun other tracked found _ => ⟨?_, List.not_mem_nil⟩⟩
    rintro rfl
    cases found

/-- The completion overtakes the handler of the new request. -/
def overtaking : List (CancellerEvent (Option String)) :=
  [.create 1, .newMessage 1, .complete 1, .completeMessage 1, .newHandled 1]

theorem overtaking_tracked : (final step (start sameBranch byBranch) overtaking).handlers = [] ∧
    ¬ (final step (start sameBranch byBranch) overtaking).Exact := by
  refine ⟨by decide, fun exact => ?_⟩
  have forgotten := exact.forgotten rfl 1 (by decide)
  revert forgotten
  decide

end OldBuildCanceller

end Umbilical.Schedulers
